import GpgpuSim.Huffman.Renumbering
import GpgpuSim.Transition.Fallible

/-! The lengths assigned by each builder: depths of the heap tree, depths of the
recursive split, and rounded logarithms. All three satisfy Kraft's inequality. -/
namespace GpgpuSim.Huffman
open Containers Coding Transition

namespace HuffmanNode

/-- The leaves from left to right, each a `(symbol, frequency)` pair with its depth. -/
def depths : HuffmanNode → List ((Nat × Nat) × Nat)
  | leaf symbol frequency => [((symbol, frequency), 0)]
  | node _ left right => (left.depths ++ right.depths).map fun leaf => (leaf.1, leaf.2 + 1)
  | single _ left => left.depths.map fun leaf => (leaf.1, leaf.2 + 1)

attribute [local simp] depths

def leaves (tree : HuffmanNode) : List (Nat × Nat) := tree.depths.map Prod.fst

@[simp] theorem leaves_leaf (symbol frequency : Nat) :
    (leaf symbol frequency).leaves = [(symbol, frequency)] := rfl

@[simp] theorem leaves_node (frequency : Nat) (left right : HuffmanNode) :
    (node frequency left right).leaves = left.leaves ++ right.leaves := by
  simp [leaves, depths, Function.comp_def]

@[simp] theorem leaves_single (frequency : Nat) (left : HuffmanNode) :
    (single frequency left).leaves = left.leaves := by
  simp [leaves, depths, Function.comp_def]

theorem map_snd_depths_node (frequency : Nat) (left right : HuffmanNode) :
    (node frequency left right).depths.map Prod.snd =
      (left.depths.map Prod.snd ++ right.depths.map Prod.snd).map (· + 1) := by
  simp [depths, Function.comp_def]

theorem map_snd_depths_single (frequency : Nat) (left : HuffmanNode) :
    (single frequency left).depths.map Prod.snd = (left.depths.map Prod.snd).map (· + 1) := by
  simp [depths, Function.comp_def]

/-- The leaves of a binary tree fit the code space. -/
theorem kraftSum_depths (tree : HuffmanNode) : kraftSum (tree.depths.map Prod.snd) ≤ 1 := by
  induction tree with
  | leaf symbol frequency => simp [depths]
  | node frequency left right ihLeft ihRight =>
      rw [map_snd_depths_node]
      exact kraftSum_branch ihLeft ihRight
  | single frequency left ih =>
      rw [map_snd_depths_single]
      simpa using kraftSum_branch ih (show kraftSum [] ≤ 1 by simp)

end HuffmanNode

namespace HuffmanCodebook

/-- The tree walk records one code per leaf, as long as the leaf is deep. -/
theorem generateCodesFromTree_eq (tree : HuffmanNode) (code : List Bool) (codebook : HuffmanCodebook) :
    ∃ words, generateCodesFromTree tree code codebook = codebook.recordAll words ∧
      words.map (fun word => (word.1, word.2.length)) =
        tree.depths.map fun leaf => (leaf.1.1, leaf.2 + code.length) := by
  induction tree generalizing code codebook with
  | leaf symbol frequency => exact ⟨[(symbol, code)], rfl, by simp [HuffmanNode.depths]⟩
  | node frequency left right ihLeft ihRight =>
      obtain ⟨leftWords, leftEq, leftLengths⟩ := ihLeft (code ++ [false]) codebook
      obtain ⟨rightWords, rightEq, rightLengths⟩ :=
        ihRight (code ++ [true]) (codebook.recordAll leftWords)
      refine ⟨leftWords ++ rightWords, ?_, ?_⟩
      · rw [generateCodesFromTree, leftEq, rightEq, recordAll_append]
      · simp only [List.map_append, leftLengths, rightLengths, HuffmanNode.depths, List.map_map]
        simp [Function.comp_def, Nat.add_comm, Nat.add_left_comm]
  | single frequency left ih =>
      obtain ⟨words, eq, lengths⟩ := ih (code ++ [false]) codebook
      refine ⟨words, ?_, ?_⟩
      · rw [generateCodesFromTree, eq]
      · simp only [lengths, HuffmanNode.depths, List.map_map]
        simp [Function.comp_def, Nat.add_comm, Nat.add_left_comm]

/-! ## Building the tree -/

variable (queue : PriorityQueue HuffmanNode.lighter)

/-- The rounds of the queue loop: two lightest nodes are joined until one is left. -/
inductive HeapMerges : List HuffmanNode → HuffmanNode → Prop
  | root (node : HuffmanNode) : HeapMerges [node] node
  | join {nodes rest : List HuffmanNode} {left right root : HuffmanNode}
      (perm : (left :: right :: rest).Perm nodes)
      (leastLeft : ∀ node ∈ right :: rest, left.frequency ≤ node.frequency)
      (leastRight : ∀ node ∈ rest, right.frequency ≤ node.frequency)
      (merged : HeapMerges (left.join right :: rest) root) : HeapMerges nodes root

theorem heapMerges_of_mergeNodes {fuel : Nat} {nodes : List HuffmanNode} {root : HuffmanNode}
    (merged : mergeNodes queue fuel nodes = some root) : HeapMerges nodes root := by
  induction fuel generalizing nodes with
  | zero => contradiction
  | succ fuel ih =>
      by_cases long : nodes.length > 1
      · obtain ⟨left, right, rest, rest', popLeft, popRight, perm, leastLeft, leastRight⟩ :=
          queue.pop_twice long
        simp only [mergeNodes, if_pos long, popLeft, popRight, Option.bind_eq_bind,
          Option.bind_some] at merged
        refine .join perm (fun node inside => ?_) (fun node inside => ?_) (ih merged)
        · simpa [HuffmanNode.lighter] using leastLeft node inside
        · simpa [HuffmanNode.lighter] using leastRight node inside
      · -- a single node is popped as the root
        simp only [mergeNodes, if_neg long, Option.map_eq_some_iff] at merged
        obtain ⟨⟨node, rest⟩, popped, rfl⟩ := merged
        have size := queue.pop_length popped
        obtain rfl : rest = [] := List.length_eq_zero_iff.mp (by omega)
        obtain rfl : nodes = [node] := List.perm_singleton.mp (queue.perm _ _ _ popped).symm
        exact .root node

/-- As many rounds as nodes always reach a root. -/
theorem exists_mergeNodes (fuel : Nat) (nodes : List HuffmanNode) (nonempty : nodes ≠ [])
    (enough : nodes.length ≤ fuel) : ∃ root, mergeNodes queue fuel nodes = some root := by
  induction fuel generalizing nodes with
  | zero => exact absurd (List.length_eq_zero_iff.mp (Nat.le_zero.mp enough)) nonempty
  | succ fuel ih =>
      by_cases long : nodes.length > 1
      · obtain ⟨left, right, rest, rest', popLeft, popRight, perm, -, -⟩ := queue.pop_twice long
        have size := perm.length_eq
        simp only [List.length_cons] at size
        obtain ⟨root, merged⟩ := ih (left.join right :: rest') (by simp)
          (by simp only [List.length_cons]; omega)
        exact ⟨root, by simp [mergeNodes, long, popLeft, popRight, merged]⟩
      · obtain ⟨⟨root, rest⟩, popped⟩ := Option.isSome_iff_exists.mp (queue.pop_isSome nodes nonempty)
        exact ⟨root, by simp [mergeNodes, long, popped]⟩

/-- The root holds the leaves of all nodes. -/
theorem HeapMerges.leaves {nodes : List HuffmanNode} {root : HuffmanNode} (merges : HeapMerges nodes root) :
    root.leaves.Perm (nodes.flatMap HuffmanNode.leaves) := by
  induction merges with
  | root node => simp
  | join perm _ _ _ ih =>
      refine ih.trans (List.Perm.trans ?_ (perm.flatMap_right _))
      simp [HuffmanNode.join]

/-- A non-empty table always has a tree, with one leaf for each of its pairs. -/
theorem buildTree_leaves {freqPairs : List (Nat × Nat)} (nonempty : freqPairs ≠ []) :
    ∃ root, buildTree queue freqPairs = some root ∧ root.leaves.Perm freqPairs := by
  match freqPairs, nonempty with
  | [pair], _ => exact ⟨_, rfl, by simp⟩
  | first :: second :: rest, _ =>
      obtain ⟨root, merged⟩ := exists_mergeNodes queue _
        ((first :: second :: rest).map fun pair => HuffmanNode.leaf pair.1 pair.2) (by simp) le_rfl
      have leaves := (heapMerges_of_mergeNodes queue merged).leaves
      rw [List.flatMap_map] at leaves
      exact ⟨root, merged, by simpa using leaves⟩

/-! ## Recursive split -/

/-- The split records one code per symbol, with lengths that fit the code space. -/
theorem shannonFanoEncode_eq (symbols : List (Nat × Nat)) (code : List Bool) (codebook : HuffmanCodebook)
    (nonempty : symbols ≠ []) :
    ∃ words lengths, shannonFanoEncode symbols code codebook = codebook.recordAll words ∧
      words.map Prod.fst = symbols.map Prod.fst ∧
      words.map (fun word => word.2.length) = lengths.map (· + code.length) ∧ kraftSum lengths ≤ 1 := by
  induction symbols, code, codebook using shannonFanoEncode.induct with
  | case1 code codebook => exact absurd rfl nonempty
  | case2 code codebook a =>
      exact ⟨[(a.1, code)], [0], by simp [shannonFanoEncode, recordAll], by simp, by simp, by simp⟩
  | case3 code codebook a b =>
      refine ⟨[(a.1, code ++ [false]), (b.1, code ++ [true])], [1, 1], ?_, by simp, ?_, ?_⟩
      · simp [shannonFanoEncode, recordAll]
      · simp [Nat.add_comm]
      · simp only [kraftSum_cons, kraftSum_nil]
        norm_num
  | case4 code codebook a b c rest range left right ihLeft _ ihRight =>
      have parts := splitPoint_lt (show 2 ≤ range.length by simp [range])
      have leftSome : left ≠ [] := by
        simp [left, range]
      have rightSome : right ≠ [] := by
        rw [← List.length_pos_iff]
        simp only [right, List.length_drop]
        omega
      obtain ⟨leftWords, leftLengths, leftEq, leftSymbols, leftSizes, leftKraft⟩ := ihLeft leftSome
      rw [leftEq] at ihRight
      obtain ⟨rightWords, rightLengths, rightEq, rightSymbols, rightSizes, rightKraft⟩ := ihRight rightSome
      refine ⟨leftWords ++ rightWords, (leftLengths ++ rightLengths).map (· + 1), ?_, ?_, ?_,
        kraftSum_branch leftKraft rightKraft⟩
      · rw [shannonFanoEncode, recordAll_append, ← rightEq, ← leftEq]
      · rw [List.map_append, leftSymbols, rightSymbols, ← List.map_append]
        simp only [left, right, range, List.take_append_drop]
      · rw [List.map_append, leftSizes, rightSizes]
        simp [Function.comp_def, Nat.add_comm, Nat.add_left_comm]

/-! ## Rounded logarithms -/

/-- The sum wraps around. -/
theorem rangeTotal_eq_mod (symbols : List (Nat × Nat)) :
    rangeTotal symbols = (symbols.map Prod.snd).sum % 2 ^ 64 := by
  have general : ∀ start < 2 ^ 64, symbols.foldl (fun total pair => (total + pair.2) % 2 ^ 64) start =
      (start + (symbols.map Prod.snd).sum) % 2 ^ 64 := by
    induction symbols with
    | nil => exact fun start word => (Nat.mod_eq_of_lt word).symm
    | cons pair rest ih =>
        intro start _
        rw [List.foldl_cons, ih _ (Nat.mod_lt _ (by decide)), Nat.mod_add_mod, List.map_cons, List.sum_cons,
          Nat.add_assoc]
  rw [rangeTotal, general 0 (by decide), Nat.zero_add]

theorem rangeTotal_lt (symbols : List (Nat × Nat)) : rangeTotal symbols < 2 ^ 64 :=
  rangeTotal_eq_mod symbols ▸ Nat.mod_lt _ (by decide)

theorem rangeTotal_eq {symbols : List (Nat × Nat)} (fits : (symbols.map Prod.snd).sum < 2 ^ 64) :
    rangeTotal symbols = (symbols.map Prod.snd).sum := by
  rw [rangeTotal_eq_mod, Nat.mod_eq_of_lt fits]

/-- The exact ceiling of a negated logarithm, as a bound on a power of two. -/
theorem exact_ceilNegLog2_le_iff {frequency total : Nat} (positive : 1 ≤ frequency) (some : 1 ≤ total) (len : Nat) :
    FloatArithmetic.exact.ceilNegLog2 (frequency / total) ≤ len ↔ total ≤ 2 ^ len * frequency := by
  have totalPos : (0 : ℚ) < total := by exact_mod_cast some
  have probability : (0 : ℚ) < frequency / total := div_pos (by exact_mod_cast positive) totalPos
  have power : ((2 : ℕ) : ℚ) ^ (-(len : ℤ)) = 1 / 2 ^ len := by
    rw [zpow_neg, zpow_natCast, one_div, Nat.cast_ofNat]
  calc FloatArithmetic.exact.ceilNegLog2 (frequency / total) ≤ len
      ↔ -(len : ℤ) ≤ Int.log 2 ((frequency : ℚ) / total) := by
        simp only [FloatArithmetic.exact]
        omega
    _ ↔ (1 : ℚ) / 2 ^ len ≤ frequency / total := by
        rw [← Int.zpow_le_iff_le_log (by decide) probability, power]
    _ ↔ (total : ℚ) ≤ 2 ^ len * frequency := by
        rw [div_le_div_iff₀ (by positivity) totalPos, one_mul, mul_comm (frequency : ℚ)]
    _ ↔ total ≤ 2 ^ len * frequency := by exact_mod_cast Iff.rfl

/-- Without rounding errors the Shannon length is the least `len ≥ 1` with
`2 ^ len * frequency ≥ total`. -/
theorem shannonLength_exact {frequency total : Nat} (positive : 1 ≤ frequency) (share : frequency ≤ total) :
    ∃ len, shannonLength .exact frequency total = .ok len ∧ 1 ≤ len ∧ total ≤ 2 ^ len * frequency ∧
      ∀ shorter, 1 ≤ shorter → total ≤ 2 ^ shorter * frequency → len ≤ shorter := by
  have some : 1 ≤ total := positive.trans share
  have probability : (frequency : ℚ) / total ≠ 0 := by
    refine div_ne_zero ?_ ?_ <;> exact_mod_cast (by omega)
  have least := exact_ceilNegLog2_le_iff positive some
  have nonneg : ¬ FloatArithmetic.exact.ceilNegLog2 ((frequency : ℚ) / total) < 0 := by
    refine not_lt.mpr (neg_nonneg.mpr ?_)
    calc Int.log 2 ((frequency : ℚ) / total) ≤ Int.log 2 (1 : ℚ) := by
          refine Int.log_mono_right (lt_of_le_of_ne (by positivity) probability.symm) ?_
          exact (div_le_one (by exact_mod_cast some)).mpr (by exact_mod_cast share)
      _ = 0 := Int.log_one_right 2
  generalize ceil : FloatArithmetic.exact.ceilNegLog2 ((frequency : ℚ) / total) = c at least nonneg
  refine ⟨max c.toNat 1, ?_, le_max_right _ _, (least _).mp ?_, ?_⟩
  · have exact (p : ℚ) : FloatArithmetic.exact.round p = p := rfl
    simp only [shannonLength, exact, ceil, if_neg probability, if_neg nonneg,
      if_neg (Nat.one_le_iff_ne_zero.mp some)]
  · omega
  · intro shorter long bound
    have := (least shorter).mpr bound
    omega

/-- A list of symbols with lengths that are long enough for their shares of the total. -/
theorem kraftSum_shares {total : Nat} (some : 1 ≤ total) {symbols lengths : List (Nat × Nat)}
    (long : List.Forall₂ (fun pair length => length.1 = pair.1 ∧ total ≤ 2 ^ length.2 * pair.2)
      symbols lengths) :
    lengths.map Prod.fst = symbols.map Prod.fst ∧
      kraftSum (lengths.map Prod.snd) ≤ ((symbols.map Prod.snd).sum : ℚ) / total := by
  have totalPos : (0 : ℚ) < total := by exact_mod_cast some
  induction long with
  | nil => simp
  | @cons pair length symbols lengths here _ ih =>
      obtain ⟨same, bound⟩ := here
      refine ⟨by simp [same, ih.1], ?_⟩
      have share : (1 / 2 : ℚ) ^ length.2 ≤ pair.2 / total := by
        rw [one_div_pow, div_le_div_iff₀ (by positivity) totalPos, one_mul, mul_comm]
        exact_mod_cast bound
      simp only [List.map_cons, kraftSum_cons, List.sum_cons, Nat.cast_add, add_div]
      exact add_le_add share ih.2

/-- Exact Shannon lengths are assigned to all symbols and fit the code space. -/
theorem shannonLengths_exact {symbols : List (Nat × Nat)} (nonempty : symbols ≠ [])
    (positive : ∀ p ∈ symbols, 1 ≤ p.2) (fits : (symbols.map Prod.snd).sum < 2 ^ 64) :
    ∃ lengths, shannonLengths .exact symbols = .ok lengths ∧
      lengths.map Prod.fst = symbols.map Prod.fst ∧ kraftSum (lengths.map Prod.snd) ≤ 1 := by
  have share : ∀ p ∈ symbols, p.2 ≤ (symbols.map Prod.snd).sum := fun p member =>
    List.single_le_sum (by simp) _ (List.mem_map_of_mem member)
  obtain ⟨first, member⟩ := List.exists_mem_of_ne_nil symbols nonempty
  have some : 1 ≤ (symbols.map Prod.snd).sum := (positive first member).trans (share first member)
  obtain ⟨lengths, done, long⟩ := mapM_forall₂ (l := symbols)
    (f := fun pair => do
      let codeLength ← shannonLength .exact pair.2 (rangeTotal symbols)
      return (pair.1, codeLength))
    (P := fun pair length => length.1 = pair.1 ∧ (symbols.map Prod.snd).sum ≤ 2 ^ length.2 * pair.2)
    (by
      intro pair inside
      obtain ⟨len, assigned, -, bound, -⟩ := shannonLength_exact (positive pair inside) (share pair inside)
      rw [rangeTotal_eq fits, assigned]
      exact ⟨(pair.1, len), rfl, rfl, bound⟩)
  obtain ⟨same, kraft⟩ := kraftSum_shares some long
  refine ⟨lengths, done, same, kraft.trans ?_⟩
  exact (div_le_one (by exact_mod_cast some)).mpr (by exact_mod_cast le_rfl)

/-! With rounding, what keeps the conversion to `size_t` defined is that powers of
two are exact and rounding is monotone. -/

variable (fp : FloatArithmetic)

theorem one_le_round {n : Nat} (positive : 1 ≤ n) : (1 : ℚ) ≤ fp.round n := by
  have roundOne : fp.round 1 = 1 := by simpa using fp.round_two_pow 0 (by decide)
  exact roundOne ▸ fp.round_mono 1 n (by exact_mod_cast positive)

/-- The probability of a positive count is at least `2 ^ -64`, even if it exceeds
a total that has wrapped. -/
theorem le_probability {frequency total : Nat} (positive : 1 ≤ frequency) (some : 1 ≤ total)
    (fits : total < 2 ^ 64) : (1 / 2) ^ 64 ≤ fp.round (fp.round frequency / fp.round total) := by
  have low := one_le_round fp positive
  have totalPos : 0 < fp.round total := lt_of_lt_of_le one_pos (one_le_round fp some)
  have high : fp.round total ≤ 2 ^ 64 :=
    fp.round_two_pow 64 le_rfl ▸ fp.round_mono total (2 ^ 64) (by exact_mod_cast fits.le)
  rw [← fp.round_half_pow 64 le_rfl]
  refine fp.round_mono _ _ ?_
  rw [one_div_pow, div_le_div_iff₀ (by positivity) totalPos]
  nlinarith

theorem probability_le_one {frequency total : Nat} (some : 1 ≤ total) (share : frequency ≤ total) :
    fp.round (fp.round frequency / fp.round total) ≤ 1 := by
  have totalPos : 0 < fp.round total := lt_of_lt_of_le one_pos (one_le_round fp some)
  have roundOne : fp.round 1 = 1 := by simpa using fp.round_two_pow 0 (by decide)
  rw [← roundOne]
  exact fp.round_mono _ _ ((div_le_one totalPos).mpr (fp.round_mono _ _ (by exact_mod_cast share)))

/-- The length of a symbol with a positive count is defined and at most 64. -/
theorem shannonLength_le {frequency total : Nat} (positive : 1 ≤ frequency) (share : frequency ≤ total)
    (fits : total < 2 ^ 64) : ∃ len, shannonLength fp frequency total = .ok len ∧ len ≤ 64 := by
  have low := le_probability fp positive (positive.trans share) fits
  have high := probability_le_one fp (positive.trans share) share
  generalize eq : fp.round (fp.round frequency / fp.round total) = probability at low high
  have probabilityPos : 0 < probability := lt_of_lt_of_le (by positivity) low
  have atMost : fp.ceilNegLog2 probability ≤ fp.ceilNegLog2 ((1 / 2) ^ 64) :=
    fp.ceilNegLog2_anti _ _ (by positivity) low
  have atLeast : fp.ceilNegLog2 ((1 / 2) ^ 0) ≤ fp.ceilNegLog2 probability :=
    fp.ceilNegLog2_anti _ _ probabilityPos (by simpa using high)
  rw [fp.ceilNegLog2_half_pow _ (by decide)] at atMost atLeast
  have notNegative : ¬ fp.ceilNegLog2 probability < 0 := by omega
  refine ⟨max (fp.ceilNegLog2 probability).toNat 1, ?_, by omega⟩
  simp only [shannonLength, eq, if_neg probabilityPos.ne', if_neg notNegative]
  rw [if_neg (by omega)]

/-- A positive count never leads to the logarithm of zero, and to that of a quotient by zero just when the total
is zero. -/
theorem shannonLength_error {frequency total : Nat} (positive : 1 ≤ frequency) (fits : total < 2 ^ 64) :
    shannonLength fp frequency total ≠ .error .zeroProbability ∧
      (shannonLength fp frequency total = .error .unboundedProbability ↔ total = 0) := by
  by_cases none : total = 0
  · simp [shannonLength, none]
  · have low := le_probability fp positive (Nat.one_le_iff_ne_zero.mpr none) fits
    have probabilityPos : (0 : ℚ) < fp.round (fp.round frequency / fp.round total) :=
      lt_of_lt_of_le (by positivity) low
    simp only [shannonLength, none, if_false, if_neg probabilityPos.ne', iff_false]
    by_cases negative : fp.ceilNegLog2 (fp.round (fp.round frequency / fp.round total)) < 0
    · simp [negative]
    · simp [negative]

/-- The length of a positive count is defined when the total is not zero and the logarithm does not round to a
negative length. -/
theorem shannonLength_ok_iff {frequency total : Nat} (positive : 1 ≤ frequency) (fits : total < 2 ^ 64) :
    (∃ len, shannonLength fp frequency total = .ok len) ↔
      total ≠ 0 ∧ 0 ≤ fp.ceilNegLog2 (fp.round (fp.round frequency / fp.round total)) := by
  by_cases none : total = 0
  · simp [shannonLength, none]
  · have low := le_probability fp positive (Nat.one_le_iff_ne_zero.mpr none) fits
    have probabilityPos : (0 : ℚ) < fp.round (fp.round frequency / fp.round total) :=
      lt_of_lt_of_le (by positivity) low
    simp only [shannonLength, none, if_false, if_neg probabilityPos.ne', ne_eq, not_false_eq_true, true_and]
    by_cases negative : fp.ceilNegLog2 (fp.round (fp.round frequency / fp.round total)) < 0
    · simp [negative]
    · simp [negative, not_lt.mp negative]

/-- A traversal that fails does so at some element; one that succeeds does at all of them. -/
theorem mapM_error {α β ε : Type*} {g : α → Except ε β} {l : List α} {fault : ε}
    (failed : l.mapM g = .error fault) : ∃ a ∈ l, g a = .error fault := by
  induction l with
  | nil => contradiction
  | cons a l ih =>
      rw [List.mapM_cons] at failed
      cases here : g a with
      | error e =>
          rw [here] at failed
          cases failed
          exact ⟨a, by simp, here⟩
      | ok b =>
          cases rest : l.mapM g with
          | error e =>
              rw [here, rest] at failed
              change Except.error e = _ at failed
              obtain ⟨x, member, at_x⟩ := ih (rest.trans failed)
              exact ⟨x, by simp [member], at_x⟩
          | ok bs =>
              rw [here, rest] at failed
              contradiction

theorem mapM_all_ok {α β ε : Type*} {g : α → Except ε β} {l : List α} {bs : List β}
    (done : l.mapM g = .ok bs) : ∀ a ∈ l, ∃ b, g a = .ok b := by
  induction l generalizing bs with
  | nil => simp
  | cons a l ih =>
      rw [List.mapM_cons] at done
      obtain ⟨first, head, done⟩ := bind_ok.mp done
      obtain ⟨later, tail, -⟩ := bind_ok.mp done
      exact List.forall_mem_cons.mpr ⟨⟨first, head⟩, ih tail⟩

/-- No length is infinite or negative when it is converted to `size_t`. -/
def LengthsDefined (symbols : List (Nat × Nat)) : Prop :=
  ∀ p ∈ symbols, rangeTotal symbols ≠ 0 ∧
    0 ≤ fp.ceilNegLog2 (fp.round (fp.round p.2 / fp.round (rangeTotal symbols)))

theorem shannonLengths_ok_iff {symbols : List (Nat × Nat)} (positive : ∀ p ∈ symbols, 1 ≤ p.2) :
    (∃ lengths, shannonLengths fp symbols = .ok lengths) ↔ LengthsDefined fp symbols := by
  have each := fun p member => shannonLength_ok_iff fp (positive p member) (rangeTotal_lt symbols)
  constructor
  · rintro ⟨lengths, done⟩ p member
    obtain ⟨length, assigned⟩ := mapM_all_ok done p member
    obtain ⟨len, assigned, -⟩ := bind_ok.mp assigned
    exact (each p member).mp ⟨len, assigned⟩
  · intro defined
    obtain ⟨lengths, done, -⟩ := mapM_forall₂ (l := symbols)
      (f := fun pair => do
        let codeLength ← shannonLength fp pair.2 (rangeTotal symbols)
        return (pair.1, codeLength))
      (P := fun _ _ => True)
      (by
        intro p member
        obtain ⟨len, assigned⟩ := (each p member).mpr (defined p member)
        exact ⟨(p.1, len), by rw [assigned]; rfl, trivial⟩)
    exact ⟨lengths, done⟩

/-- The first of the positive counts tells whether there is a quotient by zero. -/
theorem shannonLengths_error {symbols : List (Nat × Nat)} (nonempty : symbols ≠ [])
    (positive : ∀ p ∈ symbols, 1 ≤ p.2) : shannonLengths fp symbols ≠ .error .zeroProbability ∧
      (shannonLengths fp symbols = .error .unboundedProbability ↔ rangeTotal symbols = 0) := by
  have each := fun p member => shannonLength_error fp (positive p member) (rangeTotal_lt symbols)
  have at_element : ∀ fault, shannonLengths fp symbols = .error fault →
      ∃ p ∈ symbols, shannonLength fp p.2 (rangeTotal symbols) = .error fault := by
    intro fault failed
    obtain ⟨p, member, failed⟩ := mapM_error failed
    rcases bind_error.mp failed with failed | ⟨len, -, failed⟩
    · exact ⟨p, member, failed⟩
    · contradiction
  refine ⟨fun failed => ?_, fun failed => ?_, fun none => ?_⟩
  · obtain ⟨p, member, failed⟩ := at_element _ failed
    exact (each p member).1 failed
  · obtain ⟨p, member, failed⟩ := at_element _ failed
    exact (each p member).2.mp failed
  · obtain ⟨p, rest, rfl⟩ := List.exists_cons_of_ne_nil nonempty
    rw [shannonLengths, List.mapM_cons, ((each p (by simp)).2.mpr none)]
    rfl

/-- Positive counts whose total fits a word get lengths of at most 64. -/
theorem shannonLengths_le {symbols : List (Nat × Nat)} (positive : ∀ p ∈ symbols, 1 ≤ p.2)
    (fits : (symbols.map Prod.snd).sum < 2 ^ 64) :
    ∃ lengths, shannonLengths fp symbols = .ok lengths ∧
      lengths.map Prod.fst = symbols.map Prod.fst ∧ ∀ length ∈ lengths, length.2 ≤ 64 := by
  obtain ⟨lengths, done, each⟩ := mapM_forall₂ (l := symbols)
    (f := fun pair => do
      let codeLength ← shannonLength fp pair.2 (rangeTotal symbols)
      return (pair.1, codeLength))
    (P := fun pair length => length.1 = pair.1 ∧ length.2 ≤ 64)
    (by
      intro pair inside
      have share : pair.2 ≤ (symbols.map Prod.snd).sum :=
        List.single_le_sum (by simp) _ (List.mem_map_of_mem inside)
      obtain ⟨len, assigned, bound⟩ := shannonLength_le fp (positive pair inside) share fits
      rw [rangeTotal_eq fits, assigned]
      exact ⟨(pair.1, len), rfl, rfl, bound⟩)
  refine ⟨lengths, done, ?_⟩
  clear done positive fits
  induction each with
  | nil => simp
  | cons here _ ih =>
      refine ⟨by simp [here.1, ih.1], ?_⟩
      intro length member
      rcases List.mem_cons.mp member with rfl | member
      · exact here.2
      · exact ih.2 length member

end HuffmanCodebook

end GpgpuSim.Huffman
