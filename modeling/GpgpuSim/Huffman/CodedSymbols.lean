import GpgpuSim.Huffman.Encoding
import GpgpuSim.Huffman.RecursiveSplit

/-! Whether a code of at least one bit tells a coded symbol from an absent one. The
tree over one symbol has a root above its leaf and the Shannon lengths start at
one; the recursive split of a single symbol has nothing to add to the empty code. -/
namespace GpgpuSim.Huffman
open Containers Coding Transition

namespace HuffmanNode

/-- Every leaf is below the root. -/
def Deep (tree : HuffmanNode) : Prop := ∀ leaf ∈ tree.depths, 1 ≤ leaf.2

theorem deep_join (left right : HuffmanNode) : (left.join right).Deep := by
  intro leaf member
  simp only [join, depths, List.mem_map] at member
  obtain ⟨below, -, rfl⟩ := member
  exact Nat.le_add_left 1 below.2

theorem deep_single (frequency : Nat) (left : HuffmanNode) : (single frequency left).Deep := by
  intro leaf member
  simp only [depths, List.mem_map] at member
  obtain ⟨below, -, rfl⟩ := member
  exact Nat.le_add_left 1 below.2

end HuffmanNode

open HuffmanNode (lighter)

namespace HuffmanCodebook

/-- `get_code_string`: a digit for each bit, and nothing for an absent symbol. -/
def getCodeString (codebook : HuffmanCodebook) (symbol : Nat) : String :=
  match codebook.codes.lookup symbol with
  | some entry => String.ofList (entry.bits.map fun bit => if bit then '1' else '0')
  | none => ""

variable {choices : Choices} {fp : FloatArithmetic} {method : CodebookBuildMethod}
  {codebook built : HuffmanCodebook} {count : Nat} {assigned : List (Nat × Nat)} {symbols : List Nat}

/-- A root above two or more nodes comes from a join. -/
theorem HeapMerges.deep {nodes : List HuffmanNode} {root : HuffmanNode} (merges : HeapMerges nodes root)
    (several : 1 < nodes.length ∨ ∀ node ∈ nodes, node.Deep) : root.Deep := by
  induction merges with
  | root node => exact several.resolve_left (by simp) node (by simp)
  | @join nodes rest left right root _ _ _ _ ih =>
      refine ih ?_
      cases rest with
      | nil => exact .inr (List.forall_mem_singleton.mpr (HuffmanNode.deep_join left right))
      | cons next rest => exact .inl (by simp)

/-- One symbol is put below a root of its own. -/
theorem buildTree_deep (queue : PriorityQueue lighter) {freqPairs : List (Nat × Nat)} {root : HuffmanNode}
    (tree : buildTree queue freqPairs = some root) : root.Deep := by
  match freqPairs, tree with
  | [], tree => contradiction
  | [pair], tree =>
      obtain rfl := Option.some.inj tree
      exact HuffmanNode.deep_single _ _
  | a :: b :: rest, tree =>
      exact (heapMerges_of_mergeNodes queue tree).deep (.inl (by simp))

/-- What tells the symbols with a code from all others. -/
structure NamesSymbols (codebook : HuffmanCodebook) (symbols : List Nat) : Prop where
  long : ∀ s ∈ symbols, 1 ≤ codebook.getCodeLength s
  counted : ∀ s, 0 < codebook.getCodeLength s ↔ codebook.hasCode s = true
  told : ∀ s t, codebook.hasCode s = true → codebook.hasCode t = false →
    codebook.getCodeString s ≠ codebook.getCodeString t

theorem Renumbers.lookup (renumbers : Renumbers built assigned) (distinct : (assigned.map Prod.fst).Nodup) :
    (∀ p ∈ assigned, ∃ bits, built.codes.lookup p.1 = some ⟨bits, p.2⟩ ∧ bits.length = p.2) ∧
      ∀ s, s ∉ assigned.map Prod.fst → built.codes.lookup s = none := by
  have lengths := canonicalCodes_lengths distinct
  have bits := canonicalCodes_bits distinct
  rw [← renumbers.codes] at lengths bits
  constructor
  · intro p member
    obtain ⟨entry, stored, rfl⟩ := List.mem_map.mp (lengths.mem_iff.mpr member)
    exact ⟨entry.2.bits, AList.mem_pairs.mp stored, bits entry stored⟩
  · intro s absent
    refine Option.eq_none_iff_forall_ne_some.mpr fun entry found => absent ?_
    have stored : (s, entry) ∈ built.codes.pairs := AList.mem_pairs.mpr found
    exact List.mem_map.mpr ⟨(s, entry.length), lengths.mem_iff.mp (List.mem_map.mpr ⟨_, stored, rfl⟩), rfl⟩

/-- Renumbered codes name their symbols as soon as no assigned length is zero. -/
theorem Renumbers.namesSymbols_iff (renumbers : Renumbers built assigned)
    (same : (assigned.map Prod.fst).Perm symbols) (distinct : symbols.Nodup) :
    NamesSymbols built symbols ↔ ∀ p ∈ assigned, 1 ≤ p.2 := by
  obtain ⟨listed, absent⟩ := renumbers.lookup (same.nodup_iff.mpr distinct)
  constructor
  · intro names p member
    obtain ⟨bits, found, -⟩ := listed p member
    have long := names.long p.1 (same.mem_iff.mp (List.mem_map_of_mem member))
    simpa only [getCodeLength, found] using long
  · intro long
    have coded : ∀ s, s ∈ symbols → ∃ entry, built.codes.lookup s = some entry ∧ 1 ≤ entry.length ∧
        entry.bits ≠ [] := by
      intro s member
      obtain ⟨p, inside, rfl⟩ := List.mem_map.mp (same.mem_iff.mpr member)
      obtain ⟨bits, found, size⟩ := listed p inside
      refine ⟨_, found, long p inside, List.ne_nil_of_length_pos ?_⟩
      exact size ▸ long p inside
    have uncoded : ∀ s, s ∉ symbols → built.codes.lookup s = none := fun s other =>
      absent s fun member => other (same.mem_iff.mp member)
    refine ⟨?_, ?_, ?_⟩
    · intro s member
      obtain ⟨entry, found, size, -⟩ := coded s member
      simpa only [getCodeLength, found] using size
    · intro s
      by_cases member : s ∈ symbols
      · obtain ⟨entry, found, size, -⟩ := coded s member
        simpa [getCodeLength, hasCode, found, Nat.one_le_iff_ne_zero, Nat.pos_iff_ne_zero] using size
      · simp [getCodeLength, hasCode, uncoded s member]
    · intro s t present missing alike
      by_cases member : s ∈ symbols
      · obtain ⟨entry, found, -, some⟩ := coded s member
        have none : built.codes.lookup t = none := by simpa [hasCode] using missing
        simp only [getCodeString, found, none] at alike
        have empty := congrArg String.toList alike
        simp [some] at empty
      · simp [hasCode, uncoded s member] at present

theorem shannonLengths_pos {freqPairs lengths : List (Nat × Nat)}
    (done : shannonLengths fp freqPairs = .ok lengths) : ∀ p ∈ lengths, 1 ≤ p.2 := by
  intro p member
  obtain ⟨pair, -, assigned⟩ := mem_of_mapM done p member
  obtain ⟨len, defined, assigned⟩ := bind_ok.mp assigned
  obtain rfl := pure_ok.mp assigned
  simp only [shannonLength] at defined
  split at defined
  · cases defined
  · split at defined
    · cases defined
    · split at defined
      · cases defined
      · obtain rfl := Except.ok.inj defined
        exact le_max_right _ _

/-- Only the split of a single symbol assigns a length of zero. -/
theorem generateCodebook_assigns (nonempty : codebook.topFrequencies choices ≠ [])
    (done : codebook.generateCodebook choices fp method = .ok (built, count)) :
    ∃ assigned, Renumbers built assigned ∧
      (assigned.map Prod.fst).Perm ((codebook.topFrequencies choices).map Prod.fst) ∧
      ((∀ p ∈ assigned, 1 ≤ p.2) ↔
        ¬ (method = .shannonFano ∧ (codebook.topFrequencies choices).length = 1)) := by
  cases method with
  | huffman =>
      obtain ⟨generated, renumbers, assignment, root, tree, -, lengths⟩ := huffman_assigns choices nonempty
      simp only [generateCodebook, generated, Except.ok.injEq, Prod.mk.injEq] at done
      obtain ⟨rfl, -⟩ := done
      refine ⟨_, renumbers, assignment.symbols, iff_of_true ?_ (by simp)⟩
      intro p member
      obtain ⟨leaf, below, rfl⟩ := List.mem_map.mp (lengths.mem_iff.mp member)
      exact buildTree_deep _ tree leaf below
  | shannonFano =>
      obtain ⟨generated, renumbers, assignment⟩ := shannonFano_assigns choices nonempty
      simp only [generateCodebook, generated, Except.ok.injEq, Prod.mk.injEq] at done
      obtain ⟨rfl, -⟩ := done
      refine ⟨_, renumbers, assignment.symbols, ?_⟩
      obtain ⟨words, recorded, codes⟩ :=
        shannonFanoEncode_rangeCodes (codebook.topFrequencies choices) [] codebook.clearCodes
      have distinct : (words.map Prod.fst).Nodup := codes.symbols ▸ codebook.topFrequencies_nodup choices
      have lengths := codebook.recordAll_codeLengths distinct
      rw [assignShannonFanoCodes, recorded]
      simp only [true_and]
      constructor
      · intro long single
        -- the code of a single symbol fills the whole code space
        have one : words.length = 1 := by
          rw [← single, ← List.length_map (f := Prod.fst), codes.symbols, List.length_map]
        obtain ⟨word, rfl⟩ := List.length_eq_one_iff.mp one
        have full := codes.kraft nonempty
        have some := long _ (lengths.mem_iff.mpr (by simp : (word.1, word.2.length) ∈ _))
        have half : (1 / 2 : ℚ) ^ word.2.length ≤ (1 / 2) ^ 1 :=
          pow_le_pow_of_le_one (by norm_num) (by norm_num) some
        simp only [List.map_cons, List.map_nil, kraftSum_cons, kraftSum_nil, List.length_nil] at full
        norm_num at half full
        linarith
      · intro several p member
        have two : 2 ≤ (codebook.topFrequencies choices).length := by
          have := List.length_pos_iff.mpr nonempty
          omega
        obtain ⟨word, inside, rfl⟩ := List.mem_map.mp (lengths.mem_iff.mp member)
        exact codes.longer two word inside
  | shannon =>
      have filled : (codebook.freqTable.getTopFrequencies choices.descending).isEmpty = false := by
        simpa [topFrequencies] using nonempty
      simp only [generateCodebook, generateShannonCodes, filled, Bool.false_eq_true, if_false] at done
      obtain ⟨assigned, lengths, done⟩ := bind_ok.mp done
      cases done
      exact ⟨assigned, ⟨rfl, by simp [List.foldl_map]⟩, .of_eq (shannonLengths_symbols lengths),
        iff_of_true (shannonLengths_pos lengths) (by simp)⟩

/-- A build ends with a codebook unless it is one of Shannon lengths that are not defined. -/
theorem generateCodebook_ok_iff (positive : ∀ p ∈ codebook.topFrequencies choices, 1 ≤ p.2) :
    (∃ built count, codebook.generateCodebook choices fp method = .ok (built, count)) ↔
      (method = .shannon → LengthsDefined fp (codebook.topFrequencies choices)) := by
  cases method with
  | huffman => exact iff_of_true ⟨_, _, rfl⟩ (by simp)
  | shannonFano => exact iff_of_true ⟨_, _, rfl⟩ (by simp)
  | shannon =>
      rw [forall_prop_of_true rfl, ← shannonLengths_ok_iff fp positive]
      by_cases empty : codebook.topFrequencies choices = []
      · refine iff_of_true ⟨_, _, generateShannonCodes_empty choices fp empty⟩ ?_
        rw [empty]
        exact ⟨[], rfl⟩
      · constructor
        · rintro ⟨built, count, done⟩
          cases lengths : shannonLengths fp (codebook.topFrequencies choices) with
          | ok assigned => exact ⟨assigned, rfl⟩
          | error fault => cases ((generateShannonCodes_error choices empty).mpr lengths).symm.trans done
        · rintro ⟨lengths, assigned⟩
          obtain ⟨built, generated, -⟩ := generateShannonCodes_ok choices fp empty assigned
          exact ⟨built, _, generated⟩

theorem lengthsDefined_of_fits (fp : FloatArithmetic) {freqPairs : List (Nat × Nat)}
    (positive : ∀ p ∈ freqPairs, 1 ≤ p.2) (fits : (freqPairs.map Prod.snd).sum < 2 ^ 64) :
    LengthsDefined fp freqPairs := by
  obtain ⟨lengths, assigned, -⟩ := shannonLengths_le fp positive fits
  exact (shannonLengths_ok_iff fp positive).mp ⟨lengths, assigned⟩

/-- A build ends, gives every top symbol a code of at least one bit and so tells coded symbols from absent ones,
exactly when it is not the Shannon-Fano split of a single symbol and its Shannon lengths, if it is one of these, are
defined. They are whenever the total count fits a word. -/
theorem generateCodebook_namesSymbols_iff (codebook : HuffmanCodebook) (choices : Choices) (fp : FloatArithmetic)
    (method : CodebookBuildMethod) (positive : ∀ p ∈ codebook.freqTable.pairs, 1 ≤ p.2) :
    ((∃ built count, codebook.generateCodebook choices fp method = .ok (built, count) ∧
        NamesSymbols built ((codebook.topFrequencies choices).map Prod.fst)) ↔
      (method = .shannon → LengthsDefined fp (codebook.topFrequencies choices)) ∧
        ¬ (method = .shannonFano ∧ (codebook.topFrequencies choices).length = 1)) ∧
    (((codebook.topFrequencies choices).map Prod.snd).sum < 2 ^ 64 →
      LengthsDefined fp (codebook.topFrequencies choices)) := by
  have topPositive : ∀ p ∈ codebook.topFrequencies choices, 1 ≤ p.2 := fun p member =>
    positive p (FrequencyValueTable.mem_of_mem_top _ member)
  refine ⟨?_, lengthsDefined_of_fits fp topPositive⟩
  rw [← generateCodebook_ok_iff topPositive]
  have names : ∀ built count, codebook.generateCodebook choices fp method = .ok (built, count) →
      (NamesSymbols built ((codebook.topFrequencies choices).map Prod.fst) ↔
        ¬ (method = .shannonFano ∧ (codebook.topFrequencies choices).length = 1)) := by
    intro built count done
    by_cases empty : codebook.topFrequencies choices = []
    · obtain ⟨rfl, -⟩ := generateCodebook_cleared empty done
      have blank : ∀ s, codebook.clearCodes.codes.lookup s = none := fun s => rfl
      refine iff_of_true ⟨by simp [empty], ?_, ?_⟩ (by simp [empty])
      · intro s
        simp [getCodeLength, hasCode, blank]
      · intro s t coded
        simp [hasCode, blank] at coded
    · obtain ⟨assigned, renumbers, same, long⟩ := generateCodebook_assigns empty done
      rw [renumbers.namesSymbols_iff same (codebook.topFrequencies_nodup choices), long]
  constructor
  · rintro ⟨built, count, done, named⟩
    exact ⟨⟨built, count, done⟩, (names built count done).mp named⟩
  · rintro ⟨⟨built, count, done⟩, several⟩
    exact ⟨built, count, done, (names built count done).mpr several⟩

theorem generateCodebook_namesSymbols_iff_sample :
    ∃ built count, sample.generateCodebook .stable .exact .shannon = .ok (built, count) ∧
      NamesSymbols built ((sample.topFrequencies .stable).map Prod.fst) := by
  obtain ⟨names, defined⟩ := generateCodebook_namesSymbols_iff sample .stable .exact .shannon (by decide)
  exact names.mpr ⟨fun _ => defined (by decide), by simp⟩

/-- One symbol, counted three times. -/
def lonely : HuffmanCodebook := startingFrom [(5, 3)]

/-- Its Shannon-Fano code is empty: it has a code, but of no bits and printed like no code at all. -/
theorem lonely_unnamed :
    ∃ built, lonely.generateCodebook .stable .exact .shannonFano = .ok (built, 1) ∧
      built.hasCode 5 = true ∧ built.getCodeLength 5 = 0 ∧ built.hasCode 6 = false ∧
      built.getCodeString 5 = built.getCodeString 6 := by
  have top : lonely.freqTable.getTopFrequencies Choices.stable.descending = [(5, 3)] := rfl
  refine ⟨(lonely.clearCodes.record 5 []).makeCanonicalCodes, ?_, rfl, rfl,
    rfl, rfl⟩
  simp only [generateCodebook, generateShannonFanoCodes, top, assignShannonFanoCodes, shannonFanoEncode,
    List.isEmpty_cons, Bool.false_eq_true, if_false]
  rfl

end HuffmanCodebook

end GpgpuSim.Huffman
