import GpgpuSim.Coding.MergeDepths
import GpgpuSim.Huffman.CodedSymbols
import GpgpuSim.Huffman.Optimality
import Mathlib.Tactic.NormNum.NatFib

/-! How long Huffman codes can get. A leaf at depth `d` needs a total count of the Fibonacci number
`d + 2`, so that the codes of a table that is not too large fit a 64-bit word together with the
arithmetic of the canonical numbering. -/
namespace GpgpuSim.Huffman
open Containers Coding Transition

namespace HuffmanNode

/-- The weight of the heavier child. -/
def heaviest : HuffmanNode → Nat
  | leaf _ _ => 0
  | node _ left right => max left.weight right.weight
  | single _ left => left.weight

def mergeNode (tree : HuffmanNode) : MergeNode := ⟨tree.weight, tree.heaviest, tree.depths.map Prod.snd⟩

theorem mergeNode_join (left right : HuffmanNode) :
    (left.join right).mergeNode = left.mergeNode.join right.mergeNode := by
  simp [mergeNode, join, MergeNode.join, heaviest, map_snd_depths_node]

end HuffmanNode

open HuffmanNode (lighter sound_merged)

namespace HuffmanCodebook

/-- As long as no sum wraps, the queue loop joins lightest nodes first. -/
theorem HeapMerges.mergesTo {nodes : List HuffmanNode} {root : HuffmanNode} (merged : HeapMerges nodes root)
    (sound : ∀ node ∈ nodes, node.Sound) (fits : (nodes.map HuffmanNode.weight).sum < 2 ^ 64) :
    MergesTo (nodes.map HuffmanNode.mergeNode) root.mergeNode := by
  induction merged with
  | root node => exact .root _
  | @join nodes rest left right root perm leastLeft leastRight _ ih =>
      obtain ⟨-, -, soundAll, fits'⟩ := sound_merged perm sound fits
      have merges := ih soundAll fits'
      rw [List.map_cons, HuffmanNode.mergeNode_join] at merges
      have weights : ∀ node ∈ left :: right :: rest, node.mergeNode.weight = node.frequency :=
        fun node inside => (sound node (perm.mem_iff.mp inside)).symm
      refine .join (by simpa using perm.map HuffmanNode.mergeNode) ?_ ?_ merges
      · rw [← List.map_cons (f := HuffmanNode.mergeNode), List.forall_mem_map]
        intro node inside
        rw [weights left (by simp), weights node (by simp [List.mem_cons.mp inside])]
        exact leastLeft node inside
      · rw [List.forall_mem_map]
        intro node inside
        rw [weights right (by simp), weights node (by simp [inside])]
        exact leastRight node inside

theorem grown_leaves {freqPairs : List (Nat × Nat)} (positive : ∀ p ∈ freqPairs, 1 ≤ p.2) :
    Grown ((freqPairs.map fun pair => HuffmanNode.leaf pair.1 pair.2).map HuffmanNode.mergeNode) := by
  rw [List.map_map]
  constructor
  · rw [List.forall_mem_map]
    intro pair inside
    simpa [HuffmanNode.mergeNode] using positive pair inside
  · rw [List.forall_mem_map]
    intro pair inside depth here
    have root : depth = 0 := by simpa [HuffmanNode.mergeNode, HuffmanNode.depths] using here
    subst root
    simpa [HuffmanNode.mergeNode, HuffmanNode.heaviest] using Branch.leaf (positive pair inside)
  · refine List.pairwise_map.mpr (List.pairwise_of_forall fun a b => ?_)
    simp [Level, HuffmanNode.mergeNode, HuffmanNode.heaviest]

variable {queue : PriorityQueue lighter} {freqPairs : List (Nat × Nat)} {root : HuffmanNode}

theorem buildTree_fib_le (two : 2 ≤ freqPairs.length) (positive : ∀ p ∈ freqPairs, 1 ≤ p.2)
    (fits : (freqPairs.map Prod.snd).sum < 2 ^ 64) (tree : buildTree queue freqPairs = some root) :
    ∀ leaf ∈ root.depths, Nat.fib (leaf.2 + 2) ≤ (freqPairs.map Prod.snd).sum := by
  rw [buildTree_of_two queue two] at tree
  have merges := (heapMerges_of_mergeNodes queue tree).mergesTo
    (by
      rw [List.forall_mem_map]
      intro pair _
      simp [HuffmanNode.Sound, HuffmanNode.frequency])
    (by simpa [List.map_map, Function.comp_def] using fits)
  obtain ⟨total, bounds⟩ := merges.fib_le (grown_leaves positive)
  have same : root.mergeNode.weight = (freqPairs.map Prod.snd).sum := by
    rw [total]
    simp [List.map_map, Function.comp_def, HuffmanNode.mergeNode]
  intro leaf inside
  rw [← same]
  exact bounds leaf.2 (List.mem_map_of_mem inside)

theorem buildTree_one (pair : Nat × Nat) (tree : buildTree queue [pair] = some root) :
    root.depths = [(pair, 1)] := by
  cases tree
  rfl

/-- The Fibonacci number 67 is larger than `2 ^ 45`. -/
theorem depth_le_of_fib {depth total : Nat} (bound : Nat.fib (depth + 2) ≤ total) (small : total < 2 ^ 45) :
    depth ≤ 64 := by
  by_contra deep
  have large : Nat.fib 67 = 44945570212853 := by norm_num
  have grows : Nat.fib 67 ≤ Nat.fib (depth + 2) := Nat.fib_mono (by omega)
  omega

theorem buildTree_depth_le (positive : ∀ p ∈ freqPairs, 1 ≤ p.2)
    (small : (freqPairs.map Prod.snd).sum < 2 ^ 45) (tree : buildTree queue freqPairs = some root) :
    ∀ leaf ∈ root.depths, leaf.2 ≤ 64 := by
  intro leaf inside
  by_cases two : 2 ≤ freqPairs.length
  · exact depth_le_of_fib (buildTree_fib_le two positive (by omega) tree leaf inside) small
  · match freqPairs, tree with
    | [], tree => contradiction
    | [pair], tree =>
        rw [buildTree_one pair tree] at inside
        obtain rfl := List.mem_singleton.mp inside
        exact (by decide : 1 ≤ 64)
    | first :: second :: rest, _ => simp at two

/-- What the loop of `make_canonical_codes` computes needs no more than 64 bits: its values are those of
the unbounded numbering, each fits the length of its code, and the way from one code to a later one
neither overflows nor shifts by 64. -/
structure FitsWords (assigned : List (Nat × Nat)) : Prop where
  numbered : let sorted := canonicalOrder.sort assigned
    (canonicalSteps assigned).map Prod.snd =
      numbering 0 ((sorted.head?.map Prod.snd).getD 0) (sorted.map Prod.snd)
  codes : ∀ step ∈ canonicalSteps assigned, 1 ≤ step.2.1 ∧ step.2.1 ≤ 64 ∧ step.2.2 < 2 ^ step.2.1
  masks : ∀ step ∈ canonicalSteps assigned, ∀ i < step.2.1, step.2.1 - 1 - i < 64
  shifts : (canonicalSteps assigned).Pairwise fun p q =>
    q.2.1 - p.2.1 < 64 ∧ (p.2.2 + 1) * 2 ^ (q.2.1 - p.2.1) < 2 ^ 64

variable {assigned : List (Nat × Nat)}

theorem fitsWords_of_kraft (long : ∀ p ∈ assigned, 1 ≤ p.2) (short : ∀ p ∈ assigned, p.2 ≤ 64)
    (kraft : kraftSum (assigned.map Prod.snd) ≤ 1) : FitsWords assigned := by
  have numbered := canonicalSteps_eq_numbering short kraft
  have lengthOf : ∀ step ∈ canonicalSteps assigned, 1 ≤ step.2.1 ∧ step.2.1 ≤ 64 := by
    intro step member
    have listed := (canonicalSteps_lengths assigned).mem_iff.mp
      (List.mem_map_of_mem (f := fun step => (step.1, step.2.1)) member)
    exact ⟨long _ listed, short _ listed⟩
  have bounded := canonicalSteps_bound short kraft
  refine ⟨numbered,
    fun step member => ⟨(lengthOf step member).1, (lengthOf step member).2, bounded step member⟩, ?_, ?_⟩
  · intro step member i _
    have := lengthOf step member
    omega
  · have separated := (canonicalSteps_fits kraft).numbering_separated
    rw [← numbered] at separated
    refine (List.pairwise_map.mp separated).imp_of_mem ?_
    intro p q inside inside' apart
    have lengthP := lengthOf p inside
    have lengthQ := lengthOf q inside'
    refine ⟨by omega, ?_⟩
    calc (p.2.2 + 1) * 2 ^ (q.2.1 - p.2.1) ≤ q.2.2 := apart.2
      _ < 2 ^ q.2.1 := bounded q inside'
      _ ≤ 2 ^ 64 := Nat.pow_le_pow_right (by decide) lengthQ.2

/-- No code is longer than the longest assigned length. -/
theorem getCodeLength_le {codebook : HuffmanCodebook} {bound : Nat} (codes : codebook.codes = canonicalCodes assigned)
    (distinct : (assigned.map Prod.fst).Nodup) (short : ∀ p ∈ assigned, p.2 ≤ bound) (symbol : Nat) :
    codebook.getCodeLength symbol ≤ bound := by
  rw [getCodeLength]
  cases found : codebook.codes.lookup symbol with
  | none => exact Nat.zero_le bound
  | some entry =>
      have stored : (symbol, entry) ∈ (canonicalCodes assigned).pairs := AList.mem_pairs.mpr (codes ▸ found)
      have listed := (canonicalCodes_lengths distinct).mem_iff.mp
        (List.mem_map_of_mem (f := fun entry => (entry.1, entry.2.length)) stored)
      exact short (symbol, entry.length) listed

variable {codebook : HuffmanCodebook} (choices : Choices)

/-- The lengths that the tree assigns to the symbols of a table that is not too large. -/
theorem huffman_lengths_le (positive : ∀ p ∈ codebook.topFrequencies choices, 1 ≤ p.2)
    (small : (codebook.freqTable.pairs.map Prod.snd).sum < 2 ^ 45) (nonempty : codebook.topFrequencies choices ≠ []) :
    ∀ p ∈ (codebook.assignHuffmanCodes choices (codebook.topFrequencies choices)).codeLengths, 1 ≤ p.2 ∧ p.2 ≤ 64 := by
  obtain ⟨-, -, -, root, tree, leaves, lengths⟩ := huffman_assigns choices nonempty
  have sorted := choices.ascending.perm (codebook.topFrequencies choices)
  have total : ((codebook.topFrequencies choices).map Prod.snd).sum ≤ _ := topFrequencies_sum_le choices
  rw [← (sorted.map Prod.snd).sum_eq] at total
  have short := buildTree_depth_le
    (fun p member => positive p (sorted.mem_iff.mp member)) (by omega) tree
  intro p member
  obtain ⟨leaf, inside, rfl⟩ := List.mem_map.mp (lengths.mem_iff.mp member)
  exact ⟨buildTree_deep choices.queue tree leaf inside, short leaf inside⟩

/-- A tree over at least two positive counts, whose total fits a word, has a leaf at depth `d` only if the
total is at least `Nat.fib (d + 2)`; a single count gets depth one. So a table with a total below `2 ^ 45`
leads to codes of at most 64 bits, and the arithmetic that numbers them stays within 64 bits up to the last
code. The top counts of a table are always positive. -/
theorem huffman_depths_fibonacci (choices : Choices) :
    (∀ freqPairs root, 2 ≤ freqPairs.length → (∀ p ∈ freqPairs, 1 ≤ p.2) → (freqPairs.map Prod.snd).sum < 2 ^ 64 →
      buildTree choices.queue freqPairs = some root →
      ∀ leaf ∈ root.depths, Nat.fib (leaf.2 + 2) ≤ (freqPairs.map Prod.snd).sum) ∧
    (∀ pair root, buildTree choices.queue [pair] = some root → root.depths = [(pair, 1)]) ∧
    (∀ codebook : HuffmanCodebook, (∀ p ∈ codebook.topFrequencies choices, 1 ≤ p.2) →
      (codebook.freqTable.pairs.map Prod.snd).sum < 2 ^ 45 →
      (∀ symbol, (codebook.generateHuffmanCodes choices).1.getCodeLength symbol ≤ 64) ∧
      (codebook.topFrequencies choices ≠ [] →
        let assigned := (codebook.assignHuffmanCodes choices (codebook.topFrequencies choices)).codeLengths
        (codebook.generateHuffmanCodes choices).1.codes = canonicalCodes assigned ∧ FitsWords assigned)) ∧
    ∀ checking final symbolLength start history, ∀ codebook : HuffmanCodebook,
      FrequencyValueTable.create checking final symbolLength = .ok start →
      Reaches TableStep start history codebook.freqTable → ∀ p ∈ codebook.topFrequencies choices, 1 ≤ p.2 := by
  refine ⟨fun freqPairs root two positive fits tree => buildTree_fib_le two positive fits tree,
    fun pair root tree => buildTree_one pair tree, fun codebook positive small => ?_, ?_⟩
  · by_cases nonempty : codebook.topFrequencies choices = []
    · refine ⟨fun symbol => ?_, fun some => absurd nonempty some⟩
      have cleared : codebook.freqTable.getTopFrequencies choices.descending = [] := nonempty
      simp only [generateHuffmanCodes, cleared, List.isEmpty_nil, if_true, clearCodes, getCodeLength,
        AList.lookup_empty, Nat.zero_le]
    · obtain ⟨generated, renumbers, assignment, -⟩ := huffman_assigns choices nonempty
      have lengths := huffman_lengths_le choices positive small nonempty
      rw [generated]
      refine ⟨fun symbol => ?_, fun _ => ⟨renumbers.codes, ?_⟩⟩
      · exact getCodeLength_le renumbers.codes (assignment.symbols.nodup_iff.mpr (topFrequencies_nodup choices))
          (fun p member => (lengths p member).2) symbol
      · exact fitsWords_of_kraft (fun p member => (lengths p member).1) (fun p member => (lengths p member).2)
          assignment.kraft
  · intro checking final symbolLength start history codebook created run
    exact (FrequencyValueTable.run_zerosCovered created run).top_positive choices.descending

theorem huffman_depths_fibonacci_sample :
    (∀ symbol, (sample.generateHuffmanCodes .stable).1.getCodeLength symbol ≤ 64) ∧
      FitsWords (sample.assignHuffmanCodes .stable (sample.topFrequencies .stable)).codeLengths := by
  obtain ⟨short, numbered⟩ := (huffman_depths_fibonacci .stable).2.2.1 sample (by decide) (by decide)
  exact ⟨short, (numbered (by decide)).2⟩

/-- Counts that grow like the Fibonacci numbers give a table of this total the longest codes. -/
def fibonacciTable : HuffmanCodebook where
  codes := ∅
  maxCodeLength := 0
  mag := 32
  freqTable := ⟨AList.insertAll ∅ ((0, 1) :: (1, 1) :: (List.range 63).map fun i => (i + 2, Nat.fib (i + 2))),
    307, 256, 16, sixteen_bits⟩

/-- A single count is put one level below its root; sums that wrap make the tree a chain; and the
increment after the last code of 64 bits wraps to zero. -/
theorem huffman_depths_not_fibonacci :
    (∃ root, buildTree Choices.stable.queue [(0, 1)] = some root ∧ ∃ leaf ∈ root.depths, ¬ Nat.fib (leaf.2 + 2) ≤ 1) ∧
    (let counts := (List.range 102).map fun i => (i, 2 ^ 63)
      ∃ root, buildTree Choices.stable.queue counts = some root ∧
        ∃ leaf ∈ root.depths, ¬ Nat.fib (leaf.2 + 2) ≤ (counts.map Prod.snd).sum) ∧
    (fibonacciTable.freqTable.pairs.map Prod.snd).sum < 2 ^ 45 ∧
    ∃ step ∈ canonicalSteps
        (fibonacciTable.assignHuffmanCodes .stable (fibonacciTable.topFrequencies .stable)).codeLengths,
      step.2.2 < 2 ^ 64 ∧ (step.2.2 + 1) % 2 ^ 64 = 0 := by
  refine ⟨⟨.single 1 (.leaf 0 1), rfl, ((0, 1), 1), by simp [HuffmanNode.depths], by decide⟩, ?_, ?_, ?_⟩
  · intro counts
    have deep : (buildTree Choices.stable.queue counts).any (fun root => root.depths.any fun leaf =>
        decide (¬ Nat.fib (leaf.2 + 2) ≤ (counts.map Prod.snd).sum)) = true := by
      decide +kernel
    obtain ⟨root, tree, found⟩ := (Option.any_eq_true _ _).mp deep
    obtain ⟨leaf, inside, above⟩ := List.any_eq_true.mp found
    exact ⟨root, tree, leaf, inside, of_decide_eq_true above⟩
  · decide
  · decide

end HuffmanCodebook

end GpgpuSim.Huffman
