import GpgpuSim.Huffman.PrefixCodes
import GpgpuSim.Coding.Merging

/-! The heap tree is optimal for every order of ties, as long as the node
frequencies, which are 64-bit sums, do not wrap. -/
namespace GpgpuSim.Huffman
open Containers Coding Transition

namespace HuffmanNode

/-- The sum of the leaf frequencies. -/
def weight (tree : HuffmanNode) : Nat := (tree.leaves.map Prod.snd).sum

/-- Frequency times depth, summed over the leaves. -/
def cost (tree : HuffmanNode) : Nat := weightedLength (tree.depths.map fun leaf => (leaf.1.2, leaf.2))

@[simp] theorem weight_leaf (symbol frequency : Nat) : (leaf symbol frequency).weight = frequency := by
  simp [weight]

@[simp] theorem weight_node (frequency : Nat) (left right : HuffmanNode) :
    (node frequency left right).weight = left.weight + right.weight := by
  simp [weight]

@[simp] theorem cost_leaf (symbol frequency : Nat) : (leaf symbol frequency).cost = 0 := by
  simp [cost, depths]

/-- One more level costs every leaf its frequency. -/
theorem weightedLength_deeper (leaves : List ((Nat × Nat) × Nat)) :
    weightedLength (leaves.map fun leaf => (leaf.1.2, leaf.2 + 1)) =
      weightedLength (leaves.map fun leaf => (leaf.1.2, leaf.2)) +
        ((leaves.map Prod.fst).map Prod.snd).sum := by
  induction leaves with
  | nil => rfl
  | cons leaf leaves ih =>
      simp only [List.map_cons, weightedLength_cons, List.sum_cons, ih]
      ring

theorem cost_node (frequency : Nat) (left right : HuffmanNode) :
    (node frequency left right).cost = left.cost + right.cost + (left.weight + right.weight) := by
  have deeper := weightedLength_deeper (left.depths ++ right.depths)
  simp only [cost, depths, weight, leaves, List.map_map, Function.comp_def] at deeper ⊢
  rw [deeper]
  simp [weightedLength]

/-- The stored frequency is the true sum of the leaves. -/
def Sound (tree : HuffmanNode) : Prop := tree.frequency = tree.weight

theorem sound_join {left right : HuffmanNode} (hl : left.Sound) (hr : right.Sound)
    (fits : left.weight + right.weight < 2 ^ 64) :
    (left.join right).Sound ∧ (left.join right).frequency = left.frequency + right.frequency := by
  have sum : left.frequency + right.frequency = left.weight + right.weight := by rw [hl, hr]
  have wrapped : (left.frequency + right.frequency) % 2 ^ 64 = left.frequency + right.frequency :=
    Nat.mod_eq_of_lt (sum ▸ fits)
  refine ⟨?_, wrapped⟩
  calc (left.join right).frequency = left.frequency + right.frequency := wrapped
    _ = (left.join right).weight := by rw [sum, join, weight_node]

/-- A round of the queue loop keeps the stored frequencies true. -/
theorem sound_merged {nodes rest : List HuffmanNode} {left right : HuffmanNode}
    (perm : (left :: right :: rest).Perm nodes) (sound : ∀ node ∈ nodes, node.Sound)
    (fits : (nodes.map weight).sum < 2 ^ 64) :
    (left.join right).Sound ∧ (left.join right).frequency = left.frequency + right.frequency ∧
      (∀ node ∈ left.join right :: rest, node.Sound) ∧ ((left.join right :: rest).map weight).sum < 2 ^ 64 := by
  have member : ∀ node ∈ left :: right :: rest, node.Sound := fun node inside =>
    sound node (perm.mem_iff.mp inside)
  have weights := (perm.map weight).sum_eq
  simp only [List.map_cons, List.sum_cons] at weights
  obtain ⟨soundParent, frequencies⟩ := sound_join (member left (by simp)) (member right (by simp)) (by omega)
  refine ⟨soundParent, frequencies, ?_, ?_⟩
  · intro node inside
    rcases List.mem_cons.mp inside with rfl | inside
    · exact soundParent
    · exact member node (by simp [inside])
  · simp only [List.map_cons, List.sum_cons, join, weight_node]
    omega

end HuffmanNode

open HuffmanNode (lighter Sound sound_merged)

namespace HuffmanCodebook

/-- The queue loop merges lightest first, and the cost of the root is the cost of
the merges. -/
theorem HeapMerges.merges {nodes : List HuffmanNode} {root : HuffmanNode} (merged : HeapMerges nodes root)
    (sound : ∀ node ∈ nodes, node.Sound) (fits : (nodes.map HuffmanNode.weight).sum < 2 ^ 64) :
    ∃ spent, Merges (nodes.map HuffmanNode.frequency) spent ∧
      root.cost = (nodes.map HuffmanNode.cost).sum + spent := by
  induction merged with
  | root node => exact ⟨0, .single _, by simp⟩
  | @join nodes rest left right root perm leastLeft leastRight _ ih =>
      have costs := (perm.map HuffmanNode.cost).sum_eq
      simp only [List.map_cons, List.sum_cons] at costs
      obtain ⟨soundParent, frequencies, soundAll, fits'⟩ := sound_merged perm sound fits
      obtain ⟨spent, merges, total⟩ := ih soundAll fits'
      simp only [List.map_cons, frequencies] at merges
      refine ⟨left.frequency + right.frequency + spent,
        .merge (by simpa using perm.map HuffmanNode.frequency) ?_ ?_ merges, ?_⟩
      · simpa using leastLeft
      · simpa using leastRight
      · rw [total, ← costs, sound left (perm.mem_iff.mp (by simp)), sound right (perm.mem_iff.mp (by simp))]
        simp only [List.map_cons, List.sum_cons, HuffmanNode.join, HuffmanNode.cost_node]
        omega

/-- The number of bits a block with these symbol frequencies takes. -/
def encodedLength (symbols : List (Nat × Nat)) (len : Nat → Nat) : Nat :=
  (symbols.map fun pair => pair.2 * len pair.1).sum

theorem encodedLength_eq (symbols : List (Nat × Nat)) (len : Nat → Nat) :
    encodedLength symbols len = weightedLength (symbols.map fun pair => (pair.2, len pair.1)) := by
  simp [encodedLength, weightedLength, Function.comp_def]

variable {codebook : HuffmanCodebook} (choices : Choices)

/-- Renumbering keeps the assigned lengths, whatever they are. -/
theorem Renumbers.getCodeLength_eq {symbols : List Nat} {assigned : List (Nat × Nat)}
    (renumbers : Renumbers codebook assigned) (assignment : IsAssignment symbols assigned)
    (distinct : symbols.Nodup) : ∀ p ∈ assigned, codebook.getCodeLength p.1 = p.2 := by
  have lengths := canonicalCodes_lengths (assignment.symbols.nodup_iff.mpr distinct)
  rw [← renumbers.codes] at lengths
  intro p member
  obtain ⟨entry, stored, rfl⟩ := List.mem_map.mp (lengths.mem_iff.mpr member)
  simp only [getCodeLength, AList.mem_pairs.mp stored]

/-- The lengths a builder leaves behind satisfy Kraft's inequality on its symbols. -/
theorem Renumbers.kraftSum_le {symbols : List Nat} {assigned : List (Nat × Nat)}
    (renumbers : Renumbers codebook assigned) (assignment : IsAssignment symbols assigned)
    (distinct : symbols.Nodup) : kraftSum (symbols.map codebook.getCodeLength) ≤ 1 := by
  have lengths : assigned.map Prod.snd = (assigned.map Prod.fst).map codebook.getCodeLength := by
    rw [List.map_map]
    exact List.map_congr_left fun p member =>
      (renumbers.getCodeLength_eq assignment distinct p member).symm
  rw [← kraftSum_perm (assignment.symbols.map codebook.getCodeLength), ← lengths]
  exact assignment.kraft

theorem buildTree_of_two (queue : PriorityQueue lighter) {freqPairs : List (Nat × Nat)} (two : 2 ≤ freqPairs.length) :
    buildTree queue freqPairs =
      let nodes := freqPairs.map fun pair => HuffmanNode.leaf pair.1 pair.2
      mergeNodes queue nodes.length nodes := by
  match freqPairs, two with
  | _ :: _ :: _, _ => rfl

/-- A tree built from at least two pairs costs what its merges cost. -/
theorem buildTree_merges (queue : PriorityQueue lighter) {freqPairs : List (Nat × Nat)}
    (two : 2 ≤ freqPairs.length) (fits : (freqPairs.map Prod.snd).sum < 2 ^ 64) {root : HuffmanNode}
    (tree : buildTree queue freqPairs = some root) : Merges (freqPairs.map Prod.snd) root.cost := by
  rw [buildTree_of_two queue two] at tree
  set nodes := freqPairs.map fun pair => HuffmanNode.leaf pair.1 pair.2 with nodes_def
  have sound : ∀ node ∈ nodes, node.Sound := by
    intro node member
    obtain ⟨pair, -, rfl⟩ := List.mem_map.mp member
    simp [Sound, HuffmanNode.frequency]
  have frequencies : nodes.map HuffmanNode.frequency = freqPairs.map Prod.snd := by
    simp [nodes_def, HuffmanNode.frequency, Function.comp_def]
  have weights : nodes.map HuffmanNode.weight = freqPairs.map Prod.snd := by
    simp [nodes_def, Function.comp_def]
  have costs : (nodes.map HuffmanNode.cost).sum = 0 := by
    simp [nodes_def, Function.comp_def]
  obtain ⟨spent, merges, total⟩ := (heapMerges_of_mergeNodes queue tree).merges sound (weights ▸ fits)
  rw [costs, Nat.zero_add] at total
  rwa [total, ← frequencies]

/-- The Huffman lengths cost no more than any lengths within the code space. -/
theorem huffman_encodedLength_le (two : 2 ≤ (codebook.topFrequencies choices).length)
    (fits : ((codebook.topFrequencies choices).map Prod.snd).sum < 2 ^ 64) (len : Nat → Nat)
    (kraft : kraftSum ((codebook.topFrequencies choices).map fun pair => len pair.1) ≤ 1) :
    encodedLength (codebook.topFrequencies choices)
        (codebook.generateHuffmanCodes choices).1.getCodeLength ≤
      encodedLength (codebook.topFrequencies choices) len := by
  have nonempty : codebook.topFrequencies choices ≠ [] := by
    intro none
    simp [none] at two
  obtain ⟨generated, renumbers, assignment, root, tree, leaves, lengths⟩ :=
    huffman_assigns choices nonempty
  rw [generated]
  set symbols := codebook.topFrequencies choices
  have sorted : (choices.ascending.sort symbols).Perm symbols := choices.ascending.perm symbols
  have merges := buildTree_merges choices.queue (by simpa using two)
    ((sorted.map Prod.snd).sum_eq ▸ fits) tree
  -- the lengths in the codebook are the depths of the leaves
  have spent : encodedLength symbols
      (codebook.assignHuffmanCodes choices symbols).makeCanonicalCodes.getCodeLength = root.cost := by
    rw [encodedLength_eq, ← weightedLength_perm (leaves.map _), HuffmanNode.leaves, List.map_map,
      HuffmanNode.cost]
    congr 1
    refine List.map_congr_left fun leaf member => ?_
    have assigned := renumbers.getCodeLength_eq assignment (topFrequencies_nodup choices)
      (leaf.1.1, leaf.2) (lengths.mem_iff.mpr (List.mem_map_of_mem member))
    simp [assigned]
  -- any other lengths, listed in the order of the sorted weights
  have best := merges.optimal
    (l := (choices.ascending.sort symbols).map fun pair => (pair.2, len pair.1))
    (by simp [Function.comp_def]) (by
      rw [List.map_map, kraftSum_perm (sorted.map _)]
      exact kraft)
  rw [weightedLength_perm (sorted.map _), ← encodedLength_eq] at best
  exact spent ▸ best

/-- For every order of ties the Huffman codes are no longer in total than any prefix code, as long as the total of
the top frequencies fits a word: hence no longer than the Shannon-Fano codes, than Shannon codes whose rounded lengths
still fit the code space, and than Shannon codes of exact lengths, which do. -/
theorem huffman_codes_optimal (two : 2 ≤ (codebook.topFrequencies choices).length)
    (positive : ∀ p ∈ codebook.topFrequencies choices, 1 ≤ p.2)
    (fits : ((codebook.topFrequencies choices).map Prod.snd).sum < 2 ^ 64) :
    let symbols := codebook.topFrequencies choices
    let huffman := encodedLength symbols (codebook.generateHuffmanCodes choices).1.getCodeLength
    (∀ code : Nat → List Bool,
      (∀ s ∈ symbols, ∀ t ∈ symbols, s.1 ≠ t.1 → ¬ code s.1 <+: code t.1) →
      huffman ≤ encodedLength symbols fun symbol => (code symbol).length) ∧
    huffman ≤ encodedLength symbols (codebook.generateShannonFanoCodes choices).1.getCodeLength ∧
    (∀ fp shannon count, codebook.generateShannonCodes choices fp = .ok (shannon, count) →
      kraftSum (symbols.map fun pair => shannon.getCodeLength pair.1) ≤ 1 →
      huffman ≤ encodedLength symbols shannon.getCodeLength) ∧
    ∃ shannon count, codebook.generateShannonCodes choices .exact = .ok (shannon, count) ∧
      huffman ≤ encodedLength symbols shannon.getCodeLength := by
  have nonempty : codebook.topFrequencies choices ≠ [] := by
    intro none
    simp [none] at two
  have distinct : ((codebook.topFrequencies choices).map Prod.fst).Nodup := topFrequencies_nodup choices
  refine ⟨?_, ?_, fun fp shannon count _ kraft => huffman_encodedLength_le choices two fits _ kraft, ?_⟩
  · intro code free
    refine huffman_encodedLength_le choices two fits _ ?_
    have words : PrefixFree (((codebook.topFrequencies choices).map Prod.fst).map code) := by
      refine PrefixFree.of_injOn distinct ?_
      intro s hs t ht different
      obtain ⟨p, memberP, rfl⟩ := List.mem_map.mp hs
      obtain ⟨q, memberQ, rfl⟩ := List.mem_map.mp ht
      exact free p memberP q memberQ different
    simpa [List.map_map, Function.comp_def] using words.kraftSum_le_one
  · obtain ⟨generated, renumbers, assignment⟩ := shannonFano_assigns choices nonempty
    refine huffman_encodedLength_le choices two fits _ ?_
    rw [generated]
    simpa [List.map_map, Function.comp_def] using renumbers.kraftSum_le assignment distinct
  · obtain ⟨shannon, assigned, generated, -, renumbers, assignment⟩ :=
      shannon_assigns choices nonempty positive fits
    refine ⟨shannon, _, generated, huffman_encodedLength_le choices two fits _ ?_⟩
    simpa [List.map_map, Function.comp_def] using renumbers.kraftSum_le assignment distinct

theorem huffman_codes_optimal_sample :
    let symbols := sample.topFrequencies .stable
    let huffman := encodedLength symbols (sample.generateHuffmanCodes .stable).1.getCodeLength
    (∀ code : Nat → List Bool,
      (∀ s ∈ symbols, ∀ t ∈ symbols, s.1 ≠ t.1 → ¬ code s.1 <+: code t.1) →
      huffman ≤ encodedLength symbols fun symbol => (code symbol).length) ∧
    huffman ≤ encodedLength symbols (sample.generateShannonFanoCodes .stable).1.getCodeLength ∧
    (∀ fp shannon count, sample.generateShannonCodes .stable fp = .ok (shannon, count) →
      kraftSum (symbols.map fun pair => shannon.getCodeLength pair.1) ≤ 1 →
      huffman ≤ encodedLength symbols shannon.getCodeLength) ∧
    ∃ shannon count, sample.generateShannonCodes .stable .exact = .ok (shannon, count) ∧
      huffman ≤ encodedLength symbols shannon.getCodeLength :=
  huffman_codes_optimal .stable (show 2 ≤ (sample.topFrequencies .stable).length by decide)
    (by decide) (by decide)

/-- Four symbols of the same count, the sum of two of which is zero modulo `2 ^ 64`. -/
def overflowing : HuffmanCodebook where
  codes := ∅
  maxCodeLength := 0
  mag := 32
  freqTable := ⟨AList.insertAll ∅ [(0, 2 ^ 63), (1, 2 ^ 63), (2, 2 ^ 63), (3, 2 ^ 63)], 307, 256, 16, sixteen_bits⟩

/-- Once node frequencies wrap, the tree is worse than a code of two bits per symbol. -/
theorem overflow_costs :
    ∃ code : Nat → List Bool,
      (∀ s ∈ overflowing.topFrequencies .stable, ∀ t ∈ overflowing.topFrequencies .stable,
        s.1 ≠ t.1 → ¬ code s.1 <+: code t.1) ∧
      encodedLength (overflowing.topFrequencies .stable) (fun symbol => (code symbol).length) <
        encodedLength (overflowing.topFrequencies .stable)
          (overflowing.generateHuffmanCodes .stable).1.getCodeLength := by
  refine ⟨fun symbol => [symbol.testBit 1, symbol.testBit 0], ?_, ?_⟩
  · decide
  · decide

/-- Two symbols that as doubles have half of the total each, and a third one. -/
def crowdedOut : HuffmanCodebook where
  codes := ∅
  maxCodeLength := 0
  mag := 32
  freqTable := ⟨AList.insertAll ∅ [(0, 2 ^ 60), (1, 2 ^ 60), (2, 1)], 307, 256, 16, sixteen_bits⟩

/-- Its Shannon lengths are 1, 1 and 61, which no prefix code has. -/
theorem rounding_saves :
    ∃ shannon count, crowdedOut.generateShannonCodes .stable .double = .ok (shannon, count) ∧
      encodedLength (crowdedOut.topFrequencies .stable) shannon.getCodeLength <
        encodedLength (crowdedOut.topFrequencies .stable)
          (crowdedOut.generateHuffmanCodes .stable).1.getCodeLength := by
  have passed : succeedsWith (crowdedOut.generateShannonCodes .stable .double)
      (fun result => decide (encodedLength (crowdedOut.topFrequencies .stable) result.1.getCodeLength <
        encodedLength (crowdedOut.topFrequencies .stable)
          (crowdedOut.generateHuffmanCodes .stable).1.getCodeLength)) = true := by decide +kernel
  obtain ⟨⟨shannon, count⟩, done, less⟩ := exists_of_succeedsWith passed
  exact ⟨shannon, count, done, of_decide_eq_true less⟩

/-- Where node frequencies wrap a prefix code is better, and where probabilities are rounded up the Shannon codes, which
are none, are shorter. -/
theorem huffman_not_optimal :
    (2 ≤ (overflowing.topFrequencies .stable).length ∧
      (∀ p ∈ overflowing.freqTable.pairs, 1 ≤ p.2 ∧ p.2 < 2 ^ 64) ∧
      ∃ code : Nat → List Bool,
        (∀ s ∈ overflowing.topFrequencies .stable, ∀ t ∈ overflowing.topFrequencies .stable,
          s.1 ≠ t.1 → ¬ code s.1 <+: code t.1) ∧
        encodedLength (overflowing.topFrequencies .stable) (fun symbol => (code symbol).length) <
          encodedLength (overflowing.topFrequencies .stable)
            (overflowing.generateHuffmanCodes .stable).1.getCodeLength) ∧
    2 ≤ (crowdedOut.topFrequencies .stable).length ∧
      (∀ p ∈ crowdedOut.freqTable.pairs, 1 ≤ p.2) ∧
      ((crowdedOut.topFrequencies .stable).map Prod.snd).sum < 2 ^ 64 ∧
      ∃ shannon count, crowdedOut.generateShannonCodes .stable .double = .ok (shannon, count) ∧
        encodedLength (crowdedOut.topFrequencies .stable) shannon.getCodeLength <
          encodedLength (crowdedOut.topFrequencies .stable)
            (crowdedOut.generateHuffmanCodes .stable).1.getCodeLength :=
  ⟨⟨by decide, by decide, overflow_costs⟩, by decide, by decide, by decide,
    rounding_saves⟩

end HuffmanCodebook

end GpgpuSim.Huffman
