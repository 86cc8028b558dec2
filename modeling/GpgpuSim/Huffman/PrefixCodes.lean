import GpgpuSim.Huffman.CodeLengths
import GpgpuSim.Huffman.FrequencyTableRuns

/-! Every builder leaves a prefix code over the top symbols. The three assignments
of lengths meet the same specification, and the canonical renumbering turns any
assignment that meets it into a prefix code. -/
namespace GpgpuSim.Huffman
open Containers Coding Transition

namespace HuffmanCodebook

variable (choices : Choices) (fp : FloatArithmetic) (method : CodebookBuildMethod) (codebook : HuffmanCodebook)

/-- The top symbols the builders work on. -/
def topFrequencies : List (Nat × Nat) := codebook.freqTable.getTopFrequencies choices.descending

/-- Symbols with the lengths a builder assigns, before canonical renumbering. -/
def assignedLengths : Except LengthFault (List (Nat × Nat)) :=
  if (codebook.topFrequencies choices).isEmpty then .ok []
  else
    match method with
    | .huffman => .ok (codebook.assignHuffmanCodes choices (codebook.topFrequencies choices)).codeLengths
    | .shannonFano => .ok (codebook.assignShannonFanoCodes (codebook.topFrequencies choices)).codeLengths
    | .shannon => shannonLengths fp (codebook.topFrequencies choices)

/-- `m_codes` holds exactly these symbols, with consistent lengths and a prefix code. -/
structure IsPrefixCode (symbols : List Nat) : Prop where
  coded : ∀ symbol, codebook.hasCode symbol = true ↔ symbol ∈ symbols
  lengths : ∀ entry ∈ codebook.codes.pairs, entry.2.bits.length = entry.2.length
  longest : codebook.maxCodeLength = (codebook.codes.pairs.map fun entry => entry.2.length).foldl max 0
  free : ∀ s t, codebook.hasCode s = true → codebook.hasCode t = true → s ≠ t →
    ¬ codebook.getCodeBits s <+: codebook.getCodeBits t

/-- Renumbering kept every assigned length, never wrapped, and never let the
running code outgrow the current length. -/
structure IsRenumbering (assigned : List (Nat × Nat)) : Prop where
  keeps : ∀ p ∈ assigned, codebook.getCodeLength p.1 = p.2
  unwrapped : let sorted := canonicalOrder.sort assigned
    (canonicalSteps assigned).map Prod.snd =
      numbering 0 ((sorted.head?.map Prod.snd).getD 0) (sorted.map Prod.snd)
  bounded : ∀ step ∈ canonicalSteps assigned, step.2.2 < 2 ^ step.2.1

/-- What the three assignments have in common. -/
structure IsAssignment (symbols : List Nat) (assigned : List (Nat × Nat)) : Prop where
  symbols : (assigned.map Prod.fst).Perm symbols
  kraft : kraftSum (assigned.map Prod.snd) ≤ 1

/-- A codebook whose codes renumber an assignment. -/
structure Renumbers (assigned : List (Nat × Nat)) : Prop where
  codes : codebook.codes = canonicalCodes assigned
  longest : codebook.maxCodeLength = (assigned.map Prod.snd).foldl max 0

variable {codebook}

theorem topFrequencies_nodup : ((codebook.topFrequencies choices).map Prod.fst).Nodup :=
  FrequencyValueTable.nodup_top_symbols _

theorem foldl_max_perm {l l' : List Nat} (perm : l.Perm l') (start : Nat) :
    l.foldl max start = l'.foldl max start :=
  perm.foldl_eq' (fun x _ y _ z => by omega) start

/-- Recording an assignment and renumbering it. -/
theorem renumbers_recordAll {words : List (Nat × List Bool)} (nonempty : words ≠ [])
    (distinct : (words.map Prod.fst).Nodup) :
    let recorded := codebook.clearCodes.recordAll words
    Renumbers recorded.makeCanonicalCodes recorded.codeLengths := by
  have perm := codebook.recordAll_codeLengths distinct
  have filled : (codebook.clearCodes.recordAll words).size ≠ 0 := by
    have := perm.length_eq
    simp only [codeLengths, List.length_map, AList.length_pairs] at this
    rw [size, this, Ne, List.length_eq_zero_iff]
    exact nonempty
  refine ⟨?_, ?_⟩
  · simp [makeCanonicalCodes, filled, codeLengths]
  · have kept : (codebook.clearCodes.recordAll words).makeCanonicalCodes.maxCodeLength =
        (codebook.clearCodes.recordAll words).maxCodeLength := by
      simp [makeCanonicalCodes, filled]
    rw [kept, recordAll_maxCodeLength, foldl_max_perm (perm.map Prod.snd), List.map_map]
    rfl

/-- The tree walk assigns the depths of the leaves. -/
theorem assignHuffmanCodes_eq (codebook : HuffmanCodebook) {symbols : List (Nat × Nat)} (nonempty : symbols ≠ []) :
    ∃ root words, buildTree choices.queue (choices.ascending.sort symbols) = some root ∧
      root.leaves.Perm symbols ∧
      codebook.assignHuffmanCodes choices symbols = codebook.clearCodes.recordAll words ∧
      words.map (fun word => (word.1, word.2.length)) = root.depths.map fun leaf => (leaf.1.1, leaf.2) := by
  have sortedSome : choices.ascending.sort symbols ≠ [] := by simpa using nonempty
  obtain ⟨root, built, leaves⟩ := buildTree_leaves choices.queue sortedSome
  obtain ⟨words, walked, lengths⟩ := generateCodesFromTree_eq root [] codebook.clearCodes
  refine ⟨root, words, built, leaves.trans (choices.ascending.perm symbols), ?_, by simpa using lengths⟩
  simp only [assignHuffmanCodes, built, walked]

theorem isAssignment_of_words {symbols : List Nat} {words : List (Nat × List Bool)}
    (distinct : symbols.Nodup) (same : (words.map Prod.fst).Perm symbols)
    (kraft : kraftSum (words.map fun word => word.2.length) ≤ 1) :
    IsAssignment symbols (codebook.clearCodes.recordAll words).codeLengths := by
  have perm := codebook.recordAll_codeLengths (same.nodup_iff.mpr distinct)
  refine ⟨?_, ?_⟩
  · have symbolsPerm := perm.map Prod.fst
    rw [List.map_map] at symbolsPerm
    exact symbolsPerm.trans same
  · rw [kraftSum_perm (perm.map Prod.snd), List.map_map]
    exact kraft

/-- An empty table clears the codes. -/
theorem generateShannonCodes_empty (none : codebook.topFrequencies choices = []) :
    codebook.generateShannonCodes choices fp = .ok (codebook.clearCodes, 0) := by
  have none' : codebook.freqTable.getTopFrequencies choices.descending = [] := none
  simp only [generateShannonCodes, none', List.isEmpty_nil, if_true]
  rfl

/-- Once the lengths are defined, the Shannon builder renumbers them. -/
theorem generateShannonCodes_ok {lengths : List (Nat × Nat)} (nonempty : codebook.topFrequencies choices ≠ [])
    (done : shannonLengths fp (codebook.topFrequencies choices) = .ok lengths) :
    ∃ built, codebook.generateShannonCodes choices fp = .ok (built, built.size) ∧ Renumbers built lengths := by
  have filled : (codebook.freqTable.getTopFrequencies choices.descending).isEmpty = false := by
    simpa [topFrequencies] using nonempty
  have done' : shannonLengths fp (codebook.freqTable.getTopFrequencies choices.descending) = .ok lengths :=
    done
  refine ⟨{ codebook with
      codes := canonicalCodes lengths
      maxCodeLength := lengths.foldl (fun longest pair => max longest pair.2) 0 }, ?_, rfl, ?_⟩
  · simp only [generateShannonCodes, filled, done', Bool.false_eq_true, if_false]
    rfl
  · rw [List.foldl_map]

/-- The Huffman builder renumbers the depths of a tree whose leaves are the top pairs. -/
theorem huffman_assigns (nonempty : codebook.topFrequencies choices ≠ []) :
    let recorded := codebook.assignHuffmanCodes choices (codebook.topFrequencies choices)
    codebook.generateHuffmanCodes choices = (recorded.makeCanonicalCodes, recorded.makeCanonicalCodes.size) ∧
    Renumbers recorded.makeCanonicalCodes recorded.codeLengths ∧
    IsAssignment ((codebook.topFrequencies choices).map Prod.fst) recorded.codeLengths ∧
    ∃ root, buildTree choices.queue (choices.ascending.sort (codebook.topFrequencies choices)) = some root ∧
      root.leaves.Perm (codebook.topFrequencies choices) ∧
      recorded.codeLengths.Perm (root.depths.map fun leaf => (leaf.1.1, leaf.2)) := by
  obtain ⟨root, words, tree, leaves, walked, lengths⟩ :=
    codebook.assignHuffmanCodes_eq choices nonempty
  have symbols : (words.map Prod.fst).Perm ((codebook.topFrequencies choices).map Prod.fst) := by
    have := congrArg (List.map Prod.fst) lengths
    simp only [List.map_map, Function.comp_def] at this
    rw [this]
    simpa [HuffmanNode.leaves, List.map_map, Function.comp_def] using leaves.map Prod.fst
  have kraft : kraftSum (words.map fun word => word.2.length) ≤ 1 := by
    have := congrArg (List.map Prod.snd) lengths
    simp only [List.map_map, Function.comp_def] at this
    rw [this]
    exact root.kraftSum_depths
  have distinct : ((codebook.topFrequencies choices).map Prod.fst).Nodup := topFrequencies_nodup choices
  have wordsSome : words ≠ [] := by
    rintro rfl
    exact nonempty (by simpa using symbols.symm.eq_nil)
  have filled : (codebook.freqTable.getTopFrequencies choices.descending).isEmpty = false := by
    simpa [topFrequencies] using nonempty
  rw [walked]
  refine ⟨?_, renumbers_recordAll wordsSome (symbols.nodup_iff.mpr distinct),
    isAssignment_of_words distinct symbols kraft, root, tree, leaves, ?_⟩
  · simp only [generateHuffmanCodes, filled, Bool.false_eq_true, if_false]
    rw [show codebook.assignHuffmanCodes choices
      (codebook.freqTable.getTopFrequencies choices.descending) = _ from walked]
  · exact lengths ▸ codebook.recordAll_codeLengths (symbols.nodup_iff.mpr distinct)

/-- The Shannon-Fano builder renumbers the depths of the recursive split. -/
theorem shannonFano_assigns (nonempty : codebook.topFrequencies choices ≠ []) :
    let recorded := codebook.assignShannonFanoCodes (codebook.topFrequencies choices)
    codebook.generateShannonFanoCodes choices =
      (recorded.makeCanonicalCodes, recorded.makeCanonicalCodes.size) ∧
    Renumbers recorded.makeCanonicalCodes recorded.codeLengths ∧
    IsAssignment ((codebook.topFrequencies choices).map Prod.fst) recorded.codeLengths := by
  obtain ⟨words, lengths, split, symbols, sizes, kraft⟩ :=
    shannonFanoEncode_eq (codebook.topFrequencies choices) [] codebook.clearCodes nonempty
  have perm : (words.map Prod.fst).Perm ((codebook.topFrequencies choices).map Prod.fst) :=
    symbols ▸ .refl _
  have distinct : ((codebook.topFrequencies choices).map Prod.fst).Nodup := topFrequencies_nodup choices
  have wordsSome : words ≠ [] := by
    rintro rfl
    exact nonempty (by simpa using symbols.symm)
  have filled : (codebook.freqTable.getTopFrequencies choices.descending).isEmpty = false := by
    simpa [topFrequencies] using nonempty
  have walked : codebook.assignShannonFanoCodes (codebook.topFrequencies choices) = _ := split
  rw [walked]
  refine ⟨?_, renumbers_recordAll wordsSome (perm.nodup_iff.mpr distinct),
    isAssignment_of_words distinct perm (by simpa [sizes] using kraft)⟩
  simp only [generateShannonFanoCodes, filled, Bool.false_eq_true, if_false]
  rw [show codebook.assignShannonFanoCodes
    (codebook.freqTable.getTopFrequencies choices.descending) = _ from walked]

/-- The Shannon builder renumbers the rounded logarithms. -/
theorem shannon_assigns (nonempty : codebook.topFrequencies choices ≠ [])
    (positive : ∀ p ∈ codebook.topFrequencies choices, 1 ≤ p.2)
    (fits : ((codebook.topFrequencies choices).map Prod.snd).sum < 2 ^ 64) :
    ∃ built assigned, codebook.generateShannonCodes choices .exact = .ok (built, built.size) ∧
      shannonLengths .exact (codebook.topFrequencies choices) = .ok assigned ∧ Renumbers built assigned ∧
      IsAssignment ((codebook.topFrequencies choices).map Prod.fst) assigned := by
  obtain ⟨assigned, done, symbols, kraft⟩ := shannonLengths_exact nonempty positive fits
  obtain ⟨built, generated, renumbers⟩ := generateShannonCodes_ok choices .exact nonempty done
  exact ⟨built, assigned, generated, done, renumbers, symbols ▸ .refl _, kraft⟩

/-- Each builder succeeds, assigns lengths within the code space to the top
symbols and renumbers them. -/
theorem generateCodebook_spec (positive : ∀ p ∈ codebook.topFrequencies choices, 1 ≤ p.2)
    (fits : ((codebook.topFrequencies choices).map Prod.snd).sum < 2 ^ 64) :
    ∃ built assigned, codebook.generateCodebook choices .exact method = .ok (built, built.size) ∧
      codebook.assignedLengths choices .exact method = .ok assigned ∧
      Renumbers built assigned ∧
      IsAssignment ((codebook.topFrequencies choices).map Prod.fst) assigned := by
  by_cases nonempty : codebook.topFrequencies choices = []
  · have none : codebook.freqTable.getTopFrequencies choices.descending = [] := nonempty
    refine ⟨codebook.clearCodes, [], ?_, by simp [assignedLengths, nonempty], ⟨rfl, rfl⟩,
      ⟨by simp [nonempty], by simp⟩⟩
    cases method with
    | huffman => simp [generateCodebook, generateHuffmanCodes, none, clearCodes, size]
    | shannonFano => simp [generateCodebook, generateShannonFanoCodes, none, clearCodes, size]
    | shannon => exact generateShannonCodes_empty choices .exact nonempty
  · have some : (codebook.topFrequencies choices).isEmpty = false := by simpa using nonempty
    cases method with
    | huffman =>
        obtain ⟨generated, renumbers, assignment, -⟩ := huffman_assigns choices nonempty
        refine ⟨_, _, congrArg Except.ok generated, ?_, renumbers, assignment⟩
        simp only [assignedLengths, some, Bool.false_eq_true, if_false]
    | shannonFano =>
        obtain ⟨generated, renumbers, assignment⟩ := shannonFano_assigns choices nonempty
        refine ⟨_, _, congrArg Except.ok generated, ?_, renumbers, assignment⟩
        simp only [assignedLengths, some, Bool.false_eq_true, if_false]
    | shannon =>
        obtain ⟨built, assigned, generated, done, renumbers, assignment⟩ :=
          shannon_assigns choices nonempty positive fits
        refine ⟨built, assigned, generated, ?_, renumbers, assignment⟩
        simp only [assignedLengths, some, done, Bool.false_eq_true, if_false]

/-- A renumbered assignment is a prefix code on its symbols. -/
theorem Renumbers.isPrefixCode {symbols : List Nat} {assigned : List (Nat × Nat)}
    (renumbers : Renumbers codebook assigned) (assignment : IsAssignment symbols assigned)
    (distinct : symbols.Nodup) (short : ∀ p ∈ assigned, p.2 ≤ 64) :
    IsPrefixCode codebook symbols ∧ IsRenumbering codebook assigned := by
  have distinct' := assignment.symbols.nodup_iff.mpr distinct
  have lengths := canonicalCodes_lengths distinct'
  rw [← renumbers.codes] at lengths
  have inMap : ∀ symbol, codebook.hasCode symbol = true ↔ ∃ entry, (symbol, entry) ∈ codebook.codes.pairs := by
    intro symbol
    rw [hasCode, Option.isSome_iff_exists]
    simp only [AList.mem_pairs]
  refine ⟨⟨?_, ?_, ?_, ?_⟩, ⟨?_, canonicalSteps_eq_numbering short assignment.kraft,
    canonicalSteps_bound short assignment.kraft⟩⟩
  · intro symbol
    have keys := lengths.map Prod.fst
    rw [List.map_map] at keys
    rw [inMap, ← (keys.trans assignment.symbols).mem_iff]
    simp [Function.comp_def]
  · rw [renumbers.codes]
    exact canonicalCodes_bits distinct'
  · have sizes := lengths.map Prod.snd
    rw [List.map_map] at sizes
    rw [renumbers.longest]
    exact (foldl_max_perm sizes 0).symm
  · intro s t codedS codedT different
    obtain ⟨entryS, memberS⟩ := (inMap s).mp codedS
    obtain ⟨entryT, memberT⟩ := (inMap t).mp codedT
    have free := canonicalCodes_free distinct' short assignment.kraft
    rw [← renumbers.codes] at free
    have symm : Std.Symm fun p q : Nat × CodeEntry => Incomparable p.2.bits q.2.bits :=
      ⟨fun _ _ apart => ⟨apart.2, apart.1⟩⟩
    have apart := List.Pairwise.forall free memberS memberT (by simp [different])
    simpa only [getCodeBits, AList.mem_pairs.mp memberS, AList.mem_pairs.mp memberT] using apart.1
  · intro p member
    obtain ⟨entry, stored, rfl⟩ := List.mem_map.mp (lengths.mem_iff.mpr member)
    simp only [getCodeLength, AList.mem_pairs.mp stored]

theorem topFrequencies_sum_le :
    ((codebook.topFrequencies choices).map Prod.snd).sum ≤ (codebook.freqTable.pairs.map Prod.snd).sum := by
  have part : ((codebook.topFrequencies choices).map Prod.snd).Sublist
      ((choices.descending.sort codebook.freqTable.pairs).map Prod.snd) :=
    (FrequencyValueTable.top_sublist _).map _
  exact part.sum_le_sum (by simp) |>.trans
    ((choices.descending.perm codebook.freqTable.pairs).map Prod.snd).sum_eq.le

/-- Every builder leaves a prefix code on exactly the top symbols, provided no
assigned length exceeds 64, and the renumbering neither changes a length nor
overflows. -/
theorem builders_leave_prefix_code (codebook : HuffmanCodebook) (positive : ∀ p ∈ codebook.freqTable.pairs, 1 ≤ p.2)
    (fits : (codebook.freqTable.pairs.map Prod.snd).sum < 2 ^ 63) :
    ∃ built assigned, codebook.generateCodebook choices .exact method = .ok (built, built.size) ∧
      codebook.assignedLengths choices .exact method = .ok assigned ∧
      ((∀ p ∈ assigned, p.2 ≤ 64) →
        IsPrefixCode built ((codebook.freqTable.getTopFrequencies choices.descending).map Prod.fst) ∧
        IsRenumbering built assigned) := by
  have topPositive : ∀ p ∈ codebook.topFrequencies choices, 1 ≤ p.2 := fun p member =>
    positive p (FrequencyValueTable.mem_of_mem_top _ member)
  have topFits : ((codebook.topFrequencies choices).map Prod.snd).sum < 2 ^ 64 :=
    (topFrequencies_sum_le choices).trans_lt (fits.trans (by decide))
  obtain ⟨built, assigned, generated, lengths, renumbers, assignment⟩ :=
    generateCodebook_spec choices method topPositive topFits
  exact ⟨built, assigned, generated, lengths, fun short =>
    renumbers.isPrefixCode assignment (topFrequencies_nodup choices) short⟩

/-- Three symbols, and room for two of them. -/
def sample : HuffmanCodebook where
  codes := ∅
  maxCodeLength := 0
  mag := 32
  freqTable := ⟨AList.insertAll ∅ [(3, 5), (1, 2), (8, 1)], 4, 2, 16, sixteen_bits⟩

theorem builders_leave_prefix_code_sample :
    ∃ built assigned, sample.generateCodebook .stable .exact .shannon = .ok (built, built.size) ∧
      sample.assignedLengths .stable .exact .shannon = .ok assigned ∧
      ((∀ p ∈ assigned, p.2 ≤ 64) →
        IsPrefixCode built ((sample.freqTable.getTopFrequencies Choices.stable.descending).map Prod.fst) ∧
        IsRenumbering built assigned) :=
  builders_leave_prefix_code .stable .shannon sample (by decide) (by decide)

/-- What the Shannon builder needs of the counts: none of its lengths is infinite, and those of a total that fits a
word are at most 64. -/
structure FiniteLengths (choices : Choices) (fp : FloatArithmetic) (codebook : HuffmanCodebook) : Prop where
  positive : ∀ p ∈ codebook.topFrequencies choices, 1 ≤ p.2
  nonzero : codebook.generateShannonCodes choices fp ≠ .error .zeroProbability
  bounded : codebook.generateShannonCodes choices fp ≠ .error .unboundedProbability
  short : ((codebook.topFrequencies choices).map Prod.snd).sum < 2 ^ 64 →
    ∃ result count, codebook.generateShannonCodes choices fp = .ok (result, count) ∧
      ∀ entry ∈ result.codes.pairs, entry.2.length ≤ 64

/-- The builder fails as its lengths do. -/
theorem generateShannonCodes_error {fp : FloatArithmetic} {fault : LengthFault}
    (nonempty : codebook.topFrequencies choices ≠ []) :
    codebook.generateShannonCodes choices fp = .error fault ↔
      shannonLengths fp (codebook.topFrequencies choices) = .error fault := by
  have some : (codebook.freqTable.getTopFrequencies choices.descending).isEmpty = false := by
    simpa [topFrequencies] using nonempty
  simp only [generateShannonCodes, some, Bool.false_eq_true, if_false, topFrequencies]
  cases lengths : shannonLengths fp (codebook.freqTable.getTopFrequencies choices.descending) with
  | error other => simp [bind, Except.bind]
  | ok assigned => simp [bind, Except.bind, pure, Except.pure]

/-- In every history of the table the top frequencies are positive; so the Shannon builder never takes the logarithm
of zero. It takes that of a quotient by zero exactly when the total of some counts wraps around to zero. -/
theorem shannon_lengths_defined_iff {checking final symbolLength : Nat} {start table : FrequencyValueTable}
    (built : FrequencyValueTable.create checking final symbolLength = .ok start)
    {history : List TableOperation} (run : Reaches TableStep start history table) (choices : Choices)
    (fp : FloatArithmetic) (codebook : HuffmanCodebook) (current : codebook.freqTable = table) :
    FiniteLengths choices fp codebook ↔
      codebook.topFrequencies choices = [] ∨
        ((codebook.topFrequencies choices).map Prod.snd).sum % 2 ^ 64 ≠ 0 := by
  subst current
  have positive : ∀ p ∈ codebook.topFrequencies choices, 1 ≤ p.2 :=
    (FrequencyValueTable.run_zerosCovered built run).top_positive choices.descending
  by_cases none : codebook.topFrequencies choices = []
  · refine iff_of_true ⟨positive, ?_, ?_, fun _ => ?_⟩ (.inl none)
    · simp [generateShannonCodes_empty choices fp none]
    · simp [generateShannonCodes_empty choices fp none]
    · exact ⟨_, _, generateShannonCodes_empty choices fp none, by simp [clearCodes]⟩
  · obtain ⟨nonzero, unbounded⟩ := shannonLengths_error fp none positive
    rw [or_iff_right none, ← rangeTotal_eq_mod]
    constructor
    · intro finite wraps
      exact finite.bounded ((generateShannonCodes_error choices none).mpr (unbounded.mpr wraps))
    · intro whole
      refine ⟨positive, fun failed => ?_, fun failed => ?_, fun fits => ?_⟩
      · exact nonzero ((generateShannonCodes_error choices none).mp failed)
      · exact whole (unbounded.mp ((generateShannonCodes_error choices none).mp failed))
      · obtain ⟨lengths, done, symbols, short⟩ := shannonLengths_le fp positive fits
        obtain ⟨result, generated, renumbers⟩ := generateShannonCodes_ok choices fp none done
        refine ⟨result, _, generated, ?_⟩
        have distinct : (lengths.map Prod.fst).Nodup := symbols ▸ FrequencyValueTable.nodup_top_symbols _
        intro entry member
        rw [renumbers.codes] at member
        exact short _ ((canonicalCodes_lengths distinct).mem_iff.mp (List.mem_map_of_mem member))

/-- An empty codebook with the table that these updates of a fresh one lead to. -/
def updatedBy (updates : List (Nat × Nat)) : HuffmanCodebook where
  codes := ∅
  maxCodeLength := 0
  mag := 32
  freqTable := updates.foldl (fun table update =>
    (table.updateFrequency Choices.stable.ascending update.1 update.2).1) ⟨∅, 3, 2, 16, sixteen_bits⟩

theorem updatedBy_step {updates : List (Nat × Nat)} (symbol increment : Nat) {history : List TableOperation}
    {start : FrequencyValueTable} (run : Reaches TableStep start history (updatedBy updates).freqTable)
    (positive : 1 ≤ increment) (fits : (updatedBy updates).freqTable.getFrequency symbol + increment < 2 ^ 64) :
    Reaches TableStep start (history ++ [.update symbol increment])
      (updatedBy (updates ++ [(symbol, increment)])).freqTable := by
  rw [updatedBy, List.foldl_append]
  exact run.next (.update Choices.stable.ascending positive fits)

/-- The fourth symbol makes the table evict two, and the total is that of the others. -/
theorem shannon_lengths_defined_after_eviction :
    (updatedBy [(0, 2), (1, 1), (2, 4), (3, 1)]).freqTable.pairs.length < 4 ∧
      ∀ fp, FiniteLengths .stable fp (updatedBy [(0, 2), (1, 1), (2, 4), (3, 1)]) := by
  have one := @updatedBy_step [] 0 2 _ _ .refl (by decide) (by decide)
  have two := updatedBy_step 1 1 one (by decide) (by decide)
  have three := updatedBy_step 2 4 two (by decide) (by decide)
  have four := updatedBy_step 3 1 three (by decide) (by decide)
  refine ⟨by decide, fun fp => ?_⟩
  exact (shannon_lengths_defined_iff (show FrequencyValueTable.create 3 2 16 = _ from rfl) four .stable fp _ rfl).mpr
    (.inr (by decide))

/-- Two counts of `2 ^ 63` have the total zero, so the first probability is infinite. -/
theorem shannon_length_infinite :
    (∃ history, Reaches TableStep ⟨∅, 3, 2, 16, sixteen_bits⟩ history
      (updatedBy [(0, 2 ^ 63), (1, 2 ^ 63)]).freqTable) ∧
      ∀ fp, (updatedBy [(0, 2 ^ 63), (1, 2 ^ 63)]).generateShannonCodes .stable fp = .error .unboundedProbability := by
  have one := @updatedBy_step [] 0 (2 ^ 63) _ _ .refl (by decide) (by decide)
  have two := updatedBy_step 1 (2 ^ 63) one (by decide) (by decide)
  refine ⟨⟨_, two⟩, fun fp => ?_⟩
  have some : (updatedBy [(0, 2 ^ 63), (1, 2 ^ 63)]).topFrequencies .stable ≠ [] := by decide
  refine (generateShannonCodes_error .stable some).mpr ((shannonLengths_error fp some ?_).2.mpr ?_)
  · decide
  · rfl

end HuffmanCodebook

end GpgpuSim.Huffman
