import GpgpuSim.Huffman.PrefixCodes
import GpgpuSim.Transition.Fallible

/-! What a build leaves behind, whatever the method and the floating point
arithmetic: the frequency table as it was, and no codes exactly when there are no
top frequencies. -/
namespace GpgpuSim.Huffman.HuffmanCodebook
open Transition

variable {choices : Choices} {fp : FloatArithmetic} {method : CodebookBuildMethod}
  {codebook built : HuffmanCodebook} {count : Nat}

/-- The parts of a codebook that no builder writes. -/
structure SameTable (codebook before : HuffmanCodebook) : Prop where
  freqTable : codebook.freqTable = before.freqTable
  mag : codebook.mag = before.mag

theorem SameTable.recordAll (codebook : HuffmanCodebook) (words : List (Nat × List Bool)) :
    SameTable (codebook.recordAll words) codebook := by
  induction words generalizing codebook with
  | nil => exact ⟨rfl, rfl⟩
  | cons word words ih =>
      obtain ⟨table, mag⟩ := ih (codebook.record word.1 word.2)
      exact ⟨table, mag⟩

theorem SameTable.makeCanonicalCodes {codebook before : HuffmanCodebook} (same : SameTable codebook before) :
    SameTable codebook.makeCanonicalCodes before := by
  unfold HuffmanCodebook.makeCanonicalCodes
  split
  · exact same
  · exact ⟨same.freqTable, same.mag⟩

theorem shannonLengths_symbols {freqPairs lengths : List (Nat × Nat)}
    (done : shannonLengths fp freqPairs = .ok lengths) :
    lengths.map Prod.fst = freqPairs.map Prod.fst := by
  unfold shannonLengths at done
  generalize rangeTotal freqPairs = total at done
  induction freqPairs generalizing lengths with
  | nil =>
      cases done
      rfl
  | cons pair rest ih =>
      rw [List.mapM_cons] at done
      obtain ⟨first, one, done⟩ := bind_ok.mp done
      obtain ⟨later, others, done⟩ := bind_ok.mp done
      obtain ⟨codeLength, -, one⟩ := bind_ok.mp one
      cases one
      cases done
      simp [ih others]

/-- Renumbering a non-empty assignment leaves codes. -/
theorem Renumbers.size_ne_zero {assigned : List (Nat × Nat)} (renumbers : Renumbers built assigned)
    (distinct : (assigned.map Prod.fst).Nodup) (nonempty : assigned ≠ []) : built.size ≠ 0 := by
  have sizes := (canonicalCodes_lengths distinct).length_eq
  rw [List.length_map, AList.length_pairs, ← renumbers.codes] at sizes
  intro none
  have : assigned.length = 0 := sizes.symm.trans none
  exact nonempty (List.length_eq_zero_iff.mp this)

/-- No top frequencies: the codes are gone and nothing is built. -/
structure Cleared (codebook built : HuffmanCodebook) (count : Nat) : Prop where
  built : built = codebook.clearCodes
  count : count = 0

/-- Top frequencies: every one gets a code. -/
structure Filled (codebook built : HuffmanCodebook) (count : Nat) : Prop where
  same : SameTable built codebook
  count : count = built.size
  size_ne_zero : built.size ≠ 0

theorem generateCodebook_empty (empty : codebook.topFrequencies choices = []) :
    codebook.generateCodebook choices fp method = .ok (codebook.clearCodes, 0) := by
  have empty' : codebook.freqTable.getTopFrequencies choices.descending = [] := empty
  cases method with
  | huffman => simp only [generateCodebook, generateHuffmanCodes, empty', List.isEmpty_nil, if_true]
  | shannonFano => simp only [generateCodebook, generateShannonFanoCodes, empty', List.isEmpty_nil, if_true]
  | shannon => exact generateShannonCodes_empty choices fp empty

theorem generateCodebook_cleared (empty : codebook.topFrequencies choices = [])
    (done : codebook.generateCodebook choices fp method = .ok (built, count)) :
    Cleared codebook built count := by
  rw [generateCodebook_empty empty] at done
  cases done
  exact ⟨rfl, rfl⟩

theorem generateCodebook_filled (nonempty : codebook.topFrequencies choices ≠ [])
    (done : codebook.generateCodebook choices fp method = .ok (built, count)) :
    Filled codebook built count := by
  have distinct := codebook.topFrequencies_nodup choices
  have nonempty_of_symbols : ∀ {assigned : List (Nat × Nat)},
      (assigned.map Prod.fst).Perm ((codebook.topFrequencies choices).map Prod.fst) → assigned ≠ [] := by
    rintro assigned perm rfl
    exact nonempty (by simpa using perm.length_eq.symm)
  cases method with
  | huffman =>
      obtain ⟨generated, renumbers, assignment, -⟩ := huffman_assigns choices nonempty
      simp only [generateCodebook, generated, Except.ok.injEq, Prod.mk.injEq] at done
      obtain ⟨rfl, rfl⟩ := done
      refine ⟨?_, rfl, renumbers.size_ne_zero (assignment.symbols.nodup_iff.mpr distinct)
        (nonempty_of_symbols assignment.symbols)⟩
      obtain ⟨root, words, -, -, recorded, -⟩ := assignHuffmanCodes_eq choices codebook nonempty
      rw [recorded]
      obtain ⟨table, mag⟩ := SameTable.recordAll codebook.clearCodes words
      exact SameTable.makeCanonicalCodes ⟨table, mag⟩
  | shannonFano =>
      obtain ⟨generated, renumbers, assignment⟩ := shannonFano_assigns choices nonempty
      simp only [generateCodebook, generated, Except.ok.injEq, Prod.mk.injEq] at done
      obtain ⟨rfl, rfl⟩ := done
      refine ⟨?_, rfl, renumbers.size_ne_zero (assignment.symbols.nodup_iff.mpr distinct)
        (nonempty_of_symbols assignment.symbols)⟩
      obtain ⟨words, lengths, recorded, -⟩ :=
        shannonFanoEncode_eq (codebook.topFrequencies choices) [] codebook.clearCodes nonempty
      rw [assignShannonFanoCodes, recorded]
      obtain ⟨table, mag⟩ := SameTable.recordAll codebook.clearCodes words
      exact SameTable.makeCanonicalCodes ⟨table, mag⟩
  | shannon =>
      simp only [generateCodebook] at done
      have filled : (codebook.freqTable.getTopFrequencies choices.descending).isEmpty = false := by
        simpa [topFrequencies] using nonempty
      simp only [generateShannonCodes, filled, Bool.false_eq_true, if_false] at done
      obtain ⟨lengths, assigned, done⟩ := bind_ok.mp done
      cases done
      have symbols := shannonLengths_symbols assigned
      refine ⟨⟨rfl, rfl⟩, rfl, Renumbers.size_ne_zero ⟨rfl, ?_⟩ (symbols ▸ distinct)
        (nonempty_of_symbols (.of_eq symbols))⟩
      simp [List.foldl_map]

/-- Only an empty table has no top frequencies. -/
theorem topFrequencies_eq_nil (final : 0 < codebook.freqTable.finalTableSize) :
    codebook.topFrequencies choices = [] ↔ codebook.freqTable.pairs = [] := by
  simp only [topFrequencies, FrequencyValueTable.getTopFrequencies, List.take_eq_nil_iff,
    Containers.Sorter.sort_eq_nil]
  constructor
  · rintro (none | empty)
    · omega
    · exact empty
  · exact .inr

end GpgpuSim.Huffman.HuffmanCodebook
