import GpgpuSim.Huffman.Codebook
import GpgpuSim.Coding.Canonical

/-! Codes recorded by the tree walk and the recursive split, and their canonical
renumbering. The 64-bit loop agrees with the unbounded numbering as long as the
assigned lengths satisfy Kraft's inequality and fit in a word. -/
namespace GpgpuSim.Huffman.HuffmanCodebook
open Containers Coding

/-- Recording a list of codes one after the other. -/
def recordAll (codebook : HuffmanCodebook) (words : List (Nat × List Bool)) : HuffmanCodebook :=
  words.foldl (fun codebook word => codebook.record word.1 word.2) codebook

@[simp] theorem recordAll_append (codebook : HuffmanCodebook) (words later : List (Nat × List Bool)) :
    codebook.recordAll (words ++ later) = (codebook.recordAll words).recordAll later :=
  List.foldl_append

theorem recordAll_codes (codebook : HuffmanCodebook) (words : List (Nat × List Bool)) :
    (codebook.recordAll words).codes =
      codebook.codes.insertAll (words.map fun word => (word.1, .ofBits word.2)) := by
  induction words generalizing codebook with
  | nil => rfl
  | cons word words ih =>
      simp only [recordAll, List.foldl_cons, List.map_cons, AList.insertAll_cons]
      exact ih (codebook.record word.1 word.2)

theorem recordAll_maxCodeLength (codebook : HuffmanCodebook) (words : List (Nat × List Bool)) :
    (codebook.recordAll words).maxCodeLength =
      (words.map fun word => word.2.length).foldl max codebook.maxCodeLength := by
  induction words generalizing codebook with
  | nil => rfl
  | cons word words ih =>
      simp only [recordAll, List.foldl_cons, List.map_cons]
      exact ih (codebook.record word.1 word.2)

@[simp] theorem recordAll_freqTable (codebook : HuffmanCodebook) (words : List (Nat × List Bool)) :
    (codebook.recordAll words).freqTable = codebook.freqTable := by
  induction words generalizing codebook with
  | nil => rfl
  | cons word words ih => exact ih (codebook.record word.1 word.2)

/-- The symbols of a codebook with their lengths, as `make_canonical_codes` collects them. -/
def codeLengths (codebook : HuffmanCodebook) : List (Nat × Nat) :=
  codebook.codes.pairs.map fun entry => (entry.1, entry.2.length)

theorem recordAll_codeLengths (codebook : HuffmanCodebook) {words : List (Nat × List Bool)}
    (distinct : (words.map Prod.fst).Nodup) :
    (codebook.clearCodes.recordAll words).codeLengths.Perm
      (words.map fun word => (word.1, word.2.length)) := by
  have stored := AList.pairs_insertAll_empty
    (l := words.map fun word => (word.1, CodeEntry.ofBits word.2))
    (by simpa only [List.map_map, Function.comp_def] using distinct)
  have lengths := stored.map fun entry => (entry.1, entry.2.length)
  rw [codeLengths, recordAll_codes, show codebook.clearCodes.codes = ∅ from rfl]
  simpa [List.map_map, Function.comp_def, CodeEntry.ofBits] using lengths

/-! ## The loop of `make_canonical_codes` -/

/-- The shift-and-test loop spells the low bits of the code. -/
theorem codeBits_eq_word {code len : Nat} (fits : len ≤ 64) : codeBits code len = word code len := by
  refine List.map_congr_left fun i member => ?_
  have inside := List.mem_range.mp member
  have shifted : (1 <<< (len - 1 - i)) % 2 ^ 64 = 2 ^ (len - 1 - i) := by
    rw [Nat.one_shiftLeft]
    exact Nat.mod_eq_of_lt (Nat.pow_lt_pow_right (by decide) (by omega))
  rw [shifted, Nat.and_two_pow]
  cases code.testBit (len - 1 - i) <;> simp

@[simp] theorem length_codeBits (code len : Nat) : (codeBits code len).length = len := by
  simp [codeBits]

theorem numberCodes_lengths (code prevLen : Nat) (l : List (Nat × Nat)) :
    (numberCodes code prevLen l).map (fun step => (step.1, step.2.1)) = l := by
  induction l generalizing code prevLen with
  | nil => rfl
  | cons pair rest ih => simp [numberCodes, ih]

/-- No shift and no increment that is used again wraps. -/
theorem numberCodes_eq_numbering {code prevLen : Nat} {l : List (Nat × Nat)} (short : ∀ p ∈ l, p.2 ≤ 64)
    (fits : Fits code prevLen (l.map Prod.snd)) :
    (numberCodes (code % 2 ^ 64) prevLen l).map Prod.snd = numbering code prevLen (l.map Prod.snd) := by
  induction l generalizing code prevLen with
  | nil => rfl
  | cons pair rest ih =>
      obtain ⟨symbol, len⟩ := pair
      obtain ⟨inside, later⟩ := fits.step
      have word : 2 ^ len ≤ 2 ^ 64 := Nat.pow_le_pow_right (by decide) (short (symbol, len) (by simp))
      have small : code * 2 ^ (len - prevLen) < 2 ^ 64 := inside.trans_le word
      have start : code < 2 ^ 64 := (Nat.le_mul_of_pos_right code (Nat.two_pow_pos _)).trans_lt small
      have shifted : (code % 2 ^ 64) <<< (len - prevLen) % 2 ^ 64 = code * 2 ^ (len - prevLen) := by
        rw [Nat.mod_eq_of_lt start, Nat.shiftLeft_eq, Nat.mod_eq_of_lt small]
      simp only [numberCodes, List.map_cons, numbering, shifted]
      rw [ih (fun p member => short p (by simp [member])) later]

/-- The list `make_canonical_codes` numbers: sorted by length, then symbol. -/
def canonicalSteps (assigned : List (Nat × Nat)) : List (Nat × Nat × Nat) :=
  let sorted := canonicalOrder.sort assigned
  numberCodes 0 ((sorted.head?.map Prod.snd).getD 0) sorted

theorem canonicalCodes_eq (assigned : List (Nat × Nat)) :
    canonicalCodes assigned = AList.insertAll ∅ ((canonicalSteps assigned).map fun step =>
      (step.1, .ofBits (codeBits step.2.2 step.2.1))) := rfl

theorem canonicalSteps_lengths (assigned : List (Nat × Nat)) :
    ((canonicalSteps assigned).map fun step => (step.1, step.2.1)).Perm assigned := by
  rw [canonicalSteps, numberCodes_lengths]
  exact canonicalOrder.perm assigned

variable {assigned : List (Nat × Nat)}

theorem canonicalSteps_symbols (distinct : (assigned.map Prod.fst).Nodup) :
    ((canonicalSteps assigned).map Prod.fst).Nodup := by
  have := (canonicalSteps_lengths assigned).map Prod.fst
  rw [List.map_map] at this
  exact this.nodup_iff.mpr distinct

/-- The stored codes are those of the loop. -/
theorem pairs_canonicalCodes (distinct : (assigned.map Prod.fst).Nodup) :
    (canonicalCodes assigned).pairs.Perm
      ((canonicalSteps assigned).map fun step => (step.1, .ofBits (codeBits step.2.2 step.2.1))) := by
  rw [canonicalCodes_eq]
  refine AList.pairs_insertAll_empty ?_
  rw [List.map_map]
  exact canonicalSteps_symbols distinct

/-- Renumbering keeps every symbol and its length. -/
theorem canonicalCodes_lengths (distinct : (assigned.map Prod.fst).Nodup) :
    ((canonicalCodes assigned).pairs.map fun entry => (entry.1, entry.2.length)).Perm assigned := by
  have lengths := (pairs_canonicalCodes distinct).map fun entry => (entry.1, entry.2.length)
  rw [List.map_map] at lengths
  refine lengths.trans ?_
  simpa [Function.comp_def, CodeEntry.ofBits] using canonicalSteps_lengths assigned

theorem canonicalCodes_bits (distinct : (assigned.map Prod.fst).Nodup) :
    ∀ entry ∈ (canonicalCodes assigned).pairs, entry.2.bits.length = entry.2.length := by
  intro entry member
  obtain ⟨step, -, rfl⟩ := List.mem_map.mp ((pairs_canonicalCodes distinct).mem_iff.mp member)
  rfl

/-- The assigned lengths leave room for every code. -/
theorem canonicalSteps_fits (kraft : kraftSum (assigned.map Prod.snd) ≤ 1) :
    let sorted := canonicalOrder.sort assigned
    Fits 0 ((sorted.head?.map Prod.snd).getD 0) (sorted.map Prod.snd) := by
  have ordered : ((canonicalOrder.sort assigned).map Prod.snd).Pairwise (· ≤ ·) := by
    refine List.pairwise_map.mpr ((canonicalOrder.sorted assigned).imp ?_)
    intro a b notBefore
    simp only [canonicalBefore, decide_eq_false_iff_not] at notBefore
    omega
  refine Fits.start ?_ ordered ?_
  · cases h : canonicalOrder.sort assigned with
    | nil => simp
    | cons first rest =>
        rw [h] at ordered
        simpa using (List.pairwise_cons.mp ordered).1
  · rw [kraftSum_perm ((canonicalOrder.perm assigned).map Prod.snd)]
    exact kraft

theorem canonicalSteps_eq_numbering (short : ∀ p ∈ assigned, p.2 ≤ 64)
    (kraft : kraftSum (assigned.map Prod.snd) ≤ 1) :
    let sorted := canonicalOrder.sort assigned
    (canonicalSteps assigned).map Prod.snd =
      numbering 0 ((sorted.head?.map Prod.snd).getD 0) (sorted.map Prod.snd) :=
  numberCodes_eq_numbering (fun p member => short p (by simpa using member))
    (canonicalSteps_fits kraft)

/-- The running code value always fits the current length. -/
theorem canonicalSteps_bound (short : ∀ p ∈ assigned, p.2 ≤ 64) (kraft : kraftSum (assigned.map Prod.snd) ≤ 1) :
    ∀ step ∈ canonicalSteps assigned, step.2.2 < 2 ^ step.2.1 := by
  intro step member
  have numbered := List.mem_map_of_mem (f := Prod.snd) member
  rw [canonicalSteps_eq_numbering short kraft] at numbered
  exact ((canonicalSteps_fits kraft).numbering_bounds _ numbered).2.2

/-- Two different symbols get incomparable codes. -/
theorem canonicalCodes_free (distinct : (assigned.map Prod.fst).Nodup) (short : ∀ p ∈ assigned, p.2 ≤ 64)
    (kraft : kraftSum (assigned.map Prod.snd) ≤ 1) :
    (canonicalCodes assigned).pairs.Pairwise fun p q => Incomparable p.2.bits q.2.bits := by
  have free := (canonicalSteps_fits kraft).prefixFree
  rw [← canonicalSteps_eq_numbering short kraft, List.map_map] at free
  have inOrder : ((canonicalSteps assigned).map fun step =>
      (step.1, CodeEntry.ofBits (codeBits step.2.2 step.2.1))).Pairwise
      fun p q => Incomparable p.2.bits q.2.bits := by
    refine List.pairwise_map.mpr ((List.pairwise_map.mp free).imp_of_mem ?_)
    intro a b ha hb apart
    have lengthOf : ∀ step ∈ canonicalSteps assigned, step.2.1 ≤ 64 := by
      intro step member
      exact short (step.1, step.2.1) ((canonicalSteps_lengths assigned).mem_iff.mp (List.mem_map_of_mem member))
    simpa [CodeEntry.ofBits, codeBits_eq_word (lengthOf a ha), codeBits_eq_word (lengthOf b hb)] using apart
  have symm : Std.Symm fun p q : Nat × CodeEntry => Incomparable p.2.bits q.2.bits :=
    ⟨fun _ _ apart => ⟨apart.2, apart.1⟩⟩
  exact (pairs_canonicalCodes distinct).symm.pairwise inOrder (fun h => symm.symm _ _ h)

end GpgpuSim.Huffman.HuffmanCodebook
