import GpgpuSim.Huffman.PrefixCodes

/-! The recursive split of the Shannon-Fano builder. The scan stops at the first
step that moves away from half the total; as the imbalance only falls up to that
point and only rises after it, the split it finds is the best one. -/
namespace GpgpuSim.Huffman.HuffmanCodebook
open Containers Coding

/-! ## The scan -/

variable {totalFreq currFreq freq i split count : Nat} {symbols range rest : List (Nat × Nat)}

/-- What the first `count` symbols of a range add up to. -/
def partTotal (symbols : List (Nat × Nat)) (count : Nat) : Nat := ((symbols.take count).map Prod.snd).sum

/-- `|left total - right total|` when the first part holds `count` symbols. -/
def partsGap (symbols : List (Nat × Nat)) (count : Nat) : Nat :=
  (((symbols.take count).map Prod.snd).sum - ((symbols.drop count).map Prod.snd).sum : ℤ).natAbs

@[simp] theorem partTotal_zero : partTotal symbols 0 = 0 := by simp [partTotal]

@[simp] theorem partTotal_cons (pair : Nat × Nat) :
    partTotal (pair :: rest) (count + 1) = pair.2 + partTotal rest count := by simp [partTotal]

theorem partTotal_length : partTotal symbols symbols.length = (symbols.map Prod.snd).sum := by
  simp [partTotal]

theorem partTotal_add (symbols : List (Nat × Nat)) (count : Nat) :
    partTotal symbols count + ((symbols.drop count).map Prod.snd).sum = (symbols.map Prod.snd).sum := by
  rw [partTotal, ← List.sum_append, ← List.map_append, List.take_append_drop]

/-- The gap between the parts is the distance from twice the first part to the total. -/
theorem partsGap_eq (symbols : List (Nat × Nat)) (count : Nat) :
    partsGap symbols count = (2 * partTotal symbols count - (symbols.map Prod.snd).sum : ℤ).natAbs := by
  have parts := partTotal_add symbols count
  simp only [partsGap, ← parts, partTotal, Nat.cast_add]
  congr 1
  ring

/-- Neither the doubling nor the signed difference wraps for totals below `2 ^ 63`. -/
theorem imbalance_eq (below : freq ≤ totalFreq) (fits : totalFreq < 2 ^ 63) :
    imbalance freq totalFreq = (2 * freq - totalFreq : ℤ).natAbs := by
  have exact : Int.bmod (2 * freq - totalFreq) (2 ^ 64) = 2 * freq - totalFreq :=
    Int.bmod_eq_of_le (by omega) (by omega)
  rw [imbalance, exact]

/-- The scan takes the symbols up to a point of least imbalance. -/
theorem splitScan_minimal (fits : totalFreq < 2 ^ 63) (below : currFreq + (rest.map Prod.snd).sum ≤ totalFreq) :
    ∃ taken ≤ rest.length,
      splitScan totalFreq currFreq i split rest = (if taken = 0 then split else i + taken - 1) ∧
      ∀ count ≤ rest.length, (2 * (currFreq + partTotal rest taken) - totalFreq : ℤ).natAbs ≤
        (2 * (currFreq + partTotal rest count) - totalFreq : ℤ).natAbs := by
  induction rest generalizing currFreq i split with
  | nil =>
      refine ⟨0, le_rfl, rfl, fun count inside => ?_⟩
      rw [Nat.le_zero.mp inside]
  | cons pair rest ih =>
      simp only [List.map_cons, List.sum_cons] at below
      have next : (currFreq + pair.2) % 2 ^ 64 = currFreq + pair.2 := Nat.mod_eq_of_lt (by omega)
      simp only [splitScan, next, imbalance_eq (show currFreq + pair.2 ≤ totalFreq by omega) fits,
        imbalance_eq (show currFreq ≤ totalFreq by omega) fits]
      split
      next closer =>
          obtain ⟨taken, inside, found, best⟩ :=
            @ih (currFreq + pair.2) (i + 1) i (by omega)
          refine ⟨taken + 1, by simpa using inside, ?_, ?_⟩
          · rw [found, if_neg (Nat.succ_ne_zero taken)]
            split <;> omega
          · intro count bound
            cases count with
            | zero =>
                have here := best 0 (Nat.zero_le _)
                simp only [partTotal_cons, partTotal_zero] at here ⊢
                omega
            | succ count =>
                have here := best count (by simpa using bound)
                simp only [partTotal_cons]
                omega
      next further =>
          refine ⟨0, Nat.zero_le _, rfl, ?_⟩
          intro count bound
          cases count with
          | zero => exact le_rfl
          | succ count =>
              -- beyond half the total, more symbols only move further away
              simp only [partTotal_cons, partTotal_zero]
              omega

/-- The first part of a split. -/
def leftPart (range : List (Nat × Nat)) : List (Nat × Nat) := range.take (splitPoint range + 1)

/-- The second part of a split. -/
def rightPart (range : List (Nat × Nat)) : List (Nat × Nat) := range.drop (splitPoint range + 1)

/-- The recursive calls on a range of three or more symbols. -/
theorem shannonFanoEncode_split (long : 3 ≤ range.length) (code : List Bool) (codebook : HuffmanCodebook) :
    shannonFanoEncode range code codebook =
      shannonFanoEncode (rightPart range) (code ++ [true])
        (shannonFanoEncode (leftPart range) (code ++ [false]) codebook) := by
  match range, long with
  | a :: b :: c :: rest, _ => rw [shannonFanoEncode, leftPart, rightPart]

/-- Both parts are non-empty and shorter than the range. -/
theorem parts_shorter (long : 2 ≤ range.length) :
    leftPart range ≠ [] ∧ (leftPart range).length < range.length ∧
      rightPart range ≠ [] ∧ (rightPart range).length < range.length := by
  have inside := splitPoint_lt long
  have left : (leftPart range).length = splitPoint range + 1 := by
    rw [leftPart, List.length_take, min_eq_left inside.le]
  have right : (rightPart range).length = range.length - (splitPoint range + 1) := by
    rw [rightPart, List.length_drop]
  refine ⟨List.ne_nil_of_length_pos ?_, ?_, List.ne_nil_of_length_pos ?_, ?_⟩ <;> omega

/-- With positive counts the scan stops before the last symbol, so the fallback is
never taken and the parts are as even as the range allows. -/
theorem splitPoint_minimal (long : 2 ≤ range.length) (positive : ∀ p ∈ range, 1 ≤ p.2)
    (fits : (range.map Prod.snd).sum < 2 ^ 63) :
    ∀ count, 0 < count → count < range.length → partsGap range (splitPoint range + 1) ≤ partsGap range count := by
  have total : rangeTotal range = (range.map Prod.snd).sum := rangeTotal_eq (by omega)
  obtain ⟨taken, inside, found, best⟩ :=
    @splitScan_minimal (range.map Prod.snd).sum 0 0 0 range fits (by omega)
  simp only [Nat.cast_zero, zero_add] at found best
  -- one symbol is neither none of the total nor all of it
  have first : 0 < partTotal range 1 ∧ partTotal range 1 < (range.map Prod.snd).sum := by
    match range, long with
    | a :: b :: rest, _ =>
        have one := positive a (by simp)
        have two := positive b (by simp)
        simp [partTotal]
        omega
  have closer := best 1 (by omega)
  have some : taken ≠ 0 := by
    rintro rfl
    rw [partTotal_zero] at closer
    omega
  have notAll : taken ≠ range.length := by
    rintro rfl
    rw [partTotal_length] at closer
    omega
  have point : splitPoint range + 1 = taken := by
    simp only [splitPoint, total, found, if_neg some]
    rw [if_neg (by omega)]
    omega
  intro count _ bound
  rw [point, partsGap_eq, partsGap_eq]
  exact best count bound.le

/-! ## The recursion -/

/-- The ranges the recursion over `symbols` is called on. -/
inductive EncodedRange (symbols : List (Nat × Nat)) : List (Nat × Nat) → Prop
  | whole : EncodedRange symbols symbols
  | left {part : List (Nat × Nat)} :
      EncodedRange symbols part → 3 ≤ part.length → EncodedRange symbols (leftPart part)
  | right {part : List (Nat × Nat)} :
      EncodedRange symbols part → 3 ≤ part.length → EncodedRange symbols (rightPart part)

/-- Every range is a contiguous part of the list. -/
theorem EncodedRange.isInfix (reached : EncodedRange symbols range) : range <:+: symbols := by
  induction reached with
  | whole => exact List.infix_refl symbols
  | left _ _ ih => exact (List.take_prefix _ _).isInfix.trans ih
  | right _ _ ih => exact (List.drop_suffix _ _).isInfix.trans ih

/-- The codes a range receives: one per symbol, extending the code passed in and filling its space. -/
structure RangeCodes (range : List (Nat × Nat)) (code : List Bool) (words : List (Nat × List Bool)) : Prop where
  symbols : words.map Prod.fst = range.map Prod.fst
  extends_code : ∀ word ∈ words, code <+: word.2
  longer : 2 ≤ range.length → ∀ word ∈ words, code.length < word.2.length
  kraft : range ≠ [] → kraftSum (words.map fun word => word.2.length) = (1 / 2) ^ code.length

/-- The codes of the two parts of a range are the codes of the range. -/
theorem RangeCodes.append {code : List Bool} {leftWords rightWords : List (Nat × List Bool)}
    (long : 3 ≤ range.length) (left : RangeCodes (leftPart range) (code ++ [false]) leftWords)
    (right : RangeCodes (rightPart range) (code ++ [true]) rightWords) :
    RangeCodes range code (leftWords ++ rightWords) := by
  obtain ⟨leftSome, -, rightSome, -⟩ := parts_shorter (show 2 ≤ range.length by omega)
  have below : ∀ word ∈ leftWords ++ rightWords, ∃ bit, code ++ [bit] <+: word.2 := by
    intro word member
    rcases List.mem_append.mp member with member | member
    · exact ⟨false, left.extends_code word member⟩
    · exact ⟨true, right.extends_code word member⟩
  refine ⟨?_, ?_, ?_, ?_⟩
  · rw [List.map_append, left.symbols, right.symbols, ← List.map_append, leftPart, rightPart,
      List.take_append_drop]
  · intro word member
    obtain ⟨bit, extended⟩ := below word member
    exact (List.prefix_append code [bit]).trans extended
  · intro _ word member
    obtain ⟨bit, extended⟩ := below word member
    simpa using extended.length_le
  · intro _
    rw [List.map_append, kraftSum_append, left.kraft leftSome, right.kraft rightSome]
    simp only [List.length_append, List.length_singleton, pow_succ]
    ring

/-- The recursion records exactly the codes of its range. -/
theorem shannonFanoEncode_rangeCodes (symbols : List (Nat × Nat)) (code : List Bool) (codebook : HuffmanCodebook) :
    ∃ words, shannonFanoEncode symbols code codebook = codebook.recordAll words ∧
      RangeCodes symbols code words := by
  induction symbols, code, codebook using shannonFanoEncode.induct with
  | case1 code codebook => exact ⟨[], by rw [shannonFanoEncode]; rfl, rfl, by simp, by simp, by simp⟩
  | case2 code codebook a =>
      exact ⟨[(a.1, code)], by rw [shannonFanoEncode]; rfl, rfl, by simp, by simp, by simp⟩
  | case3 code codebook a b =>
      refine ⟨[(a.1, code ++ [false]), (b.1, code ++ [true])], by rw [shannonFanoEncode]; rfl, rfl,
        by simp, by simp, fun _ => ?_⟩
      simp only [List.map_cons, List.map_nil, kraftSum_cons, kraftSum_nil, List.length_append,
        List.length_singleton, pow_succ]
      ring
  | case4 code codebook a b c rest range left right ihLeft _ ihRight =>
      obtain ⟨leftWords, leftEq, leftCodes⟩ := ihLeft
      rw [leftEq] at ihRight
      obtain ⟨rightWords, rightEq, rightCodes⟩ := ihRight
      have long : 3 ≤ range.length := by simp [range]
      refine ⟨leftWords ++ rightWords, ?_, RangeCodes.append long leftCodes rightCodes⟩
      rw [shannonFanoEncode, recordAll_append, ← rightEq, ← leftEq]

/-! ## The map of codes -/

variable {codebook : HuffmanCodebook} {words : List (Nat × List Bool)} {word : Nat × List Bool} {s : Nat}

theorem lookup_recordAll_of_notMem (absent : s ∉ words.map Prod.fst) :
    (codebook.recordAll words).codes.lookup s = codebook.codes.lookup s := by
  rw [recordAll_codes]
  refine AList.lookup_insertAll_of_notMem _ ?_
  simpa only [List.map_map, Function.comp_def] using absent

/-- A symbol ends with one of the codes recorded for it. -/
theorem lookup_recordAll_of_mem (listed : s ∈ words.map Prod.fst) :
    ∃ bits, (s, bits) ∈ words ∧ (codebook.recordAll words).codes.lookup s = some (.ofBits bits) := by
  have keys : s ∈ (words.map fun word => (word.1, CodeEntry.ofBits word.2)).map Prod.fst := by
    simpa only [List.map_map, Function.comp_def] using listed
  obtain ⟨entry, member, found⟩ := AList.lookup_insertAll_of_mem codebook.codes keys
  obtain ⟨word, inside, same⟩ := List.mem_map.mp member
  obtain ⟨rfl, rfl⟩ := Prod.mk.inj same
  exact ⟨word.2, inside, by rw [recordAll_codes, found]⟩

theorem getCodeLength_recordAll (distinct : (words.map Prod.fst).Nodup) (member : word ∈ words) :
    (codebook.recordAll words).getCodeLength word.1 = word.2.length := by
  obtain ⟨bits, inside, found⟩ :=
    @lookup_recordAll_of_mem codebook words word.1 (List.mem_map_of_mem member)
  have same : bits = word.2 := congrArg Prod.snd (List.inj_on_of_nodup_map distinct inside member rfl)
  simp only [getCodeLength, found, CodeEntry.ofBits, same]

/-- The recursion terminates, as each call is on a shorter non-empty range; every split is the
most even one its range allows; and the codes of the symbols extend the code passed in and fill
exactly the space below it. -/
theorem shannonFanoEncode_balanced (symbols : List (Nat × Nat)) (code : List Bool)
    (codebook : HuffmanCodebook) (positive : ∀ p ∈ symbols, 1 ≤ p.2) (fits : (symbols.map Prod.snd).sum < 2 ^ 62) :
    (∀ range, EncodedRange symbols range → 3 ≤ range.length →
      (∀ code codebook, shannonFanoEncode range code codebook =
        shannonFanoEncode (rightPart range) (code ++ [true])
          (shannonFanoEncode (leftPart range) (code ++ [false]) codebook)) ∧
      (leftPart range ≠ [] ∧ (leftPart range).length < range.length) ∧
      (rightPart range ≠ [] ∧ (rightPart range).length < range.length) ∧
      ∀ count, 0 < count → count < range.length →
        partsGap range (leftPart range).length ≤ partsGap range count) ∧
    ∃ words, shannonFanoEncode symbols code codebook = codebook.recordAll words ∧
      RangeCodes symbols code words ∧
      (∀ s, s ∉ symbols.map Prod.fst →
        (shannonFanoEncode symbols code codebook).codes.lookup s = codebook.codes.lookup s) ∧
      (∀ s ∈ symbols.map Prod.fst, ∃ bits, (s, bits) ∈ words ∧
        (shannonFanoEncode symbols code codebook).codes.lookup s = some (.ofBits bits)) ∧
      ((symbols.map Prod.fst).Nodup → 2 ≤ symbols.length →
        kraftSum (symbols.map fun p => (shannonFanoEncode symbols code codebook).getCodeLength p.1) =
          (1 / 2) ^ code.length) := by
  constructor
  · intro range reached long
    obtain ⟨left, leftShorter, right, rightShorter⟩ := parts_shorter (show 2 ≤ range.length by omega)
    have part := reached.isInfix.sublist
    have partFits : (range.map Prod.snd).sum < 2 ^ 63 :=
      ((part.map Prod.snd).sum_le_sum (by simp)).trans_lt (fits.trans (by decide))
    have count : (leftPart range).length = splitPoint range + 1 :=
      List.length_take_of_le (splitPoint_lt (show 2 ≤ range.length by omega)).le
    refine ⟨shannonFanoEncode_split long, ⟨left, leftShorter⟩, ⟨right, rightShorter⟩, ?_⟩
    rw [count]
    exact splitPoint_minimal (by omega) (fun p member => positive p (part.subset member)) partFits
  · obtain ⟨words, recorded, codes⟩ := shannonFanoEncode_rangeCodes symbols code codebook
    refine ⟨words, recorded, codes, ?_, ?_, ?_⟩
    · intro s absent
      rw [recorded]
      exact lookup_recordAll_of_notMem (codes.symbols ▸ absent)
    · intro s listed
      rw [recorded]
      exact lookup_recordAll_of_mem (codes.symbols ▸ listed)
    · intro distinct long
      rw [← codes.kraft (List.ne_nil_of_length_pos (by omega)), recorded]
      have symbolLengths := congrArg (List.map (codebook.recordAll words).getCodeLength) codes.symbols
      rw [List.map_map, List.map_map] at symbolLengths
      refine congrArg kraftSum (symbolLengths.symm.trans (List.map_congr_left fun word member => ?_))
      exact getCodeLength_recordAll (codes.symbols ▸ distinct) member

theorem shannonFanoEncode_balanced_sample :
    let symbols := [(3, 5), (1, 3), (8, 3), (6, 1)]
    (∀ range, EncodedRange symbols range → 3 ≤ range.length →
      (∀ code codebook, shannonFanoEncode range code codebook =
        shannonFanoEncode (rightPart range) (code ++ [true])
          (shannonFanoEncode (leftPart range) (code ++ [false]) codebook)) ∧
      (leftPart range ≠ [] ∧ (leftPart range).length < range.length) ∧
      (rightPart range ≠ [] ∧ (rightPart range).length < range.length) ∧
      ∀ count, 0 < count → count < range.length →
        partsGap range (leftPart range).length ≤ partsGap range count) ∧
    ∃ words, shannonFanoEncode symbols [] sample = sample.recordAll words ∧
      RangeCodes symbols [] words ∧
      (∀ s, s ∉ symbols.map Prod.fst →
        (shannonFanoEncode symbols [] sample).codes.lookup s = sample.codes.lookup s) ∧
      (∀ s ∈ symbols.map Prod.fst, ∃ bits, (s, bits) ∈ words ∧
        (shannonFanoEncode symbols [] sample).codes.lookup s = some (.ofBits bits)) ∧
      ((symbols.map Prod.fst).Nodup → 2 ≤ symbols.length →
        kraftSum (symbols.map fun p => (shannonFanoEncode symbols [] sample).getCodeLength p.1) =
          (1 / 2) ^ ([] : List Bool).length) :=
  shannonFanoEncode_balanced [(3, 5), (1, 3), (8, 3), (6, 1)] [] sample (by decide) (by decide)

end GpgpuSim.Huffman.HuffmanCodebook
