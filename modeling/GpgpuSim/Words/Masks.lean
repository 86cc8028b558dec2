import Mathlib.Data.Nat.Bitwise

/-! Machine words as natural numbers and fixed-width bit sets: clearing the low
bits of a word, and setting positions one at a time. -/
namespace Words

/-- Clearing the low `k` bits of a word of `w` bits rounds it down to a multiple. -/
theorem and_two_pow_sub_two_pow (x : Nat) {k w : Nat} (fits : k ≤ w) :
    x &&& (2 ^ w - 2 ^ k) = x % 2 ^ w / 2 ^ k * 2 ^ k := by
  have low : 2 ^ k - 1 < 2 ^ w :=
    Nat.lt_of_lt_of_le (Nat.sub_lt (Nat.two_pow_pos k) Nat.one_pos) (Nat.pow_le_pow_right (by decide) fits)
  have mask : 2 ^ w - 2 ^ k = 2 ^ w - (2 ^ k - 1 + 1) := by
    rw [Nat.sub_add_cancel (Nat.two_pow_pos k)]
  apply Nat.eq_of_testBit_eq
  intro i
  rw [mask, Nat.testBit_and, Nat.testBit_two_pow_sub_succ low, Nat.testBit_two_pow_sub_one,
    Nat.testBit_mul_two_pow, Nat.testBit_div_two_pow, Nat.testBit_mod_two_pow]
  by_cases high : k ≤ i
  · simp [high, Nat.not_lt.mpr high, Bool.and_comm]
  · simp [high, Nat.lt_of_not_le high]

variable {w : Nat}

/-- `std::bitset::set`. -/
def setBit (mask : BitVec w) (i : Nat) : BitVec w := mask ||| BitVec.twoPow w i

theorem getLsbD_setBit (mask : BitVec w) (i j : Nat) :
    (setBit mask i).getLsbD j = true ↔ mask.getLsbD j = true ∨ (j = i ∧ i < w) := by
  simp only [setBit, BitVec.getLsbD_or, BitVec.getLsbD_twoPow, Bool.or_eq_true, Bool.and_eq_true,
    decide_eq_true_eq]
  constructor
  · rintro (kept | ⟨here, inside⟩)
    · exact .inl kept
    · exact .inr ⟨inside.symm, here⟩
  · rintro (kept | ⟨rfl, inside⟩)
    · exact .inl kept
    · exact .inr ⟨inside, rfl⟩

/-- The positions from `start` on, `count` of them. -/
def setRange (mask : BitVec w) (start count : Nat) : BitVec w :=
  (List.range count).foldl (fun mask i => setBit mask (start + i)) mask

theorem getLsbD_setRange (mask : BitVec w) (start count j : Nat) :
    (setRange mask start count).getLsbD j = true ↔
      mask.getLsbD j = true ∨ (start ≤ j ∧ j < start + count ∧ j < w) := by
  induction count with
  | zero =>
      simp only [setRange, List.range_zero, List.foldl_nil, iff_self_or]
      omega
  | succ count ih =>
      have unrolled : setRange mask start (count + 1) =
          setBit (setRange mask start count) (start + count) := by
        simp [setRange, List.range_succ]
      rw [unrolled, getLsbD_setBit, ih]
      constructor
      · rintro ((kept | inside) | inside)
        · exact .inl kept
        · exact .inr (by omega)
        · exact .inr (by omega)
      · rintro (kept | inside)
        · exact .inl (.inl kept)
        · by_cases last : j = start + count
          · exact .inr (by omega)
          · exact .inl (.inr (by omega))

end Words
