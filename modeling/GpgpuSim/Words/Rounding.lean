import Mathlib.Algebra.Order.Field.Rat
import Mathlib.Data.Int.Log
import Mathlib.Data.Rat.Floor

/-! Rounding of rationals to a number of significant bits: to the nearest, and of two that are as near to the even
one. The exponent has no bounds. -/
namespace Words

def nearestEven (x : ℚ) : ℤ :=
  if x - ⌊x⌋ < 1 / 2 then ⌊x⌋
  else if 1 / 2 < x - ⌊x⌋ then ⌊x⌋ + 1
  else if ⌊x⌋ % 2 = 0 then ⌊x⌋ else ⌊x⌋ + 1

/-- What the last of `bits` significant bits of `x` stands for. -/
def lastPlace (bits : ℕ) (x : ℚ) : ℚ := 2 ^ (Int.log 2 x + 1 - bits)

def roundPositive (bits : ℕ) (x : ℚ) : ℚ := nearestEven (x / lastPlace bits x) * lastPlace bits x

def roundTo (bits : ℕ) (x : ℚ) : ℚ := if x < 0 then -roundPositive bits (-x) else roundPositive bits x

theorem nearestEven_intCast (n : ℤ) : nearestEven n = n := by
  simp [nearestEven]

theorem nearestEven_bounds (x : ℚ) : ⌊x⌋ ≤ nearestEven x ∧ nearestEven x ≤ ⌊x⌋ + 1 := by
  unfold nearestEven
  split_ifs <;> omega

theorem nearestEven_mono {x y : ℚ} (le : x ≤ y) : nearestEven x ≤ nearestEven y := by
  rcases (Int.floor_mono le).lt_or_eq with apart | same
  · -- the integer above `x` is not above `y`
    have := (nearestEven_bounds x).2
    have := (nearestEven_bounds y).1
    omega
  · unfold nearestEven
    rw [same]
    split_ifs <;> first | omega | linarith

variable {bits : ℕ} {x y : ℚ}

theorem lastPlace_pos (bits : ℕ) (x : ℚ) : 0 < lastPlace bits x := zpow_pos (by norm_num) _

/-- A power of two that is a number of last places is an integer number of them. -/
theorem zpow_div_lastPlace {k : ℤ} (whole : Int.log 2 x + 1 - bits ≤ k) :
    ∃ n : ℤ, (2 : ℚ) ^ k = n * lastPlace bits x := by
  refine ⟨2 ^ (k - (Int.log 2 x + 1 - bits)).toNat, ?_⟩
  push_cast
  rw [← zpow_natCast, Int.toNat_of_nonneg (by omega), lastPlace, ← zpow_add₀ (by norm_num)]
  congr 1
  omega

theorem roundPositive_le {k : ℤ} (whole : Int.log 2 x + 1 - bits ≤ k) (below : x ≤ 2 ^ k) :
    roundPositive bits x ≤ 2 ^ k := by
  obtain ⟨n, power⟩ := zpow_div_lastPlace whole
  have place := lastPlace_pos bits x
  rw [power] at below ⊢
  have rounded := nearestEven_mono ((div_le_iff₀ place).mpr below)
  rw [nearestEven_intCast] at rounded
  exact mul_le_mul_of_nonneg_right (by exact_mod_cast rounded) place.le

theorem le_roundPositive {k : ℤ} (whole : Int.log 2 x + 1 - bits ≤ k) (above : 2 ^ k ≤ x) :
    2 ^ k ≤ roundPositive bits x := by
  obtain ⟨n, power⟩ := zpow_div_lastPlace whole
  have place := lastPlace_pos bits x
  rw [power] at above ⊢
  have rounded := nearestEven_mono ((le_div_iff₀ place).mpr above)
  rw [nearestEven_intCast] at rounded
  exact mul_le_mul_of_nonneg_right (by exact_mod_cast rounded) place.le

/-- Across a power of two numbers are kept apart by it, and below the next one their last places are the same. -/
theorem roundPositive_mono (some : 1 ≤ bits) (positive : 0 < x) (le : x ≤ y) :
    roundPositive bits x ≤ roundPositive bits y := by
  have logs : Int.log 2 x ≤ Int.log 2 y := Int.log_mono_right positive le
  rcases logs.lt_or_eq with apart | same
  · have upper : x ≤ 2 ^ (Int.log 2 x + 1) := by exact_mod_cast (Int.lt_zpow_succ_log_self (by norm_num) x).le
    have lower : (2 : ℚ) ^ Int.log 2 y ≤ y := by
      exact_mod_cast Int.zpow_log_le_self (b := 2) (by norm_num) (positive.trans_le le)
    calc roundPositive bits x ≤ 2 ^ (Int.log 2 x + 1) := roundPositive_le (by omega) upper
      _ ≤ 2 ^ Int.log 2 y := zpow_le_zpow_right₀ (by norm_num) apart
      _ ≤ roundPositive bits y := le_roundPositive (by omega) lower
  · have place : lastPlace bits x = lastPlace bits y := by rw [lastPlace, same, lastPlace]
    rw [roundPositive, roundPositive, place]
    refine mul_le_mul_of_nonneg_right ?_ (lastPlace_pos bits y).le
    exact_mod_cast nearestEven_mono (div_le_div_of_nonneg_right le (lastPlace_pos bits y).le)

@[simp] theorem roundPositive_zero : roundPositive bits 0 = 0 := by
  simp [roundPositive, nearestEven]

theorem roundPositive_nonneg (positive : 0 < x) (some : 1 ≤ bits) : 0 ≤ roundPositive bits x := by
  have lower : (2 : ℚ) ^ Int.log 2 x ≤ x := by exact_mod_cast Int.zpow_log_le_self (b := 2) (by norm_num) positive
  exact (zpow_pos (by norm_num) _).le.trans (le_roundPositive (by omega) lower)

theorem roundTo_mono (some : 1 ≤ bits) : Monotone (roundTo bits) := by
  have whole {x y : ℚ} (nonneg : 0 ≤ x) (le : x ≤ y) : roundPositive bits x ≤ roundPositive bits y := by
    rcases nonneg.eq_or_lt with rfl | positive
    · rw [roundPositive_zero]
      rcases le.eq_or_lt with rfl | positive
      · rw [roundPositive_zero]
      · exact roundPositive_nonneg positive some
    · exact roundPositive_mono some positive le
  intro x y le
  unfold roundTo
  split_ifs with negative negative'
  · exact neg_le_neg (whole (by linarith) (by linarith))
  · have left := whole le_rfl (show 0 ≤ -x by linarith)
    have right := whole le_rfl (show 0 ≤ y by linarith)
    rw [roundPositive_zero] at left right
    linarith
  · linarith
  · exact whole (by linarith) le

theorem roundTo_zpow (some : 1 ≤ bits) (k : ℤ) : roundTo bits (2 ^ k) = 2 ^ k := by
  have positive : (0 : ℚ) < 2 ^ k := zpow_pos (by norm_num) k
  have log : Int.log 2 ((2 : ℚ) ^ k) = k := by exact_mod_cast Int.log_zpow (R := ℚ) (b := 2) (by norm_num) k
  rw [roundTo, if_neg positive.le.not_gt]
  exact le_antisymm (roundPositive_le (by omega) le_rfl) (le_roundPositive (by omega) le_rfl)

end Words
