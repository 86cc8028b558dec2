import Mathlib.Data.Nat.Bitwise
import Mathlib.Logic.Function.Iterate

/-! Words as polynomials over two elements: exclusive or adds them, and a hash that takes remainders modulo a
polynomial separates the words of any window of bits. -/
namespace Words

variable {a b base degree poly n m : Nat} {f g : Nat → Nat}

/-- Words with no bit in common add without carries. -/
theorem add_eq_xor (apart : a &&& b = 0) : a + b = a ^^^ b := by
  induction a using Nat.strongRecOn generalizing b with
  | ind a ih =>
      rcases Nat.eq_zero_or_pos a with rfl | positive
      · rw [Nat.zero_add, Nat.zero_xor]
      · have halves : a / 2 + b / 2 = (a ^^^ b) / 2 := by
          rw [Nat.xor_div_two]
          exact ih (a / 2) (by omega) (by rw [← Nat.and_div_two, apart])
        have lowest := @Nat.xor_mod_two_eq a b
        have not_both : ¬ (a % 2 = 1 ∧ b % 2 = 1) := by
          rw [← Nat.and_mod_two_eq_one, apart]
          decide
        omega

/-! ## Linear functions -/

/-- Exclusive or goes through the function. -/
def Additive (f : Nat → Nat) : Prop := ∀ a b, f (a ^^^ b) = f a ^^^ f b

theorem Additive.zero (additive : Additive f) : f 0 = 0 := by
  have twice := additive 0 0
  rwa [Nat.xor_self, Nat.xor_self] at twice

theorem Additive.comp (outer : Additive f) (inner : Additive g) : Additive (f ∘ g) := by
  intro a b
  simp only [Function.comp_apply, inner a b, outer (g a) (g b)]

/-- A linear function is known by its values at single bits. -/
theorem Additive.ext (left : Additive f) (right : Additive g) (bits : ∀ k < m, f (2 ^ k) = g (2 ^ k))
    (small : a < 2 ^ m) : f a = g a := by
  induction m generalizing a with
  | zero =>
      obtain rfl : a = 0 := by omega
      rw [left.zero, right.zero]
  | succ m ih =>
      have lower : ∀ a < 2 ^ m, f a = g a := fun a small => ih (fun k below => bits k (by omega)) small
      by_cases fits : a < 2 ^ m
      · exact lower a fits
      · have top : a = (a - 2 ^ m) ^^^ 2 ^ m := by
          rw [← add_eq_xor, Nat.sub_add_cancel (Nat.not_lt.mp fits)]
          apply Nat.eq_of_testBit_eq
          intro i
          rw [Nat.testBit_and, Nat.testBit_two_pow, Nat.zero_testBit]
          by_cases here : m = i
          · subst here
            rw [Nat.testBit_lt_two_pow (by rw [Nat.pow_succ] at small; omega), Bool.false_and]
          · simp [here]
        rw [top, left, right, lower _ (by rw [Nat.pow_succ] at small; omega), bits m (by omega)]

/-! ## Remainders -/

/-- One more factor of the indeterminate, modulo a polynomial of this degree. -/
def shiftMod (poly degree v : Nat) : Nat :=
  if v.testBit (degree - 1) then (v <<< 1) ^^^ poly else v <<< 1

theorem testBit_shiftMod (v i : Nat) : (shiftMod poly degree v).testBit i =
    ((v <<< 1).testBit i ^^ (v.testBit (degree - 1) && poly.testBit i)) := by
  rw [shiftMod]
  split
  next top => rw [Nat.testBit_xor, top, Bool.true_and]
  next top => rw [Bool.eq_false_iff.mpr top, Bool.false_and, Bool.xor_false]

theorem shiftMod_additive : Additive (shiftMod poly degree) := by
  intro a b
  apply Nat.eq_of_testBit_eq
  intro i
  simp only [Nat.testBit_xor, testBit_shiftMod, Nat.shiftLeft_xor_distrib, Bool.and_xor_distrib_right,
    Bool.xor_assoc, Bool.xor_left_comm]

/-- A polynomial with a constant term has no factor of the indeterminate. -/
theorem shiftMod_injective (odd : poly.testBit 0 = true) : Function.Injective (shiftMod poly degree) := by
  intro u v same
  have tops : u.testBit (degree - 1) = v.testBit (degree - 1) := by
    have lowest := congrArg (fun word => word.testBit 0) same
    simpa only [testBit_shiftMod, odd, Nat.testBit_shiftLeft, show ¬ 0 ≥ 1 by omega, decide_false, Bool.false_and,
      Bool.and_true, Bool.false_xor] using lowest
  have shifted : u <<< 1 = v <<< 1 := by
    simp only [shiftMod, tops] at same
    split at same
    · exact Nat.xor_left_inj.mp same
    · exact same
  simp only [Nat.shiftLeft_eq] at shifted
  omega

/-- The hash of a word of so many bits is its remainder modulo the polynomial. -/
structure Reduces (f : Nat → Nat) (poly degree width : Nat) : Prop where
  additive : Additive f
  small : ∀ a < 2 ^ degree, f a = a
  bits : ∀ k, k + 1 < width → f (2 ^ (k + 1)) = shiftMod poly degree (f (2 ^ k))

variable {width : Nat}

theorem Reduces.shift (reduces : Reduces f poly degree width) (small : a < 2 ^ (width - 1)) :
    f (a <<< 1) = shiftMod poly degree (f a) := by
  have doubled : Additive fun a => f (a <<< 1) := fun a b => by
    dsimp only
    rw [Nat.shiftLeft_xor_distrib, reduces.additive]
  refine doubled.ext (shiftMod_additive.comp reduces.additive) (fun k below => ?_) small
  simp only [Function.comp_apply, ← reduces.bits k (by omega), Nat.shiftLeft_eq, Nat.pow_succ]

theorem Reduces.window (reduces : Reduces f poly degree width) (inside : n + degree ≤ width) (small : a < 2 ^ degree) :
    f (a <<< n) = (shiftMod poly degree)^[n] a := by
  induction n with
  | zero => exact reduces.small a small
  | succ n ih =>
      have below : a <<< n < 2 ^ (width - 1) := by
        refine Nat.lt_of_lt_of_le ?_ (Nat.pow_le_pow_right (by decide) (show n + degree ≤ width - 1 by omega))
        rw [Nat.shiftLeft_eq, Nat.add_comm, Nat.pow_add]
        exact Nat.mul_lt_mul_of_pos_right small (Nat.two_pow_pos n)
      rw [Nat.shiftLeft_add, reduces.shift below, ih (by omega), Function.iterate_succ_apply']

/-- The words that differ in one window of bits alone have different remainders. -/
theorem Reduces.window_injective (reduces : Reduces f poly degree width) (odd : poly.testBit 0 = true)
    (inside : n + degree ≤ width) (clear : ∀ j < degree, base.testBit (n + j) = false) (first : a < 2 ^ degree)
    (second : b < 2 ^ degree) (same : f (base + a * 2 ^ n) = f (base + b * 2 ^ n)) : a = b := by
  have apart {i : Nat} (small : i < 2 ^ degree) : f (base + i * 2 ^ n) = f base ^^^ (shiftMod poly degree)^[n] i := by
    rw [← reduces.window inside small, ← reduces.additive, ← Nat.shiftLeft_eq, add_eq_xor]
    apply Nat.eq_of_testBit_eq
    intro j
    rw [Nat.testBit_and, Nat.testBit_shiftLeft, Nat.zero_testBit]
    by_cases low : j < n
    · simp [show ¬ n ≤ j by omega]
    · by_cases high : j - n < degree
      · have absent := clear (j - n) high
        rw [Nat.add_sub_cancel' (Nat.not_lt.mp low)] at absent
        rw [absent, Bool.false_and]
      · rw [Nat.testBit_lt_two_pow (Nat.lt_of_lt_of_le small (Nat.pow_le_pow_right (by decide) (Nat.not_lt.mp high))),
          Bool.and_false, Bool.and_false]
  rw [apart first, apart second, Nat.xor_right_inj] at same
  exact (shiftMod_injective odd).iterate n same

end Words
