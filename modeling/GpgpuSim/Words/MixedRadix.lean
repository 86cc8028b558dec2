import Mathlib.Algebra.BigOperators.Group.List.Basic
import Mathlib.Algebra.Order.Group.Nat

/-! Numbers written with a base of its own for each digit, the lowest digit first; the highest digit
has no base. -/
namespace Words

/-- The number with these `(digit, base)` pairs below its highest digit. -/
def mixedRadix (low : List (Nat × Nat)) (high : Nat) : Nat := low.foldr (fun p rest => p.1 + p.2 * rest) high

variable {low low' : List (Nat × Nat)} {high high' bound n b : Nat}

@[simp] theorem mixedRadix_nil : mixedRadix [] high = high := rfl

@[simp] theorem mixedRadix_cons (p : Nat × Nat) (low : List (Nat × Nat)) (high : Nat) :
    mixedRadix (p :: low) high = p.1 + p.2 * mixedRadix low high := rfl

/-- Different digits make different numbers. -/
theorem mixedRadix_inj (digits : ∀ p ∈ low, p.1 < p.2) (digits' : ∀ p ∈ low', p.1 < p.2)
    (bases : low.map Prod.snd = low'.map Prod.snd) (same : mixedRadix low high = mixedRadix low' high') :
    low = low' ∧ high = high' := by
  induction low generalizing low' with
  | nil =>
      obtain rfl : low' = [] := by simpa using bases.symm
      exact ⟨rfl, same⟩
  | cons p low ih =>
      cases low' with
      | nil => simp at bases
      | cons q low' =>
          obtain ⟨base, bases⟩ :=
            List.cons.inj (by simpa using bases : p.2 :: low.map Prod.snd = q.2 :: low'.map Prod.snd)
          have small := digits p (by simp)
          have small' := digits' q (by simp)
          rw [mixedRadix_cons, mixedRadix_cons, base] at same
          have lowest : p.1 = q.1 := by
            have remainder := congrArg (· % q.2) same
            simpa [Nat.add_mul_mod_self_left, Nat.mod_eq_of_lt small', Nat.mod_eq_of_lt (base ▸ small)] using remainder
          have rest : mixedRadix low high = mixedRadix low' high' := by
            rw [lowest] at same
            exact Nat.eq_of_mul_eq_mul_left (Nat.zero_lt_of_lt small') (Nat.add_left_cancel same)
          obtain ⟨rfl, rfl⟩ := ih (fun r member => digits r (by simp [member]))
            (fun r member => digits' r (by simp [member])) bases rest
          exact ⟨by rw [Prod.ext lowest base], rfl⟩

theorem mixedRadix_lt (low : List (Nat × Nat)) (digits : ∀ p ∈ low, p.1 < p.2) (top : high < bound) :
    mixedRadix low high < (low.map Prod.snd).prod * bound := by
  induction low with
  | nil => simpa using top
  | cons p low ih =>
      have small := digits p (by simp)
      have inside := ih fun r member => digits r (by simp [member])
      calc mixedRadix (p :: low) high < p.2 + p.2 * mixedRadix low high := Nat.add_lt_add_right small _
        _ = p.2 * (mixedRadix low high + 1) := by rw [Nat.mul_add, Nat.mul_one, Nat.add_comm]
        _ ≤ p.2 * ((low.map Prod.snd).prod * bound) := Nat.mul_le_mul_left _ inside
        _ = ((p :: low).map Prod.snd).prod * bound := by rw [List.map_cons, List.prod_cons, Nat.mul_assoc]

/-- Counting on moves to the next digit when the lowest one is full. -/
theorem succ_mod_div (positive : 0 < b) :
    (n % b + 1 < b ∧ (n + 1) % b = n % b + 1 ∧ (n + 1) / b = n / b) ∨
      (n % b + 1 = b ∧ (n + 1) % b = 0 ∧ (n + 1) / b = n / b + 1) := by
  have whole := Nat.div_add_mod n b
  have small := Nat.mod_lt n positive
  by_cases full : n % b + 1 = b
  · have next : n + 1 = b * (n / b + 1) := by
      rw [Nat.mul_add, Nat.mul_one]
      omega
    exact .inr ⟨full, by rw [next, Nat.mul_mod_right], by rw [next, Nat.mul_div_cancel_left _ positive]⟩
  · have room : n % b + 1 < b := by omega
    have next : n + 1 = n % b + 1 + b * (n / b) := by omega
    refine .inl ⟨room, ?_, ?_⟩
    · rw [next, Nat.add_mul_mod_self_left, Nat.mod_eq_of_lt room]
    · rw [next, Nat.add_mul_div_left _ _ positive, Nat.div_eq_of_lt room, Nat.zero_add]

/-- The digits of a number in two bases and a rest. -/
theorem mixedRadix_digits (n b c : Nat) : mixedRadix [(n % b, b), (n / b % c, c)] (n / b / c) = n := by
  rw [mixedRadix_cons, mixedRadix_cons, mixedRadix_nil, Nat.mod_add_div, Nat.mod_add_div]

end Words
