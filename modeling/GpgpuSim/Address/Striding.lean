import GpgpuSim.Address.Hashing
import GpgpuSim.Words.Remainders
import Mathlib.Data.Set.Function
import Mathlib.Order.Interval.Set.Defs

/-! The equations of `ipoly_hash_function` take the remainder of an address modulo an irreducible polynomial, so a
power-of-two stride meets every bank once. -/
namespace GpgpuSim.Address
open Words

/-- The polynomial that the equations for so many banks come from. -/
def ipolyPolynomial : Nat → Nat
  | 16 => 0b10011
  | 32 => 0b100101
  | 64 => 0b1000011
  | _ => 0

/-- How many of the higher bits the equations read. -/
def modelledBits : Nat → Nat
  | 16 => 13
  | 32 => 15
  | 64 => 19
  | _ => 0

/-- The hash of an address whose low bits are the index. -/
def ipolyBank (bankSetNum address : Nat) : Except AddrdecFault Nat :=
  ipolyHashFunction (address / bankSetNum) (address % bankSetNum) bankSetNum

variable {a b base bankSetNum n : Nat} {taps : List (List Nat)}

theorem tapped_foldl (taps : List Nat) (p q : Bool) :
    taps.foldl (fun parity i => parity ^^ (a ^^^ b).testBit i) (p ^^ q) =
      (taps.foldl (fun parity i => parity ^^ a.testBit i) p ^^
        taps.foldl (fun parity i => parity ^^ b.testBit i) q) := by
  induction taps generalizing p q with
  | nil => rfl
  | cons i rest ih =>
      simp only [List.foldl_cons]
      rw [← ih, Nat.testBit_xor, Bool.xor_assoc, Bool.xor_assoc, Bool.xor_left_comm q]

theorem tapped_xor (taps : List Nat) : tapped (a ^^^ b) taps = (tapped a taps ^^ tapped b taps) :=
  tapped_foldl taps false false

def bankWord (taps : List (List Nat)) (address : Nat) : Nat :=
  newIndex taps (address / 2 ^ taps.length) (address % 2 ^ taps.length)

theorem bankWord_additive : Additive (bankWord taps) := by
  intro a b
  apply Nat.eq_of_testBit_eq
  intro j
  rw [Nat.testBit_xor]
  by_cases inside : j < taps.length
  · simp only [bankWord, newIndex, Nat.testBit_ofBits_lt _ _ inside, Nat.xor_div_two_pow, Nat.xor_mod_two_pow,
      tapped_xor, Nat.testBit_xor, Bool.xor_assoc, Bool.xor_left_comm]
  · simp only [bankWord, newIndex, Nat.testBit_ofBits_ge _ _ (Nat.not_lt.mp inside), Bool.xor_self]

theorem bankWord_small (zero : newIndex taps 0 0 = 0) (small : a < 2 ^ taps.length) : bankWord taps a = a := by
  rw [bankWord, Nat.div_eq_of_lt small, Nat.mod_eq_of_lt small, newIndex_eq_xor, zero, Nat.xor_zero,
    Nat.mod_eq_of_lt small]

theorem ipolyTaps_length (given : ipolyTaps bankSetNum = some taps) : 2 ^ taps.length = bankSetNum := by
  obtain ⟨taps', given', size⟩ := ipolyTaps_of_banks (banks_of_ipolyTaps given)
  obtain rfl := Option.some.inj (given.symm.trans given')
  exact size

theorem ipolyTaps_bits (banks : IpolyBanks bankSetNum) : ∀ k < bankSetNum.log2 + modelledBits bankSetNum - 1,
    bankWord ((ipolyTaps bankSetNum).getD []) (2 ^ (k + 1)) =
      shiftMod (ipolyPolynomial bankSetNum) bankSetNum.log2 (bankWord ((ipolyTaps bankSetNum).getD []) (2 ^ k)) := by
  rcases banks with rfl | rfl | rfl <;> decide

/-- The equations are those of the polynomial. -/
theorem ipolyTaps_reduces (banks : IpolyBanks bankSetNum) (given : ipolyTaps bankSetNum = some taps) :
    Reduces (bankWord taps) (ipolyPolynomial bankSetNum) taps.length (taps.length + modelledBits bankSetNum) := by
  have size := ipolyTaps_length given
  have bits := ipolyTaps_bits banks
  have zero := ipolyOffset_zero banks
  rw [given, Option.getD_some, ← size, Nat.log2_two_pow, size] at bits
  rw [ipolyOffset, given] at zero
  exact ⟨bankWord_additive, fun a small => bankWord_small zero small, fun k below => bits k (by omega)⟩

theorem ipolyPolynomial_odd (banks : IpolyBanks bankSetNum) : (ipolyPolynomial bankSetNum).testBit 0 = true := by
  rcases banks with rfl | rfl | rfl <;> decide

theorem ipolyBank_eq (given : ipolyTaps bankSetNum = some taps) (address : Nat) :
    ipolyBank bankSetNum address = .ok (bankWord taps address) := by
  rw [ipolyBank, ipolyHashFunction, given, bankWord, ipolyTaps_length given]

/-- The hash permutes the index, and a power-of-two stride within the bits that it reads meets no bank twice. -/
theorem ipolyHashFunction_conflict_free (banks : IpolyBanks bankSetNum) :
    (∀ higherBits, ∃ bank : Nat → Nat,
      (∀ index < bankSetNum, ipolyHashFunction higherBits index bankSetNum = .ok (bank index)) ∧
      Set.BijOn bank (Set.Iio bankSetNum) (Set.Iio bankSetNum)) ∧
    ∀ n, n + bankSetNum.log2 ≤ bankSetNum.log2 + modelledBits bankSetNum → ∀ base,
      (∀ j < bankSetNum.log2, base.testBit (n + j) = false) → ∃ bank : Nat → Nat,
        (∀ i < bankSetNum, ipolyBank bankSetNum (base + i * 2 ^ n) = .ok (bank i)) ∧
        Set.InjOn bank (Set.Iio bankSetNum) := by
  constructor
  · intro higherBits
    refine ⟨fun index => index ^^^ ipolyOffset higherBits bankSetNum, fun index small =>
      ipolyHashFunction_eq banks small, ?_⟩
    have into : Set.MapsTo (fun index => index ^^^ ipolyOffset higherBits bankSetNum) (Set.Iio bankSetNum)
        (Set.Iio bankSetNum) := fun index small => by
      obtain ⟨w, rfl, -⟩ := banks.two_pow
      exact Nat.xor_lt_two_pow small (ipolyOffset_lt banks)
    have back : Set.LeftInvOn (fun index => index ^^^ ipolyOffset higherBits bankSetNum)
        (fun index => index ^^^ ipolyOffset higherBits bankSetNum) (Set.Iio bankSetNum) := fun index _ =>
      Nat.xor_xor_cancel_right ..
    exact Set.InvOn.bijOn ⟨back, back⟩ into into
  · intro n inside base clear
    obtain ⟨taps, given, size⟩ := ipolyTaps_of_banks banks
    refine ⟨fun i => bankWord taps (base + i * 2 ^ n), fun i _ => ipolyBank_eq given _, fun i first k second same => ?_⟩
    rw [← size, Nat.log2_two_pow] at clear inside
    rw [size] at inside
    rw [← size] at first second
    exact (ipolyTaps_reduces banks given).window_injective (ipolyPolynomial_odd banks)
      (by omega) clear first second same

/-- Sixteen banks and a stride across the index and the higher bits. -/
theorem ipolyHashFunction_conflict_free_sixteen : ∃ bank : Nat → Nat,
    (∀ i < 16, ipolyBank 16 (1 + i * 2 ^ 3) = .ok (bank i)) ∧ Set.InjOn bank (Set.Iio 16) :=
  (ipolyHashFunction_conflict_free (.inl rfl)).2 3 (by decide) 1 (by decide)

end GpgpuSim.Address
