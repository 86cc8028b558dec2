import Mathlib.Data.Nat.Bitwise

/-! The hash functions of partition indexing. Each one changes a bank index by an
exclusive or with bits that depend on the rest of the address alone. -/
namespace GpgpuSim.Address

inductive AddrdecFault
  | assertion
  /-- A shift or a subtraction outside the range of its type. -/
  | undefined
  deriving DecidableEq, Repr

def bitwiseHashFunction (higherBits index bankSetNum : Nat) : Nat :=
  (index ^^^ (higherBits &&& (bankSetNum - 1))) % 2 ^ 32

/-- For each bit of the new index, the bits of the higher part that go into it. -/
def ipolyTaps : Nat → Option (List (List Nat))
  | 16 => some [
      [11, 10, 9, 8, 6, 4, 3, 0],
      [12, 8, 7, 6, 5, 3, 1, 0],
      [9, 8, 7, 6, 4, 2, 1],
      [10, 9, 8, 7, 5, 3, 2]]
  | 32 => some [
      [13, 12, 11, 10, 9, 6, 5, 3, 0],
      [14, 13, 12, 11, 10, 7, 6, 4, 1],
      [14, 10, 9, 8, 7, 6, 3, 2, 0],
      [11, 10, 9, 8, 7, 4, 3, 1],
      [12, 11, 10, 9, 8, 5, 4, 2]]
  | 64 => some [
      [18, 17, 16, 15, 12, 10, 6, 5, 0],
      [15, 13, 12, 11, 10, 7, 5, 1, 0],
      [16, 14, 13, 12, 11, 8, 6, 2, 1],
      [17, 15, 14, 13, 12, 9, 7, 3, 2],
      [18, 16, 15, 14, 13, 10, 8, 4, 3],
      [17, 16, 15, 14, 11, 9, 5, 4]]
  | _ => none

def tapped (higherBits : Nat) (taps : List Nat) : Bool :=
  taps.foldl (fun parity i => parity ^^ higherBits.testBit i) false

/-- `new_index`, bit by bit. -/
def newIndex (taps : List (List Nat)) (higherBits index : Nat) : Nat :=
  Nat.ofBits fun j : Fin taps.length => tapped higherBits (taps.get j) ^^ index.testBit j

def ipolyHashFunction (higherBits index bankSetNum : Nat) : Except AddrdecFault Nat :=
  match ipolyTaps bankSetNum with
  | some taps => .ok (newIndex taps higherBits index)
  | none => .error .assertion

/-- The number of banks that the equations are given for. -/
def IpolyBanks (bankSetNum : Nat) : Prop := bankSetNum = 16 ∨ bankSetNum = 32 ∨ bankSetNum = 64

/-- What the hash does to every index: its value at index zero. -/
def ipolyOffset (higherBits bankSetNum : Nat) : Nat :=
  match ipolyTaps bankSetNum with
  | some taps => newIndex taps higherBits 0
  | none => 0

variable {higherBits index bankSetNum : Nat}

theorem newIndex_lt (taps : List (List Nat)) (higherBits index : Nat) :
    newIndex taps higherBits index < 2 ^ taps.length :=
  Nat.ofBits_lt_two_pow _

theorem newIndex_eq_xor (taps : List (List Nat)) (higherBits index : Nat) :
    newIndex taps higherBits index = index % 2 ^ taps.length ^^^ newIndex taps higherBits 0 := by
  apply Nat.eq_of_testBit_eq
  intro j
  rw [Nat.testBit_xor, Nat.testBit_mod_two_pow]
  by_cases inside : j < taps.length
  · simp [newIndex, Nat.testBit_ofBits_lt _ _ inside, inside, Bool.xor_comm]
  · simp [newIndex, Nat.testBit_ofBits_ge _ _ (Nat.not_lt.mp inside), inside]

theorem ipolyTaps_of_banks (banks : IpolyBanks bankSetNum) :
    ∃ taps, ipolyTaps bankSetNum = some taps ∧ 2 ^ taps.length = bankSetNum := by
  rcases banks with rfl | rfl | rfl
  · exact ⟨_, rfl, rfl⟩
  · exact ⟨_, rfl, rfl⟩
  · exact ⟨_, rfl, rfl⟩

theorem banks_of_ipolyTaps {taps : List (List Nat)} (given : ipolyTaps bankSetNum = some taps) :
    IpolyBanks bankSetNum := by
  unfold ipolyTaps at given
  split at given
  · exact .inl rfl
  · exact .inr (.inl rfl)
  · exact .inr (.inr rfl)
  · contradiction

theorem ipolyHashFunction_eq (banks : IpolyBanks bankSetNum) (small : index < bankSetNum) :
    ipolyHashFunction higherBits index bankSetNum =
      .ok (index ^^^ ipolyOffset higherBits bankSetNum) := by
  obtain ⟨taps, given, size⟩ := ipolyTaps_of_banks banks
  rw [ipolyHashFunction, ipolyOffset, given]
  dsimp only
  rw [newIndex_eq_xor, size, Nat.mod_eq_of_lt small]

theorem ipolyOffset_lt (banks : IpolyBanks bankSetNum) :
    ipolyOffset higherBits bankSetNum < bankSetNum := by
  obtain ⟨taps, given, size⟩ := ipolyTaps_of_banks banks
  rw [ipolyOffset, given]
  exact size ▸ newIndex_lt taps higherBits 0

/-- Without a higher part the index stays as it is. -/
theorem ipolyOffset_zero (banks : IpolyBanks bankSetNum) : ipolyOffset 0 bankSetNum = 0 := by
  rcases banks with rfl | rfl | rfl <;> rfl

theorem IpolyBanks.two_pow (banks : IpolyBanks bankSetNum) : ∃ w, bankSetNum = 2 ^ w ∧ w ≤ 6 := by
  rcases banks with rfl | rfl | rfl
  · exact ⟨4, rfl, by decide⟩
  · exact ⟨5, rfl, by decide⟩
  · exact ⟨6, rfl, by decide⟩

end GpgpuSim.Address
