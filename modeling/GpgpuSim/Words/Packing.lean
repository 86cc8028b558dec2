import Mathlib.Data.Nat.Bitwise
import Mathlib.Data.Nat.Digits.Defs

/-! Bits gathered from scattered positions of a word into the low bits of another,
one position after the other. -/
namespace Words

/-- One step of a loop that gathers the bits of `word` at the positions of `mask`. -/
def gatherStep (mask word : Nat) (state : Nat × Nat) (i : Nat) : Nat × Nat :=
  if mask &&& 2 ^ i ≠ 0 then
    (state.1 + 1, state.2 ||| ((word &&& 2 ^ i) >>> i) <<< state.1)
  else state

end Words
