import Mathlib.Data.List.Basic

/-! Countdown timers. A timer that is set to a period at an event, and counts down
once per unit of time, is zero only when the period has passed since every event. -/
namespace Transition

variable {ε : Type*} {stamp : ε → Nat} {P : ε → Prop} {period now value : Nat} {trace more : List ε}

/-- What is left of the period after each event of the trace is still to be counted. -/
def Covers (stamp : ε → Nat) (P : ε → Prop) (period now value : Nat) (trace : List ε) : Prop :=
  ∀ e ∈ trace, P e → stamp e + period ≤ now + value

namespace Covers

theorem nil : Covers stamp P period now value [] := by
  intro e mem
  contradiction

theorem tick (covers : Covers stamp P period now value trace) :
    Covers stamp P period (now + 1) (value - 1) trace := by
  intro e mem holds
  have bound := covers e mem holds
  omega

/-- Time may pass without the timer counting. -/
theorem wait (covers : Covers stamp P period now value trace) : Covers stamp P period
    (now + 1) value trace := by
  intro e mem holds
  have bound := covers e mem holds
  omega

theorem elapsed (covers : Covers stamp P period now 0 trace) {e : ε} (mem : e ∈ trace) (holds : P e) :
    stamp e + period ≤ now :=
  covers e mem holds

theorem restart (past : ∀ e ∈ trace ++ more, stamp e ≤ now) :
    Covers stamp P period now period (trace ++ more) := by
  intro e mem _
  have bound := past e mem
  omega

/-- Events that do not set the timer. -/
theorem other (covers : Covers stamp P period now value trace) (none : ∀ e ∈ more, ¬ P e) :
    Covers stamp P period now value (trace ++ more) := by
  intro e mem holds
  rcases List.mem_append.mp mem with old | new
  · exact covers e old holds
  · exact absurd holds (none e new)

end Covers

end Transition
