import Mathlib.Data.List.Basic

/-! A state that lags behind: the entries of a queue have been decided on already, and the state will take them one by
one, oldest first. -/
namespace Transition

variable {σ ε : Type*} {apply : σ → ε → σ} {ready : σ → ε → Prop} {Q R : σ → Prop} {s : σ} {queue : List ε} {e : ε}

/-- Each entry finds the state ready for it when its turn comes, and the last one leaves a state with `Q`. -/
def Replays (apply : σ → ε → σ) (ready : σ → ε → Prop) (Q : σ → Prop) : σ → List ε → Prop
  | s, [] => Q s
  | s, e :: queue => ready s e ∧ Replays apply ready Q (apply s e) queue

namespace Replays

/-- A new entry has to suit the state that the queue will leave. -/
theorem push (replays : Replays apply ready Q s queue) (suits : ∀ t, Q t → ready t e ∧ R (apply t e)) :
    Replays apply ready R s (queue ++ [e]) := by
  induction queue generalizing s with
  | nil => exact suits s replays
  | cons first queue ih => exact ⟨replays.1, ih replays.2⟩

/-- Only what the entries of the queue do matters. -/
theorem congr {apply' : σ → ε → σ} {ready' : σ → ε → Prop} (replays : Replays apply ready Q s queue)
    (same_apply : ∀ e ∈ queue, ∀ s, apply' s e = apply s e) (same_ready : ∀ e ∈ queue, ∀ s, ready s e → ready' s e) :
    Replays apply' ready' Q s queue := by
  induction queue generalizing s with
  | nil => exact replays
  | cons first queue ih =>
      refine ⟨same_ready first List.mem_cons_self s replays.1, ?_⟩
      rw [same_apply first List.mem_cons_self]
      exact ih replays.2 (fun e member => same_apply e (List.mem_cons_of_mem _ member))
        fun e member => same_ready e (List.mem_cons_of_mem _ member)

end Replays

end Transition
