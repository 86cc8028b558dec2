import GpgpuSim.Transition.Stages
import Mathlib.Data.List.Range

/-! What a fallible computation can end in: a result that satisfies `Q`, or a fault in `F`. -/
namespace Transition

universe u

variable {φ : Type*} {α β : Type u}

def Ends (ran : Except φ α) (Q : α → Prop) (F : φ → Prop) : Prop :=
  match ran with
  | .ok a => Q a
  | .error fault => F fault

namespace Ends

variable {ran first : Except φ α} {next : α → Except φ β} {Q : α → Prop} {R : β → Prop} {F : φ → Prop}

theorem result {a : α} (ends : Ends ran Q F) (done : ran = .ok a) : Q a := by
  subst done
  exact ends

theorem fault {fault : φ} (ends : Ends ran Q F) (stopped : ran = .error fault) : F fault := by
  subst stopped
  exact ends

theorem exists_ok (ends : Ends ran Q fun _ => False) : ∃ a, ran = .ok a ∧ Q a := by
  cases ran with
  | ok a => exact ⟨a, rfl, ends⟩
  | error fault => exact ends.elim

/-- When any fault will do. -/
theorem of_ok (post : ∀ a, ran = .ok a → Q a) : Ends ran Q fun _ => True := by
  cases ran with
  | ok a => exact post a rfl
  | error fault => trivial

theorem mono {Q' : α → Prop} {F' : φ → Prop} (ends : Ends ran Q F) (post : ∀ a, Q a → Q' a)
    (faults : ∀ fault, F fault → F' fault) : Ends ran Q' F' := by
  cases ran with
  | ok a => exact post a ends
  | error fault => exact faults fault ends

theorem bind (head : Ends first Q F) (tail : ∀ a, Q a → Ends (next a) R F) : Ends (first >>= next) R F := by
  cases first with
  | ok a => exact tail a head
  | error fault => exact head

/-- The result is the one that the computation ends in. -/
theorem self (ends : Ends ran Q F) : Ends ran (fun a => Q a ∧ ran = .ok a) F := by
  cases ran with
  | ok a => exact ⟨ends, rfl⟩
  | error fault => exact ends

theorem map {f : α → β} (head : Ends first (fun a => R (f a)) F) : Ends (first.map f) R F := by
  cases first with
  | ok a => exact head
  | error fault => exact head

/-- A loop over an index, with an invariant of the index. -/
theorem foldlM_range {n : Nat} {visit : α → Nat → Except φ α} {P : Nat → α → Prop} {a : α} (start : P 0 a)
    (each : ∀ i < n, ∀ a, P i a → Ends (visit a i) (P (i + 1)) F) :
    Ends ((List.range n).foldlM visit a) (P n) F := by
  induction n with
  | zero => exact start
  | succ n ih =>
      rw [List.range_succ, List.foldlM_append]
      refine (ih fun i below => each i (Nat.lt_succ_of_lt below)).bind fun b holds => ?_
      rw [List.foldlM_cons]
      exact (each n (Nat.lt_succ_self n) b holds).bind fun c done => done

end Ends

/-- A list is mapped when each of its elements is, as what it is related to requires. -/
theorem mapM_along {γ : Type*} {R : γ → α → Prop} {Q : γ → β → Prop} {f : α → Except φ β} {cs : List γ} {as : List α}
    (related : List.Forall₂ R cs as) (each : ∀ c a, c ∈ cs → R c a → ∃ b, f a = .ok b ∧ Q c b) :
    ∃ bs, as.mapM f = .ok bs ∧ List.Forall₂ Q cs bs := by
  induction related with
  | nil => exact ⟨[], rfl, .nil⟩
  | @cons c a cs as here rest ih =>
      obtain ⟨b, head, holds⟩ := each c a List.mem_cons_self here
      obtain ⟨bs, tail, all⟩ := ih fun other a' member => each other a' (List.mem_cons_of_mem _ member)
      exact ⟨b :: bs, by rw [List.mapM_cons, head, tail]; rfl, .cons holds all⟩

section Stages

variable {σ ε : Type u} {P Q : List ε → σ → Prop} {F : φ → Prop} {stage : Stage σ ε φ}

theorem Stage.triple_iff_ends :
    Stage.Triple P stage Q F ↔ ∀ trace s, P trace s → Ends (stage s) (fun r => Q (trace ++ r.2) r.1) F := by
  constructor
  · intro triple trace s start
    obtain ⟨ended, stopped⟩ := triple trace s start
    cases ran : stage s with
    | ok r => exact ended r.1 r.2 ran
    | error fault => exact stopped fault ran
  · intro ends trace s start
    exact ⟨fun t shown ran => (ends trace s start).result ran, fun fault ran => (ends trace s start).fault ran⟩

end Stages

end Transition
