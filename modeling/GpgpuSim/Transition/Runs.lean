import Mathlib.Data.List.Basic

/-! Runs of a labelled transition system, one induction for all invariants. A
step emits the list of things an observer sees it do. -/
namespace Transition

variable {σ ε : Type*} {step : σ → List ε → σ → Prop} {start : σ}

inductive Reaches (step : σ → List ε → σ → Prop) (start : σ) : List ε → σ → Prop
  | refl : Reaches step start [] start
  | next {trace events : List ε} {s t : σ} : Reaches step start trace s → step s events t →
      Reaches step start (trace ++ events) t

/-- What holds at the start and is kept by every step of a run holds along the run. -/
theorem Reaches.invariant {P : List ε → σ → Prop} (initial : P [] start)
    (preserved : ∀ {trace s events t}, Reaches step start trace s → P trace s →
      step s events t → P (trace ++ events) t)
    {trace : List ε} {s : σ} (run : Reaches step start trace s) : P trace s := by
  induction run with
  | refl => exact initial
  | next run stepped ih => exact preserved run ih stepped

theorem Reaches.append {early late : List ε} {s t : σ} (run : Reaches step start early s)
    (more : Reaches step s late t) : Reaches step start (early ++ late) t := by
  induction more with
  | refl => rwa [List.append_nil]
  | next _ stepped ih =>
      rw [← List.append_assoc]
      exact ih.next stepped

/-- A run of a restricted system is a run of the wider one. -/
theorem Reaches.mono {wider : σ → List ε → σ → Prop} (widen : ∀ {s events t}, step s events t → wider s events t)
    {trace : List ε} {s : σ} (run : Reaches step start trace s) : Reaches wider start trace s := by
  induction run with
  | refl => exact .refl
  | next _ stepped ih => exact ih.next (widen stepped)

/-- `P` relates each entry of a history to the entries before it. -/
def Along {α : Type*} (P : List α → α → Prop) (history : List α) : Prop :=
  ∀ before e after, history = before ++ e :: after → P before e

namespace Along

variable {α : Type*} {P Q : List α → α → Prop} {history : List α}

theorem nil : Along P [] := by
  intro before e after split
  simp at split

theorem append {e : α} (along : Along P history) (last : P history e) : Along P (history ++ [e]) := by
  intro before d after split
  rcases List.append_eq_append_iff.mp split with ⟨middle, rfl, tail⟩ | ⟨middle, rfl, tail⟩
  · cases middle with
    | nil =>
        obtain ⟨rfl, rfl⟩ := List.cons.inj tail
        simpa using last
    | cons f middle => simp at tail
  · cases middle with
    | nil =>
        obtain ⟨rfl, rfl⟩ := List.cons.inj tail.symm
        simpa using last
    | cons f middle =>
        obtain ⟨rfl, rest⟩ := List.cons.inj tail
        exact along before d middle rfl

/-- A history is followed by another, whose entries come after all of its own. -/
theorem append_all {more : List α} (along : Along P history)
    (later : Along (fun before e => P (history ++ before) e) more) :
    Along P (history ++ more) := by
  intro before e after split
  rcases List.append_eq_append_iff.mp split with ⟨between, rfl, rest⟩ | ⟨between, same, rest⟩
  · exact later between e after rest
  · cases between with
    | nil =>
        rw [List.append_nil] at same
        simpa [same] using later [] e after rest.symm
    | cons here between =>
        obtain ⟨rfl, -⟩ := List.cons.inj rest
        exact along before e between same

theorem imp (along : Along P history) (weaken : ∀ before e, e ∈ history → P before e → Q before e) :
    Along Q history := by
  rintro before e after rfl
  exact weaken before e (by simp) (along before e after rfl)

end Along

/-- What happens between two states, one event after the other. -/
inductive Follows (act : σ → ε → σ → Prop) : σ → List ε → σ → Prop
  | nil {s : σ} : Follows act s [] s
  | cons {s t u : σ} {e : ε} {rest : List ε} : act s e t → Follows act t rest u → Follows act s (e :: rest) u

namespace Follows

variable {act : σ → ε → σ → Prop} {s t u : σ} {e : ε} {early late trace : List ε}

theorem single (acted : act s e t) : Follows act s [e] t := .cons acted .nil

theorem append (follows : Follows act s early t) (more : Follows act t late u) : Follows act s (early ++ late) u := by
  induction follows with
  | nil => exact more
  | cons acted _ ih => exact .cons acted (ih more)

theorem split (follows : Follows act s (early ++ late) u) : ∃ t, Follows act s early t ∧ Follows act t late u := by
  induction early generalizing s with
  | nil => exact ⟨s, .nil, follows⟩
  | cons e early ih =>
      cases follows with
      | cons acted rest =>
          obtain ⟨t, before, after⟩ := ih rest
          exact ⟨t, .cons acted before, after⟩

/-- What the events of a trace keep. -/
theorem keeps {P : σ → Prop} (follows : Follows act s trace t) (kept : ∀ e ∈ trace, ∀ s t, act s e t → P s → P t)
    (start : P s) : P t := by
  induction follows with
  | nil => exact start
  | cons acted _ ih =>
      exact ih (fun later member => kept later (List.mem_cons_of_mem _ member))
        (kept _ List.mem_cons_self _ _ acted start)

/-- Each event is one step of another system, or several or none. -/
theorem simulates {α : Type*} {step : σ → List α → σ → Prop} {label : ε → List α} (follows : Follows act s trace t)
    (each : ∀ e ∈ trace, ∀ s t, act s e t → Reaches step s (label e) t) : Reaches step s (trace.flatMap label) t := by
  induction follows with
  | nil => exact .refl
  | cons acted _ ih =>
      rw [List.flatMap_cons]
      exact (each _ List.mem_cons_self _ _ acted).append
        (ih fun later member => each later (List.mem_cons_of_mem _ member))

end Follows

end Transition
