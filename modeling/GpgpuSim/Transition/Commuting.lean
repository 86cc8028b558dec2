import Mathlib.Data.List.Perm.Basic

/-! Agents that take turns on one state, each with one move to make. When the moves of different agents
commute, all schedules that bring the agents to rest make the same moves and end in the same state. -/
namespace Transition

variable {ι σ : Type*} {move : ι → σ → Option σ} {P : σ → Prop} {s t u : σ} {i j : ι}

/-- The state after the agents have moved in the given order. -/
def runSchedule (move : ι → σ → Option σ) : List ι → σ → Option σ
  | [], s => some s
  | i :: schedule, s => (move i s).bind (runSchedule move schedule)

/-- No agent has a move. -/
def AtRest (move : ι → σ → Option σ) (s : σ) : Prop := ∀ i, move i s = none

/-- In the states of `P`, which moves do not leave, different agents do not disturb one another. -/
structure Independent (move : ι → σ → Option σ) (P : σ → Prop) : Prop where
  kept : ∀ {i s t}, P s → move i s = some t → P t
  commute : ∀ {i j s t u}, P s → i ≠ j → move i s = some t → move j s = some u →
    ∃ v, move j t = some v ∧ move i u = some v

attribute [local simp] runSchedule

theorem runSchedule_cons {schedule : List ι} :
    runSchedule move (i :: schedule) s = some t ↔ ∃ u, move i s = some u ∧ runSchedule move schedule u = some t := by
  rw [runSchedule, Option.bind_eq_some_iff]

theorem runSchedule_append {early late : List ι} :
    runSchedule move (early ++ late) s = some t ↔
      ∃ u, runSchedule move early s = some u ∧ runSchedule move late u = some t := by
  induction early generalizing s with
  | nil => simp [runSchedule]
  | cons i early ih =>
      rw [List.cons_append, runSchedule_cons]
      constructor
      · rintro ⟨v, first, rest⟩
        obtain ⟨u, before, after⟩ := ih.mp rest
        exact ⟨u, runSchedule_cons.mpr ⟨v, first, before⟩, after⟩
      · rintro ⟨u, before, after⟩
        obtain ⟨v, first, rest⟩ := runSchedule_cons.mp before
        exact ⟨v, first, ih.mpr ⟨u, rest, after⟩⟩

namespace Independent

variable [DecidableEq ι]

/-- A move that is possible now is made in every schedule that ends at rest, and may be made first. -/
theorem moveFirst (independent : Independent move P) {schedule : List ι} (holds : P s)
    (possible : move i s = some u) (ran : runSchedule move schedule s = some t) (rest : AtRest move t) :
    i ∈ schedule ∧ runSchedule move (schedule.erase i) u = some t := by
  induction schedule generalizing s u with
  | nil =>
      obtain rfl := Option.some.inj ran
      rw [rest i] at possible
      contradiction
  | cons j schedule ih =>
      obtain ⟨v, first, ran⟩ := runSchedule_cons.mp ran
      by_cases same : j = i
      · subst same
        obtain rfl := Option.some.inj (first.symm.trans possible)
        exact ⟨List.mem_cons_self, by rwa [List.erase_cons_head]⟩
      · obtain ⟨w, after, before⟩ := independent.commute holds same first possible
        obtain ⟨member, ran⟩ := ih (independent.kept holds first) after ran
        refine ⟨List.mem_cons_of_mem _ member, ?_⟩
        rw [List.erase_cons_tail (by simpa using same)]
        exact runSchedule_cons.mpr ⟨w, before, ran⟩

/-- All schedules to rest are the same up to order, and end in the same state. -/
theorem confluent (independent : Independent move P) {early late : List ι} (holds : P s)
    (ran : runSchedule move early s = some t) (rest : AtRest move t)
    (ran' : runSchedule move late s = some u) (rest' : AtRest move u) : t = u ∧ early.Perm late := by
  induction early generalizing s late with
  | nil =>
      obtain rfl := Option.some.inj ran
      cases late with
      | nil => exact ⟨Option.some.inj ran', .refl _⟩
      | cons i late =>
          obtain ⟨v, first, -⟩ := runSchedule_cons.mp ran'
          rw [rest i] at first
          contradiction
  | cons i early ih =>
      obtain ⟨v, first, ran⟩ := runSchedule_cons.mp ran
      obtain ⟨member, ran'⟩ := independent.moveFirst holds first ran' rest'
      obtain ⟨same, perm⟩ := ih (independent.kept holds first) ran ran'
      exact ⟨same, (perm.cons i).trans (List.perm_cons_erase member).symm⟩

end Independent

end Transition
