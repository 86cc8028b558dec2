import Mathlib.Data.List.Basic

/-! A pass that is repeated until it reports no change. -/
namespace Transition

variable {σ : Type*} {pass : σ → σ × Bool}

/-- `fuel` bounds the number of passes. -/
def untilStable (pass : σ → σ × Bool) : Nat → σ → Option σ
  | 0, _ => none
  | fuel + 1, s => if (pass s).2 then untilStable pass fuel (pass s).1 else some (pass s).1

/-- If a measure falls with each pass that reports a change, then the repetition ends,
in a state that the last pass did not change. -/
theorem exists_untilStable {P : σ → Prop} {measure : σ → Nat} {s : σ} (kept : ∀ s, P s → P (pass s).1)
    (falls : ∀ s, P s → (pass s).2 = true → measure (pass s).1 < measure s) (holds : P s) :
    ∃ last, P last ∧ (pass last).2 = false ∧
      ∀ fuel, measure s < fuel → untilStable pass fuel s = some (pass last).1 := by
  generalize bound : measure s = m
  induction m using Nat.strongRecOn generalizing s with
  | ind m ih =>
      subst bound
      cases changed : (pass s).2 with
      | false =>
          refine ⟨s, holds, changed, ?_⟩
          intro fuel enough
          cases fuel with
          | zero => omega
          | succ fuel => simp [untilStable, changed]
      | true =>
          have less := falls s holds changed
          obtain ⟨last, holds_last, stable, result⟩ := ih _ less (kept s holds) rfl
          refine ⟨last, holds_last, stable, ?_⟩
          intro fuel enough
          cases fuel with
          | zero => omega
          | succ fuel =>
              simp only [untilStable, changed, if_true]
              exact result fuel (by omega)

theorem untilStable_kept {P : σ → Prop} {fuel : Nat} {s last : σ} (kept : ∀ s, P s → P (pass s).1) (holds : P s)
    (result : untilStable pass fuel s = some last) : P last := by
  induction fuel generalizing s with
  | zero => cases result
  | succ fuel ih =>
      simp only [untilStable] at result
      split at result
      · exact ih (kept s holds) result
      · cases result
        exact kept s holds

/-! ## A pass as a loop over items -/

variable {ι : Type*} {visit : σ × Bool → ι → σ × Bool}

/-- If each item changes the state and says so, or leaves all as it was, then a pass
without a change has left the state alone and found every item settled. -/
theorem settled_of_foldl {settled : σ → ι → Prop} {items : List ι} {s : σ} {changed : Bool}
    (each : ∀ s changed i, (visit (s, changed) i = (s, changed) ∧ settled s i) ∨
      (visit (s, changed) i).2 = true)
    (stable : (items.foldl visit (s, changed)).2 = false) :
    (items.foldl visit (s, changed)).1 = s ∧ ∀ i ∈ items, settled s i := by
  have told : ∀ (items : List ι) (state : σ × Bool), state.2 = true → (items.foldl visit state).2 = true := by
    intro items
    induction items with
    | nil => exact fun _ already => already
    | cons i rest ih =>
        intro state already
        apply ih
        rcases each state.1 state.2 i with ⟨same, -⟩ | now
        · rwa [show visit state i = state from same]
        · exact now
  induction items with
  | nil => exact ⟨rfl, by simp⟩
  | cons i rest ih =>
      rw [List.foldl_cons] at stable ⊢
      rcases each s changed i with ⟨same, here⟩ | now
      · rw [same] at stable ⊢
        obtain ⟨left, all⟩ := ih stable
        refine ⟨left, ?_⟩
        intro j within
        rcases List.mem_cons.mp within with rfl | later
        · exact here
        · exact all j later
      · rw [told rest _ now] at stable
        contradiction

/-- If a measure falls at each item that says it changed the state and at no item grows,
then it falls over a pass that reports a change. -/
theorem measure_foldl {P : σ → Prop} {measure : σ → Nat} {items : List ι} {s : σ} {changed : Bool}
    (each : ∀ s changed, P s → ∀ i ∈ items, P (visit (s, changed) i).1 ∧
      (visit (s, changed) i = (s, changed) ∨ measure (visit (s, changed) i).1 < measure s))
    (holds : P s) :
    P (items.foldl visit (s, changed)).1 ∧ (items.foldl visit (s, changed) = (s, changed) ∨
      measure (items.foldl visit (s, changed)).1 < measure s) := by
  induction items generalizing s changed with
  | nil => exact ⟨holds, .inl rfl⟩
  | cons i rest ih =>
      have others := fun s changed holds j later => each s changed holds j (List.mem_cons_of_mem i later)
      obtain ⟨kept, here⟩ := each s changed holds i List.mem_cons_self
      rw [List.foldl_cons]
      rcases here with same | less
      · rw [same]
        exact ih others holds
      · generalize visit (s, changed) i = visited at *
        obtain ⟨last, after⟩ := @ih visited.1 visited.2 others kept
        refine ⟨last, .inr ?_⟩
        rcases after with same | lesser
        · rwa [same]
        · exact Nat.lt_trans lesser less

end Transition
