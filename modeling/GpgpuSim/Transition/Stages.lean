import GpgpuSim.Transition.Fallible

/-! A cycle of a machine as a sequence of stages over one state. Each stage
extends the trace of what an observer sees or stops the machine with a fault. -/
namespace Transition

abbrev Stage (σ ε φ : Type*) := σ → Except φ (σ × List ε)

variable {σ ε φ : Type*}

namespace Stage

def idle : Stage σ ε φ := fun s => .ok (s, [])

def andThen (first second : Stage σ ε φ) : Stage σ ε φ := fun s =>
  match first s with
  | .error fault => .error fault
  | .ok (t, shown) =>
      match second t with
      | .error fault => .error fault
      | .ok (u, more) => .ok (u, shown ++ more)

def all : List (Stage σ ε φ) → Stage σ ε φ
  | [] => idle
  | stage :: rest => stage.andThen (all rest)

/-- From `P` the stage reaches `Q` of the extended trace, or stops with a fault in `F`. -/
def Triple (P : List ε → σ → Prop) (stage : Stage σ ε φ) (Q : List ε → σ → Prop) (F : φ → Prop) : Prop :=
  ∀ trace s, P trace s →
    (∀ t shown, stage s = .ok (t, shown) → Q (trace ++ shown) t) ∧
    ∀ fault, stage s = .error fault → F fault

variable {P Q R : List ε → σ → Prop} {F : φ → Prop} {first second : Stage σ ε φ}

theorem andThen_ok {s u : σ} {shown : List ε} :
    first.andThen second s = .ok (u, shown) ↔
      ∃ t early late, first s = .ok (t, early) ∧ second t = .ok (u, late) ∧ shown = early ++ late := by
  unfold andThen
  constructor
  · intro ran
    split at ran
    · contradiction
    · split at ran
      · contradiction
      · cases ran
        exact ⟨_, _, _, ‹_›, ‹_›, rfl⟩
  · rintro ⟨t, early, late, one, two, rfl⟩
    rw [one]
    dsimp only
    rw [two]

theorem andThen_error {s : σ} {fault : φ} :
    first.andThen second s = .error fault ↔
      first s = .error fault ∨ ∃ t early, first s = .ok (t, early) ∧ second t = .error fault := by
  unfold andThen
  constructor
  · intro stopped
    split at stopped
    · exact .inl (by rw [‹first s = _›, ← stopped])
    · split at stopped
      · cases stopped
        exact .inr ⟨_, _, ‹_›, ‹_›⟩
      · contradiction
  · rintro (one | ⟨t, early, one, two⟩)
    · rw [one]
    · rw [one]
      dsimp only
      rw [two]

/-- A second stage takes over what the first one ensures. -/
theorem ensures_andThen {bad : φ} {s : σ} {Q R : σ → Prop} (one : Ensures bad (first s) fun ended => Q ended.1)
    (two : ∀ t, Q t → Ensures bad (second t) fun ended => R ended.1) :
    Ensures bad (first.andThen second s) fun ended => R ended.1 where
  ne failed := by
    rcases andThen_error.mp failed with failed | ⟨t, early, done, failed⟩
    · exact one.ne failed
    · exact (two t (one.result _ done)).ne failed
  result := by
    rintro ⟨u, shown⟩ done
    obtain ⟨t, early, late, before, after, -⟩ := andThen_ok.mp done
    exact (two t (one.result _ before)).result (u, late) after

/-- Two groups of stages run one after the other. -/
theorem all_append {stages later : List (Stage σ ε φ)} {s u : σ} {shown : List ε} :
    all (stages ++ later) s = .ok (u, shown) ↔
      ∃ t early late, all stages s = .ok (t, early) ∧ all later t = .ok (u, late) ∧ shown = early ++ late := by
  induction stages generalizing s shown with
  | nil =>
      constructor
      · exact fun ran => ⟨s, [], shown, rfl, ran, rfl⟩
      · rintro ⟨t, early, late, one, two, rfl⟩
        cases one
        exact two
  | cons stage rest ih =>
      constructor
      · intro ran
        obtain ⟨m, first, others, one, more, rfl⟩ := andThen_ok.mp ran
        obtain ⟨t, early, late, two, three, rfl⟩ := ih.mp more
        exact ⟨t, first ++ early, late, andThen_ok.mpr ⟨m, first, early, one, two, rfl⟩, three,
          (List.append_assoc ..).symm⟩
      · rintro ⟨t, early, late, ran, three, rfl⟩
        obtain ⟨m, first, others, one, two, rfl⟩ := andThen_ok.mp ran
        exact andThen_ok.mpr ⟨m, first, others ++ late, one, ih.mpr ⟨t, others, late, two, three, rfl⟩,
          List.append_assoc ..⟩

theorem all_append_ok {stages : List (Stage σ ε φ)} {last : Stage σ ε φ} {s u : σ} {shown : List ε} :
    all (stages ++ [last]) s = .ok (u, shown) ↔
      ∃ t early late, all stages s = .ok (t, early) ∧ last t = .ok (u, late) ∧ shown = early ++ late := by
  have single : ∀ {t late}, all [last] t = .ok (u, late) ↔ last t = .ok (u, late) := by
    intro t late
    constructor
    · intro ran
      obtain ⟨_, early, none, one, two, rfl⟩ := andThen_ok.mp ran
      cases two
      rwa [List.append_nil]
    · exact fun ran => andThen_ok.mpr ⟨u, late, [], ran, rfl, (List.append_nil late).symm⟩
  simp only [all_append, single]

/-- What every stage of a group does to a reflexive and transitive relation, the group does. -/
theorem all_relates {I : σ → Prop} {R : σ → σ → Prop} (refl : ∀ s, R s s)
    (trans : ∀ {a b c}, R a b → R b c → R a c) {stages : List (Stage σ ε φ)}
    (each : ∀ stage ∈ stages, ∀ {s t shown}, I s → stage s = .ok (t, shown) → R s t ∧ I t)
    {s u : σ} {shown : List ε} (holds : I s) (ran : all stages s = .ok (u, shown)) : R s u ∧ I u := by
  induction stages generalizing s shown with
  | nil =>
      cases ran
      exact ⟨refl _, holds⟩
  | cons stage rest ih =>
      obtain ⟨t, early, late, one, more, rfl⟩ := andThen_ok.mp ran
      obtain ⟨first, kept⟩ := each stage List.mem_cons_self holds one
      obtain ⟨others, last⟩ := ih (fun other member => each other (List.mem_cons_of_mem _ member)) kept more
      exact ⟨trans first others, last⟩

namespace Triple

theorem andThen (one : Triple P first R F) (two : Triple R second Q F) :
    Triple P (first.andThen second) Q F := by
  intro trace s start
  constructor
  · intro u shown ran
    obtain ⟨t, early, late, before, after, rfl⟩ := andThen_ok.mp ran
    rw [← List.append_assoc]
    exact (two _ _ ((one _ _ start).1 _ _ before)).1 _ _ after
  · intro fault stopped
    rcases andThen_error.mp stopped with before | ⟨t, early, before, after⟩
    · exact (one _ _ start).2 _ before
    · exact (two _ _ ((one _ _ start).1 _ _ before)).2 _ after

theorem idle : Triple P (idle : Stage σ ε φ) P F := by
  intro trace s start
  constructor
  · intro t shown ran
    cases ran
    rwa [List.append_nil]
  · intro fault stopped
    cases stopped

/-- An invariant of every stage is an invariant of the cycle. -/
theorem all {stages : List (Stage σ ε φ)} (each : ∀ stage ∈ stages, Triple P stage P F) :
    Triple P (all stages) P F := by
  induction stages with
  | nil => exact idle
  | cons stage rest ih =>
      exact (each stage List.mem_cons_self).andThen
        (ih fun later member => each later (List.mem_cons_of_mem _ member))

theorem consequence {P' Q' : List ε → σ → Prop} {F' : φ → Prop} (triple : Triple P first Q F)
    (pre : ∀ trace s, P' trace s → P trace s) (post : ∀ trace s, Q trace s → Q' trace s)
    (faults : ∀ fault, F fault → F' fault) : Triple P' first Q' F' := by
  intro trace s start
  obtain ⟨ends, stops⟩ := triple trace s (pre _ _ start)
  exact ⟨fun t shown ran => post _ _ (ends t shown ran), fun fault stopped => faults _ (stops _ stopped)⟩

theorem append {stages later : List (Stage σ ε φ)} (one : Triple P (Stage.all stages) R F)
    (two : Triple R (Stage.all later) Q F) : Triple P (Stage.all (stages ++ later)) Q F := by
  induction stages generalizing P with
  | nil =>
      apply two.consequence
      · intro trace s start
        simpa using (one trace s start).1 s [] rfl
      · exact fun _ _ => id
      · exact fun _ => id
  | cons stage rest ih =>
      have tail : Triple (fun trace t => ∃ before s shown, P before s ∧ stage s = .ok (t, shown) ∧
          trace = before ++ shown) (Stage.all rest) R F := by
        rintro trace t ⟨before, s, shown, start, ran, rfl⟩
        constructor
        · intro u late after
          rw [List.append_assoc]
          exact (one before s start).1 u _ (andThen_ok.mpr ⟨t, shown, late, ran, after, rfl⟩)
        · intro fault stopped
          exact (one before s start).2 fault (andThen_error.mpr (.inr ⟨t, shown, ran, stopped⟩))
      apply Triple.andThen _ (ih tail)
      intro trace s start
      constructor
      · exact fun t shown ran => ⟨trace, s, shown, start, ran, rfl⟩
      · exact fun fault stopped => (one trace s start).2 fault (andThen_error.mpr (.inl stopped))

end Triple

end Stage

end Transition
