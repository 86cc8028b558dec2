import Mathlib.Data.List.Basic

/-! Fallible computations taken apart: when a sequence succeeds and when it fails. -/
namespace Transition

universe u

variable {φ : Type*} {α β : Type u}

theorem bind_ok {first : Except φ α} {next : α → Except φ β} {result : β} :
    first >>= next = .ok result ↔ ∃ a, first = .ok a ∧ next a = .ok result := by
  cases first with
  | error fault => simp [bind, Except.bind]
  | ok a => simp [bind, Except.bind]

theorem bind_error {first : Except φ α} {next : α → Except φ β} {fault : φ} :
    first >>= next = .error fault ↔
      first = .error fault ∨ ∃ a, first = .ok a ∧ next a = .error fault := by
  cases first with
  | error other => simp [bind, Except.bind]
  | ok a => simp [bind, Except.bind]

theorem throw_ok {fault : φ} {a : α} : (throw fault : Except φ α) = .ok a ↔ False := by
  simp [throw, throwThe, MonadExceptOf.throw]

theorem pure_ok {a b : α} : (pure a : Except φ α) = .ok b ↔ a = b := by
  simp [pure, Except.pure]

theorem map_ok {first : Except φ α} {f : α → β} {result : β} :
    first.map f = .ok result ↔ ∃ a, first = .ok a ∧ f a = result := by
  cases first with
  | error fault => simp [Except.map]
  | ok a => simp [Except.map]

/-- The computation does not fail in this way. -/
structure Never (bad : φ) (ran : Except φ α) : Prop where
  ne : ran ≠ .error bad

/-- It does not, and its result is as stated. -/
structure Ensures (bad : φ) (ran : Except φ α) (Q : α → Prop) : Prop extends Never bad ran where
  result : ∀ a, ran = .ok a → Q a

variable {bad fault : φ} {first : Except φ α} {next : α → Except φ β} {Q : β → Prop}

theorem Never.ok (a : α) : Never bad (.ok a) where
  ne := by simp

theorem Never.error (other : fault ≠ bad) : Never bad (.error fault : Except φ α) where
  ne := by simpa using other

theorem Never.bind (head : Never bad first) (tail : ∀ a, first = .ok a → Never bad (next a)) :
    Never bad (first >>= next) where
  ne failed := by
    rcases bind_error.mp failed with failed | ⟨a, done, failed⟩
    · exact head.ne failed
    · exact (tail a done).ne failed

theorem Never.throw (other : fault ≠ bad) : Never bad ((throw fault : Except φ α) >>= next) :=
  .bind (.error other) fun _ done => (throw_ok.mp done).elim

theorem Never.map {f : α → β} (head : Never bad first) : Never bad (first.map f) where
  ne := by
    cases first with
    | error other => simpa [Except.map] using head.ne
    | ok a => simp [Except.map]

theorem Ensures.ok {b : β} (holds : Q b) : Ensures bad (.ok b) Q where
  toNever := .ok b
  result _ same := Except.ok.inj same ▸ holds

theorem Ensures.error (other : fault ≠ bad) : Ensures bad (.error fault) Q where
  toNever := .error other
  result _ done := by contradiction

theorem Ensures.bind (head : Never bad first) (tail : ∀ a, first = .ok a → Ensures bad (next a) Q) :
    Ensures bad (first >>= next) Q where
  toNever := head.bind fun a done => (tail a done).toNever
  result b done := by
    obtain ⟨a, early, late⟩ := bind_ok.mp done
    exact (tail a early).result b late

theorem Ensures.throw (other : fault ≠ bad) : Ensures bad ((throw fault : Except φ α) >>= next) Q :=
  .bind (.error other) fun _ done => (throw_ok.mp done).elim

/-- Every result of a traversal comes from an element. -/
theorem mem_of_mapM {f : α → Except φ β} {l : List α} {bs : List β} (done : l.mapM f = .ok bs) :
    ∀ b ∈ bs, ∃ a ∈ l, f a = .ok b := by
  induction l generalizing bs with
  | nil =>
      obtain rfl := pure_ok.mp done
      simp
  | cons a rest ih =>
      rw [List.mapM_cons] at done
      obtain ⟨first, head, done⟩ := bind_ok.mp done
      obtain ⟨later, tail, done⟩ := bind_ok.mp done
      obtain rfl := pure_ok.mp done
      intro b member
      rcases List.mem_cons.mp member with rfl | member
      · exact ⟨a, List.mem_cons_self, head⟩
      · obtain ⟨other, inside, from_other⟩ := ih tail b member
        exact ⟨other, List.mem_cons_of_mem _ inside, from_other⟩

/-- The computation succeeds with a result that passes the test. -/
def succeedsWith (computation : Except φ α) (test : α → Bool) : Bool :=
  match computation with
  | .ok a => test a
  | .error _ => false

theorem exists_of_succeedsWith {computation : Except φ α} {test : α → Bool}
    (passed : succeedsWith computation test = true) : ∃ a, computation = .ok a ∧ test a = true := by
  cases computation with
  | ok a => exact ⟨a, rfl, passed⟩
  | error fault => cases passed

/-- A list is mapped when each of its elements is. -/
theorem mapM_forall₂ {f : α → Except φ β} {P : α → β → Prop} {l : List α} (each : ∀ a ∈ l, ∃ b, f a = .ok b ∧ P a b) :
    ∃ bs, l.mapM f = .ok bs ∧ List.Forall₂ P l bs := by
  induction l with
  | nil => exact ⟨[], rfl, .nil⟩
  | cons a rest ih =>
      obtain ⟨b, head, holds⟩ := each a List.mem_cons_self
      obtain ⟨bs, tail, all⟩ := ih fun other member => each other (List.mem_cons_of_mem _ member)
      exact ⟨b :: bs, by rw [List.mapM_cons, head, tail]; rfl, .cons holds all⟩

/-- The same without the order. -/
theorem mapM_ok {f : α → Except φ β} {P : α → β → Prop} {l : List α} (each : ∀ a ∈ l, ∃ b, f a = .ok b ∧ P a b) :
    ∃ bs, l.mapM f = .ok bs ∧ (∀ b ∈ bs, ∃ a ∈ l, P a b) ∧ ∀ a ∈ l, ∃ b ∈ bs, P a b := by
  obtain ⟨bs, done, all⟩ := mapM_forall₂ each
  refine ⟨bs, done, ?_⟩
  clear each done
  induction all with
  | nil => simp
  | cons holds _ ih =>
      refine ⟨fun b member => ?_, fun a member => ?_⟩
      · rcases List.mem_cons.mp member with rfl | later
        · exact ⟨_, List.mem_cons_self, holds⟩
        · obtain ⟨a, inside, good⟩ := ih.1 b later
          exact ⟨a, List.mem_cons_of_mem _ inside, good⟩
      · rcases List.mem_cons.mp member with rfl | later
        · exact ⟨_, List.mem_cons_self, holds⟩
        · obtain ⟨b, inside, good⟩ := ih.2 a later
          exact ⟨b, List.mem_cons_of_mem _ inside, good⟩

end Transition
