import Mathlib.Data.List.Perm.Subperm
import Mathlib.Logic.Function.Basic

/-! Items held at stations. Each item is at one station at most, once, and a
place function says at which. -/
namespace Transition

variable {ι α : Type*} [DecidableEq ι] [DecidableEq α]

structure Custody (view : ι → List α) (place : α → Option ι) : Prop where
  nodup : ∀ s, (view s).Nodup
  mem_iff : ∀ s a, a ∈ view s ↔ place a = some s

namespace Custody

variable {view view' : ι → List α} {place : α → Option ι} {s t : ι} {a : α} {rest : List α}

omit [DecidableEq ι] [DecidableEq α] in
theorem place_of_mem (custody : Custody view place) (member : a ∈ view s) : place a = some s :=
  (custody.mem_iff s a).mp member

omit [DecidableEq ι] [DecidableEq α] in
theorem place_of_head (custody : Custody view place) (head : view s = a :: rest) :
    place a = some s :=
  custody.place_of_mem (by rw [head]; exact List.mem_cons_self)

omit [DecidableEq ι] [DecidableEq α] in
theorem congr (custody : Custody view place) (same : ∀ s, (view' s).Perm (view s)) :
    Custody view' place where
  nodup s := (same s).nodup_iff.mpr (custody.nodup s)
  mem_iff s a := (same s).mem_iff.trans (custody.mem_iff s a)

/-- An item leaves the station that held it. -/
theorem take (custody : Custody view place) (held : (view s).Perm (a :: rest)) :
    Custody (Function.update view s rest) (Function.update place a none) := by
  have distinct := held.nodup_iff.mp (custody.nodup s)
  have here : place a = some s := custody.place_of_mem (held.mem_iff.mpr List.mem_cons_self)
  constructor
  · intro u
    by_cases at_s : u = s
    · subst at_s
      simpa using (List.nodup_cons.mp distinct).2
    · simpa [Function.update_of_ne at_s] using custody.nodup u
  · intro u b
    have before := custody.mem_iff u b
    by_cases at_s : u = s
    · subst at_s
      rw [Function.update_self]
      by_cases same : b = a
      · subst same
        simp [(List.nodup_cons.mp distinct).1]
      · rw [Function.update_of_ne same, ← before, held.mem_iff, List.mem_cons]
        simp [same]
    · rw [Function.update_of_ne at_s, before]
      by_cases same : b = a
      · subst same
        rw [here, Function.update_self]
        simpa using Ne.symm at_s
      · rw [Function.update_of_ne same]

/-- An item that is nowhere arrives at a station. -/
theorem put (custody : Custody view place) (absent : place a = none) {filled : List α}
    (arrived : filled.Perm (a :: view s)) :
    Custody (Function.update view s filled) (Function.update place a (some s)) := by
  have outside : ∀ u, a ∉ view u := fun u inside => by
    have := custody.place_of_mem inside
    rw [absent] at this
    contradiction
  constructor
  · intro u
    by_cases at_s : u = s
    · subst at_s
      rw [Function.update_self, arrived.nodup_iff, List.nodup_cons]
      exact ⟨outside u, custody.nodup u⟩
    · simpa [Function.update_of_ne at_s] using custody.nodup u
  · intro u b
    have before := custody.mem_iff u b
    by_cases at_s : u = s
    · subst at_s
      rw [Function.update_self, arrived.mem_iff, List.mem_cons]
      by_cases same : b = a
      · subst same
        simp
      · simp [same, before]
    · rw [Function.update_of_ne at_s, before]
      by_cases same : b = a
      · subst same
        rw [absent, Function.update_self]
        simpa using Ne.symm at_s
      · rw [Function.update_of_ne same]

/-- An item goes from one station to another. -/
theorem move (custody : Custody view place) (apart : s ≠ t) (held : (view s).Perm (a :: rest))
    {filled : List α} (arrived : filled.Perm (a :: view t)) :
    Custody (Function.update (Function.update view s rest) t filled)
      (Function.update place a (some t)) := by
  have taken := custody.take held
  have moved := taken.put (s := t) (a := a) (Function.update_self ..)
    (show filled.Perm (a :: Function.update view s rest t) by
      rwa [Function.update_of_ne apart.symm])
  rwa [Function.update_idem] at moved

/-! The same with the two views compared station by station. -/

/-- An item has left `s`. -/
theorem leaves (custody : Custody view place) (held : (view s).Perm (a :: rest))
    (after : ∀ u, (view' u).Perm (Function.update view s rest u)) :
    Custody view' (Function.update place a none) :=
  (custody.take held).congr after

/-- An item has come to `s` from nowhere. -/
theorem enters (custody : Custody view place) (absent : place a = none)
    (after : ∀ u, (view' u).Perm (Function.update view s (a :: view s) u)) :
    Custody view' (Function.update place a (some s)) :=
  (custody.put absent (.refl _)).congr after

/-- An item has gone from `s` to `t`. -/
theorem hands (custody : Custody view place) (apart : s ≠ t) (held : (view s).Perm (a :: rest))
    (after : ∀ u, (view' u).Perm (Function.update (Function.update view s rest) t (a :: view t) u)) :
    Custody view' (Function.update place a (some t)) :=
  (custody.move apart held (.refl _)).congr after

end Custody

end Transition
