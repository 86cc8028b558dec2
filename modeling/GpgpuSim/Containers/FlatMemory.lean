import Mathlib.Data.List.Induction

/-! A flat memory of cells, one for each address: copying a range into it, and
what a cell holds after a history of writes. -/
namespace FlatMemory

variable {α : Type*}

/-- The cells from `base` on take the first `length` cells of `source`. -/
def copy (target : Nat → α) (base : Nat) (source : Nat → α) (length : Nat) : Nat → α :=
  fun a => if base ≤ a ∧ a < base + length then source (a - base) else target a

/-- A pointer into `source`. -/
def shift (source : Nat → α) (start : Nat) : Nat → α := fun i => source (start + i)

variable {target source other : Nat → α} {base start length more a : Nat}

theorem copy_inside (lower : base ≤ a) (upper : a < base + length) :
    copy target base source length a = source (a - base) :=
  if_pos ⟨lower, upper⟩

theorem copy_outside (outside : ¬ (base ≤ a ∧ a < base + length)) :
    copy target base source length a = target a :=
  if_neg outside

@[simp] theorem copy_zero : copy target base source 0 = target := by
  funext a
  exact copy_outside (by omega)

@[simp] theorem shift_zero : shift source 0 = source := by
  funext i
  simp [shift]

theorem shift_shift : shift (shift source start) more = shift source (start + more) := by
  funext i
  simp [shift, Nat.add_assoc]

/-- Two adjacent copies from adjacent ranges are one copy. -/
theorem copy_append : copy (copy target base source length) (base + length) (shift source length) more =
    copy target base source (length + more) := by
  funext a
  by_cases later : base + length ≤ a ∧ a < base + length + more
  · rw [copy_inside later.1 later.2, copy_inside (by omega) (by omega), shift]
    congr 1
    omega
  · rw [copy_outside later]
    by_cases earlier : base ≤ a ∧ a < base + length
    · rw [copy_inside earlier.1 earlier.2, copy_inside (by omega) (by omega)]
    · rw [copy_outside earlier, copy_outside (by omega)]

/-- Only the cells that are copied count. -/
theorem copy_congr (agree : ∀ i < length, source i = other i) :
    copy target base source length = copy target base other length := by
  funext a
  by_cases inside : base ≤ a ∧ a < base + length
  · rw [copy_inside inside.1 inside.2, copy_inside inside.1 inside.2]
    exact agree _ (by omega)
  · rw [copy_outside inside, copy_outside inside]

structure Write (α : Type*) where
  addr : Nat
  length : Nat
  data : Nat → α

namespace Write

def Covers (w : Write α) (a : Nat) : Prop := w.addr ≤ a ∧ a < w.addr + w.length

instance (w : Write α) (a : Nat) : Decidable (w.Covers a) := inferInstanceAs (Decidable (_ ∧ _))

end Write

/-- The memory after a history of writes over the blank memory. -/
def contents (blank : α) (writes : List (Write α)) : Nat → α :=
  writes.foldl (fun memory w => copy memory w.addr w.data w.length) fun _ => blank

/-- The value of the latest write that covers a cell, `blank` when there is none. -/
def latest (blank : α) (writes : List (Write α)) (a : Nat) : α :=
  match writes.reverse.find? fun w => decide (w.Covers a) with
  | none => blank
  | some w => w.data (a - w.addr)

variable {blank : α} {writes : List (Write α)} {w : Write α}

@[simp] theorem contents_nil : contents blank [] = fun _ => blank := rfl

theorem contents_append :
    contents blank (writes ++ [w]) = copy (contents blank writes) w.addr w.data w.length := by
  simp [contents]

theorem latest_append :
    latest blank (writes ++ [w]) a = if w.Covers a then w.data (a - w.addr) else latest blank writes a := by
  by_cases covered : w.Covers a
  · simp [latest, covered]
  · simp [latest, covered]

/-- A cell holds what the latest write that covers it put there. -/
theorem contents_eq_latest : contents blank writes = latest blank writes := by
  induction writes using List.reverseRecOn with
  | nil => rfl
  | append_singleton writes w ih =>
      funext a
      rw [contents_append, latest_append, ih]
      rfl

end FlatMemory
