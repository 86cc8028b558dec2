import Mathlib.Data.List.Perm.Subperm
import Mathlib.Order.Lattice
import Mathlib.Data.List.Range

/-! Sets kept as ascending lists, the order in which an iteration visits them. -/
namespace Containers

structure OrderedSet (α : Type*) [LinearOrder α] where
  items : List α
  ascending : items.Pairwise (· < ·)
  deriving DecidableEq

namespace OrderedSet

variable {α : Type*} [LinearOrder α]

instance : Membership α (OrderedSet α) := ⟨fun s a => a ∈ s.items⟩

theorem mem_def {s : OrderedSet α} {a : α} : a ∈ s ↔ a ∈ s.items := Iff.rfl

instance (a : α) (s : OrderedSet α) : Decidable (a ∈ s) := inferInstanceAs (Decidable (a ∈ s.items))

instance (s : OrderedSet α) (p : α → Prop) [DecidablePred p] : Decidable (∀ a ∈ s, p a) :=
  inferInstanceAs (Decidable (∀ a ∈ s.items, p a))

theorem nodup (s : OrderedSet α) : s.items.Nodup := s.ascending.imp ne_of_lt

/-- A set is given by its members. -/
theorem ext {s t : OrderedSet α} (same : ∀ a, a ∈ s ↔ a ∈ t) : s = t := by
  have perm : s.items.Perm t.items := (List.perm_ext_iff_of_nodup s.nodup t.nodup).mpr same
  have items : s.items = t.items := perm.eq_of_pairwise
    (fun _ _ _ _ before after => absurd (before.trans after) (lt_irrefl _)) s.ascending t.ascending
  cases s
  cases t
  cases items
  rfl

def empty : OrderedSet α := ⟨[], .nil⟩

@[simp]
theorem not_mem_empty {a : α} : a ∉ (empty : OrderedSet α) := List.not_mem_nil

def isEmpty (s : OrderedSet α) : Bool := s.items.isEmpty

theorem isEmpty_eq_false_iff {s : OrderedSet α} : s.isEmpty = false ↔ ∃ a, a ∈ s := by
  rw [isEmpty, List.isEmpty_eq_false_iff_exists_mem]
  rfl

def size (s : OrderedSet α) : Nat := s.items.length

/-! ## Insertion -/

def insertItem (a : α) : List α → List α
  | [] => [a]
  | b :: rest => if a < b then a :: b :: rest else if a = b then b :: rest else b :: insertItem a rest

theorem mem_insertItem {a c : α} {items : List α} : c ∈ insertItem a items ↔ c = a ∨ c ∈ items := by
  induction items with
  | nil => simp [insertItem]
  | cons b rest ih =>
      simp only [insertItem]
      split_ifs with before same
      · simp
      · subst same
        simp
      · simp only [List.mem_cons, ih]
        exact or_left_comm

theorem ascending_insertItem {a : α} {items : List α} (ascending : items.Pairwise (· < ·)) :
    (insertItem a items).Pairwise (· < ·) := by
  induction items with
  | nil => simp [insertItem]
  | cons b rest ih =>
      obtain ⟨first, sorted⟩ := List.pairwise_cons.mp ascending
      simp only [insertItem]
      split_ifs with before same
      · refine List.pairwise_cons.mpr ⟨?_, ascending⟩
        intro c within
        rcases List.mem_cons.mp within with rfl | later
        · exact before
        · exact before.trans (first c later)
      · exact ascending
      · refine List.pairwise_cons.mpr ⟨?_, ih sorted⟩
        intro c within
        rcases mem_insertItem.mp within with rfl | later
        · exact lt_of_le_of_ne (not_lt.mp before) (Ne.symm same)
        · exact first c later

def insert (s : OrderedSet α) (a : α) : OrderedSet α := ⟨insertItem a s.items, ascending_insertItem s.ascending⟩

@[simp]
theorem mem_insert {s : OrderedSet α} {a c : α} : c ∈ s.insert a ↔ c = a ∨ c ∈ s := mem_insertItem

def insertAll (s : OrderedSet α) (items : List α) : OrderedSet α := items.foldl insert s

@[simp]
theorem mem_insertAll {items : List α} {s : OrderedSet α} {c : α} :
    c ∈ s.insertAll items ↔ c ∈ items ∨ c ∈ s := by
  induction items generalizing s with
  | nil => simp [insertAll]
  | cons a rest ih =>
      have tail : c ∈ s.insertAll (a :: rest) ↔ c ∈ rest ∨ c ∈ s.insert a := ih
      rw [tail, mem_insert, List.mem_cons]
      exact or_left_comm.trans (or_assoc).symm

/-! ## What is kept -/

def keep (s : OrderedSet α) (test : α → Bool) : OrderedSet α := ⟨s.items.filter test, s.ascending.filter test⟩

@[simp]
theorem mem_keep {s : OrderedSet α} {test : α → Bool} {a : α} : a ∈ s.keep test ↔ a ∈ s ∧ test a = true :=
  List.mem_filter

def erase (s : OrderedSet α) (a : α) : OrderedSet α := s.keep fun c => decide (c ≠ a)

@[simp]
theorem mem_erase {s : OrderedSet α} {a c : α} : c ∈ s.erase a ↔ c ∈ s ∧ c ≠ a := by simp [erase]

/-! ## Sizes -/

/-- A part of the same size is the whole. -/
theorem eq_of_subset_of_size {s t : OrderedSet α} (subset : ∀ a ∈ s, a ∈ t) (size : t.size ≤ s.size) :
    s = t := by
  have part : s.items.Subperm t.items := s.nodup.subperm subset
  have perm : s.items.Perm t.items := part.perm_of_length_le size
  exact ext fun a => perm.mem_iff

theorem size_lt_of_subset {s t : OrderedSet α} (subset : ∀ a ∈ s, a ∈ t) (apart : s ≠ t) : s.size < t.size := by
  by_contra large
  exact apart (eq_of_subset_of_size subset (by omega))

end OrderedSet

end Containers
