import Mathlib.Data.List.Dedup
import Mathlib.Data.List.Nodup
import Mathlib.Tactic.Common

/-! The elements of a history by how recently they were used, and the list that keeps
the `n` most recent ones: the element in use moves to the front, and what is then
too long loses its end. -/
namespace Containers

variable {α : Type*} [DecidableEq α] {n : ℕ} {a : α} {history l : List α}

/-- The distinct elements of a history, the last used one first. -/
def recent (history : List α) : List α := history.dedup.reverse

@[simp] theorem recent_nil : recent ([] : List α) = [] := rfl

@[simp] theorem mem_recent : a ∈ recent history ↔ a ∈ history := by simp [recent]

theorem nodup_recent (history : List α) : (recent history).Nodup :=
  List.nodup_reverse.mpr history.nodup_dedup

/-- A use moves the element behind all others in the order of last uses. -/
theorem dedup_append_singleton (history : List α) (a : α) :
    (history ++ [a]).dedup = history.dedup.erase a ++ [a] := by
  induction history with
  | nil => simp
  | cons b rest ih =>
      by_cases same : b = a
      · subst same
        rw [List.cons_append, List.dedup_cons_of_mem (by simp), ih]
        by_cases again : b ∈ rest
        · rw [List.dedup_cons_of_mem again]
        · rw [List.dedup_cons_of_notMem again, List.erase_cons_head,
            List.erase_of_not_mem (by simpa using again)]
      · by_cases again : b ∈ rest
        · rw [List.cons_append, List.dedup_cons_of_mem (by simp [again]), ih, List.dedup_cons_of_mem again]
        · rw [List.cons_append, List.dedup_cons_of_notMem (by simp [again, same]), ih,
            List.dedup_cons_of_notMem again, List.erase_cons_tail (by simpa using same), List.cons_append]

theorem recent_append_singleton (history : List α) (a : α) :
    recent (history ++ [a]) = a :: (recent history).erase a := by
  rw [recent, dedup_append_singleton, List.reverse_append, List.reverse_singleton, List.singleton_append,
    (nodup_recent history).erase_eq_filter, recent, List.filter_reverse,
    history.nodup_dedup.erase_eq_filter]

/-- The list after one use: what falls off the end was used least recently. -/
def touch (n : ℕ) (a : α) (l : List α) : List α := (a :: l.erase a).take n

theorem take_erase (l : List α) (a : α) (n : ℕ) :
    ((l.take (n + 1)).erase a).take n = (l.erase a).take n := by
  induction l generalizing n with
  | nil => rfl
  | cons b rest ih =>
      by_cases same : b = a
      · subst same
        rw [List.take_succ_cons, List.erase_cons_head, List.erase_cons_head, List.take_take, Nat.min_self]
      · have apart : ¬(b == a) = true := by simpa using same
        rw [List.take_succ_cons, List.erase_cons_tail apart, List.erase_cons_tail apart]
        cases n with
        | zero => rfl
        | succ n => rw [List.take_succ_cons, List.take_succ_cons, ih]

/-- Keeping the `n` most recent elements needs only those kept so far. -/
theorem take_recent_append_singleton (positive : 0 < n) (history : List α) (a : α) :
    (recent (history ++ [a])).take n = touch n a ((recent history).take n) := by
  cases n with
  | zero => contradiction
  | succ n => rw [recent_append_singleton, touch, List.take_succ_cons, List.take_succ_cons, take_erase]

end Containers
