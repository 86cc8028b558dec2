import Mathlib.Algebra.BigOperators.Group.List.Basic

/-! Totals of tables over some of their keys, and the loops that compute them. -/
namespace Containers

variable {σ τ κ M : Type*}

/-- Tallying the entrywise sum of two tables merges the tallies of each. -/
theorem foldl_tally_add [Add M] {merge : τ → τ → τ} {tally : τ → κ → M → τ}
    (tallies : ∀ s t k m n, tally (merge s t) k (m + n) = merge (tally s k m) (tally t k n)) (table table' : κ → M)
    (keys : List κ) (s t : τ) :
    keys.foldl (fun t k => tally t k (table k + table' k)) (merge s t) =
      merge (keys.foldl (fun t k => tally t k (table k)) s) (keys.foldl (fun t k => tally t k (table' k)) t) := by
  induction keys generalizing s t with
  | nil => rfl
  | cons k keys ih => rw [List.foldl_cons, tallies, ih, List.foldl_cons, List.foldl_cons]

/-- What summarises a merge of two as the merge of their summaries does so for any number. -/
theorem summary_foldl {summary : σ → τ} {merge : σ → σ → σ} {mergeSummary : τ → τ → τ}
    (merges : ∀ s s', summary (merge s s') = mergeSummary (summary s) (summary s')) (l : List σ) (s : σ) :
    summary (l.foldl merge s) = (l.map summary).foldl mergeSummary (summary s) := by
  rw [List.foldl_map]
  exact (List.foldl_hom summary fun s s' => (merges s s').symm).symm

section Monoid
variable [AddCommMonoid M] {keys : List κ} {counts : κ → Bool}

/-- The total of the entries of `table` at the keys that count. -/
def total (keys : List κ) (counts : κ → Bool) (table : κ → M) : M :=
  ((keys.filter counts).map table).sum

theorem foldl_total (table : κ → M) (start : M) :
    keys.foldl (fun sum k => if counts k then sum + table k else sum) start = start + total keys counts table := by
  induction keys generalizing start with
  | nil => exact (add_zero start).symm
  | cons k keys ih =>
    rw [List.foldl_cons, ih, total, total]
    cases counted : counts k with
    | true =>
      rw [List.filter_cons_of_pos counted, List.map_cons, List.sum_cons, if_pos rfl, add_assoc]
    | false => rw [List.filter_cons_of_neg (by simp [counted]), if_neg Bool.false_ne_true]

theorem total_zero : total keys counts (fun _ => (0 : M)) = 0 := by
  simp only [total, List.map_const', List.sum_replicate, nsmul_zero]

theorem total_add (t u : κ → M) :
    total keys counts (fun k => t k + u k) = total keys counts t + total keys counts u :=
  List.sum_map_add

/-- Totals may be taken entry by entry. -/
theorem total_sum {ι : Type*} (tables : ι → κ → M) (l : List ι) :
    total keys counts (fun k => (l.map fun i => tables i k).sum) =
      (l.map fun i => total keys counts (tables i)).sum := by
  induction l with
  | nil => exact total_zero
  | cons i l ih => simp only [List.map_cons, List.sum_cons, total_add, ih]

theorem foldl_sum {entry : σ → M} {merge : σ → σ → σ} {added : σ → M}
    (merges : ∀ s s', entry (merge s s') = entry s + added s') (l : List σ) (s : σ) :
    entry (l.foldl merge s) = entry s + (l.map added).sum := by
  induction l generalizing s with
  | nil => exact (add_zero _).symm
  | cons s' l ih => rw [List.foldl_cons, ih, merges, List.map_cons, List.sum_cons, add_assoc]

end Monoid

end Containers
