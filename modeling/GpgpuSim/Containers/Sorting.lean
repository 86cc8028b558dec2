import Mathlib.Data.List.Sort

/-! Sorting and priority queues with an unspecified order of ties. A sorter or a
queue is any function that meets the documented postcondition of the library
call; a program that uses one is verified for every way of breaking ties. -/
namespace Containers

variable {α : Type*}

/-- A comparator whose negation is a total preorder. -/
structure WeakOrder (before : α → α → Bool) : Prop where
  asymm : ∀ a b, before a b = true → before b a = false
  trans : ∀ a b c, before b a = false → before c b = false → before c a = false

/-- Orders an element by the rank that `key` gives it. -/
theorem WeakOrder.of_key {κ : Type*} [LinearOrder κ] (key : α → κ) :
    WeakOrder fun a b => decide (key a < key b) where
  asymm a b h := by
    simp only [decide_eq_true_eq] at h
    simpa only [decide_eq_false_iff_not, not_lt] using h.le
  trans a b c hab hbc := by
    simp only [decide_eq_false_iff_not, not_lt] at hab hbc ⊢
    exact hab.trans hbc

/-- An unstable sort: some permutation of the input in which no element
compares before an earlier one. -/
structure Sorter (before : α → α → Bool) where
  sort : List α → List α
  perm : ∀ l, (sort l).Perm l
  sorted : ∀ l, (sort l).Pairwise fun a b => before b a = false

namespace Sorter

variable {before : α → α → Bool} (sorter : Sorter before)

@[simp] theorem mem_sort {a : α} {l : List α} : a ∈ sorter.sort l ↔ a ∈ l :=
  (sorter.perm l).mem_iff

@[simp] theorem length_sort (l : List α) : (sorter.sort l).length = l.length :=
  (sorter.perm l).length_eq

@[simp] theorem sort_eq_nil {l : List α} : sorter.sort l = [] ↔ l = [] := by
  rw [← List.length_eq_zero_iff, length_sort, List.length_eq_zero_iff]

/-- A sorter that decides ties by a finer comparator is one for the coarser comparator. -/
def coarsen {finer : α → α → Bool} (sorter : Sorter finer)
    (respects : ∀ a b, before a b = true → finer a b = true) : Sorter before where
  sort := sorter.sort
  perm := sorter.perm
  sorted l := (sorter.sorted l).imp fun {a b} ordered => by
    cases h : before b a with
    | false => rfl
    | true => rw [respects b a h] at ordered; exact ordered

/-- The stable sorter, one of the admissible ones. -/
def insertion (before : α → α → Bool) (order : WeakOrder before) : Sorter before :=
  let notAfter : α → α → Prop := fun a b => before b a = false
  have : Std.Total notAfter := ⟨fun a b => by
    cases h : before b a with
    | false => exact .inl h
    | true => exact .inr (order.asymm b a h)⟩
  have : IsTrans α notAfter := ⟨fun a b c => order.trans a b c⟩
  { sort := List.insertionSort notAfter
    perm := List.perm_insertionSort notAfter
    sorted := List.pairwise_insertionSort notAfter }

end Sorter

/-- A priority queue seen as the list of its elements: `pop` removes some
element that no remaining one compares before. -/
structure PriorityQueue (before : α → α → Bool) where
  pop : List α → Option (α × List α)
  pop_isSome : ∀ l, l ≠ [] → (pop l).isSome
  perm : ∀ l a rest, pop l = some (a, rest) → (a :: rest).Perm l
  least : ∀ l a rest, pop l = some (a, rest) → ∀ b ∈ rest, before b a = false

namespace PriorityQueue

variable {before : α → α → Bool} (queue : PriorityQueue before)

theorem pop_length {l rest : List α} {a : α} (h : queue.pop l = some (a, rest)) :
    rest.length + 1 = l.length := by
  simpa only [List.length_cons] using (queue.perm l a rest h).length_eq

/-- Two pops take two elements of lowest rank. -/
theorem pop_twice {l : List α} (long : 1 < l.length) :
    ∃ a b rest rest', queue.pop l = some (a, rest) ∧ queue.pop rest = some (b, rest') ∧
      (a :: b :: rest').Perm l ∧ (∀ c ∈ b :: rest', before c a = false) ∧
      ∀ c ∈ rest', before c b = false := by
  have nonempty : l ≠ [] := by rintro rfl; simp at long
  obtain ⟨⟨a, rest⟩, popA⟩ := Option.isSome_iff_exists.mp (queue.pop_isSome l nonempty)
  have size := queue.pop_length popA
  have nonempty' : rest ≠ [] := by rintro rfl; simp at size; omega
  obtain ⟨⟨b, rest'⟩, popB⟩ := Option.isSome_iff_exists.mp (queue.pop_isSome rest nonempty')
  have permB := queue.perm rest b rest' popB
  refine ⟨a, b, rest, rest', popA, popB, (permB.cons a).trans (queue.perm l a rest popA), ?_,
    queue.least rest b rest' popB⟩
  intro c member
  exact queue.least l a rest popA c (permB.mem_iff.mp member)

/-- Takes the first element of lowest rank. -/
def scanPop (before : α → α → Bool) : List α → Option (α × List α)
  | [] => none
  | a :: l =>
      match scanPop before l with
      | none => some (a, [])
      | some (b, rest) => if before b a then some (b, a :: rest) else some (a, b :: rest)

theorem scanPop_spec (order : WeakOrder before) (l : List α) :
    match scanPop before l with
    | none => l = []
    | some (a, rest) => (a :: rest).Perm l ∧ ∀ b ∈ rest, before b a = false := by
  induction l with
  | nil => simp [scanPop]
  | cons a l ih =>
      simp only [scanPop]
      cases found : scanPop before l with
      | none =>
          rw [found] at ih
          simp only [ih]
          exact ⟨.refl _, by simp⟩
      | some popped =>
          obtain ⟨b, rest⟩ := popped
          rw [found] at ih
          obtain ⟨perm, least⟩ := ih
          cases lower : before b a with
          | true =>
              simp only [lower, if_true]
              refine ⟨(List.Perm.swap a b rest).trans (perm.cons a), ?_⟩
              intro c member
              rcases List.mem_cons.mp member with rfl | member
              · exact order.asymm _ _ lower
              · exact least c member
          | false =>
              simp only [lower, Bool.false_eq_true, if_false]
              refine ⟨perm.cons a, ?_⟩
              intro c member
              rcases List.mem_cons.mp member with rfl | member
              · exact lower
              · exact order.trans a b c lower (least c member)

/-- A linear scan, one of the admissible queues. -/
def scan (before : α → α → Bool) (order : WeakOrder before) : PriorityQueue before where
  pop := scanPop before
  pop_isSome l nonempty := by
    have spec := scanPop_spec order l
    cases h : scanPop before l with
    | none => rw [h] at spec; exact absurd spec nonempty
    | some popped => rfl
  perm l a rest h := by
    have spec := scanPop_spec order l
    rw [h] at spec
    exact spec.1
  least l a rest h := by
    have spec := scanPop_spec order l
    rw [h] at spec
    exact spec.2

end PriorityQueue

end Containers
