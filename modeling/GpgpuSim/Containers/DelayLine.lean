import Mathlib.Data.List.ReduceOption

/-! Lines of places, each empty or with an element, as a delay queue has them over time: what has left
followed by what is still inside. Such a line only changes behind its last element. -/
namespace Containers

variable {α : Type*} {line later : List (Option α)} {added : List α}

/-- Empty places at the end give way to new ones, which bring the elements of `added`. -/
def Extends (line later : List (Option α)) (added : List α) : Prop :=
  ∃ core blanks tail, line = core ++ List.replicate blanks none ∧ later = core ++ tail ∧ tail.reduceOption = added

namespace Extends

theorem refl (line : List (Option α)) : Extends line line [] :=
  ⟨line, 0, [], by simp, by simp, rfl⟩

theorem append (line tail : List (Option α)) : Extends line (line ++ tail) tail.reduceOption :=
  ⟨line, 0, tail, by simp, rfl, rfl⟩

theorem trim (line : List (Option α)) (blanks : Nat) : Extends (line ++ List.replicate blanks none) line [] :=
  ⟨line, blanks, [], rfl, by simp, rfl⟩

theorem replace (front : List (Option α)) (a : Option α) : Extends (front ++ [none]) (front ++ [a]) [a].reduceOption :=
  ⟨front, 1, [a], rfl, rfl, rfl⟩

/-- Places in front of both lines change nothing. -/
theorem prepend (front : List (Option α)) (grown : Extends line later added) :
    Extends (front ++ line) (front ++ later) added := by
  obtain ⟨core, blanks, tail, rfl, rfl, elements⟩ := grown
  exact ⟨front ++ core, blanks, tail, by simp, by simp, elements⟩

/-- An element keeps its place. -/
theorem keeps {places : List (Option α)} (grown : Extends places later added) {i : Nat} {a : α}
    (here : places[i]? = some (some a)) : later[i]? = some (some a) := by
  obtain ⟨core, blanks, tail, rfl, rfl, -⟩ := grown
  by_cases inside : i < core.length
  · rw [List.getElem?_append_left inside] at here ⊢
    exact here
  · rw [List.getElem?_append_right (Nat.not_lt.mp inside), List.getElem?_replicate] at here
    split at here <;> simp at here

/-- The elements of a line are those it had and the added ones behind them. -/
theorem elements (grown : Extends line later added) : later.reduceOption = line.reduceOption ++ added := by
  obtain ⟨core, blanks, tail, rfl, rfl, rfl⟩ := grown
  simp only [List.reduceOption_append, List.reduceOption_replicate_none, List.append_nil]

end Extends

end Containers
