import Mathlib.Data.List.Nodup

/-! Sampling a sequence at evenly spread positions, into a queue that takes no more than its capacity. -/
namespace Containers

/-- The middle of part `i` when `total` positions are divided into `count` equal parts. -/
def spreadPosition (total count i : Nat) : Nat := (2 * i + 1) * total / (2 * count)

def spreadPositions (total count : Nat) : List Nat := (List.range count).map (spreadPosition total count)

variable {total count i j p : Nat}

/-- A part has at least one position, so the middles of two parts differ. -/
theorem spreadPosition_lt_spreadPosition (fits : count ≤ total) (positive : 0 < count) (less : i < j) :
    spreadPosition total count i < spreadPosition total count j := by
  have width : 0 < 2 * count := Nat.mul_pos Nat.two_pos positive
  have step : (2 * i + 1) * total + 2 * count ≤ (2 * j + 1) * total := by
    calc (2 * i + 1) * total + 2 * count ≤ (2 * i + 1) * total + 2 * total :=
          Nat.add_le_add_left (Nat.mul_le_mul_left 2 fits) _
      _ = (2 * i + 1 + 2) * total := (Nat.add_mul _ _ _).symm
      _ ≤ (2 * j + 1) * total := Nat.mul_le_mul_right total (by omega)
  calc spreadPosition total count i < spreadPosition total count i + 1 := Nat.lt_succ_self _
    _ = ((2 * i + 1) * total + 2 * count) / (2 * count) := (Nat.add_div_right _ width).symm
    _ ≤ spreadPosition total count j := Nat.div_le_div_right step

theorem spreadPosition_lt (some_position : 0 < total) (inside : i < count) :
    spreadPosition total count i < total := by
  have positive : 0 < count := Nat.zero_lt_of_lt inside
  rw [spreadPosition, Nat.div_lt_iff_lt_mul (Nat.mul_pos Nat.two_pos positive), Nat.mul_comm total]
  exact Nat.mul_lt_mul_of_pos_right (by omega) some_position

theorem spreadPositions_increase (fits : count ≤ total) : (spreadPositions total count).Pairwise (· < ·) := by
  apply List.pairwise_map.mpr
  apply List.Pairwise.imp_of_mem _ List.pairwise_lt_range
  intro i j _ inside less
  exact spreadPosition_lt_spreadPosition fits (Nat.zero_lt_of_lt (List.mem_range.mp inside)) less

theorem spreadPositions_nodup (fits : count ≤ total) : (spreadPositions total count).Nodup :=
  (spreadPositions_increase fits).imp Nat.ne_of_lt

theorem lt_of_mem_spreadPositions (fits : count ≤ total) (member : p ∈ spreadPositions total count) : p < total := by
  obtain ⟨i, within, rfl⟩ := List.mem_map.mp member
  have inside : i < count := List.mem_range.mp within
  exact spreadPosition_lt (Nat.lt_of_lt_of_le (Nat.zero_lt_of_lt inside) fits) inside

/-- What is pushed goes to the back until the queue is full, and the rest is dropped. -/
theorem foldl_push_eq {α β : Type*} (capacity : Nat) (f : α → β) (items : List α) (queue : List β) :
    items.foldl (fun queue i => if queue.length ≥ capacity then queue else queue ++ [f i]) queue =
      queue ++ (items.map f).take (capacity - queue.length) := by
  induction items generalizing queue with
  | nil => simp
  | cons i items ih =>
      rw [List.foldl_cons, ih, List.map_cons]
      by_cases full : queue.length ≥ capacity
      · rw [if_pos full, Nat.sub_eq_zero_of_le full, List.take_zero, List.take_zero]
      · have room : capacity - queue.length = capacity - (queue ++ [f i]).length + 1 := by
          rw [List.length_append, List.length_singleton]
          omega
        rw [if_neg full, room, List.take_succ_cons, List.append_assoc, List.singleton_append]

end Containers
