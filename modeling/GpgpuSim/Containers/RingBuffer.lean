import Mathlib.Data.List.Nodup
import Mathlib.Data.Nat.ModEq
import Mathlib.Logic.Function.Basic

/-! Ring buffers: an array of `size` places that is filled at the head and emptied at the tail. -/
namespace Containers

structure RingBuffer (α : Type*) (size : Nat) where
  data : Nat → α
  head : Nat
  tail : Nat
  num : Nat
  tail_lt : tail < size
  num_le : num ≤ size
  head_eq : head = (tail + num) % size

namespace RingBuffer

variable {α : Type*} {size : Nat}

/-- An empty buffer, whatever its places hold. -/
def create (data : Nat → α) (positive : 0 < size) : RingBuffer α size where
  data
  head := 0
  tail := 0
  num := 0
  tail_lt := positive
  num_le := Nat.zero_le _
  head_eq := (Nat.zero_mod _).symm

def full (r : RingBuffer α size) : Bool := r.num == size

def empty (r : RingBuffer α size) : Bool := r.num == 0

/-- The place of the new entry; a full buffer takes none. -/
def push (r : RingBuffer α size) (e : α) : Option (Nat × RingBuffer α size) :=
  if room : r.num = size then none
  else some (r.head, {
    data := Function.update r.data r.head e
    head := (r.head + 1) % size
    tail := r.tail
    num := r.num + 1
    tail_lt := r.tail_lt
    num_le := Nat.lt_of_le_of_ne r.num_le room
    head_eq := by rw [r.head_eq, Nat.mod_add_mod, Nat.add_assoc] })

def pop (r : RingBuffer α size) : Option (α × RingBuffer α size) :=
  if some_left : r.num = 0 then none
  else some (r.data r.tail, {
    data := r.data
    head := r.head
    tail := (r.tail + 1) % size
    num := r.num - 1
    tail_lt := Nat.mod_lt _ (Nat.zero_lt_of_lt r.tail_lt)
    num_le := Nat.le_trans (Nat.sub_le _ _) r.num_le
    head_eq := by
      have shifted : r.tail + 1 + (r.num - 1) = r.tail + r.num := by omega
      rw [r.head_eq, Nat.mod_add_mod, shifted] })

/-- The oldest entry. -/
def peek (r : RingBuffer α size) : α := r.data r.tail

def peekAt (r : RingBuffer α size) (index : Nat) : Option α := if index < size then some (r.data index) else none

/-- A write through the reference that `peekAt` gives. -/
def setAt (r : RingBuffer α size) (index : Nat) (e : α) : RingBuffer α size :=
  { r with data := Function.update r.data index e }

/-- The occupied places and their entries, oldest first. -/
def cells (r : RingBuffer α size) : List (Nat × α) :=
  (List.range r.num).map fun k => ((r.tail + k) % size, r.data ((r.tail + k) % size))

def toList (r : RingBuffer α size) : List α := r.cells.map Prod.snd

variable {r next : RingBuffer α size} {e : α} {i : Nat}

@[simp] theorem cells_create (data : Nat → α) (positive : 0 < size) : (create data positive).cells = [] := rfl

@[simp] theorem toList_create (data : Nat → α) (positive : 0 < size) : (create data positive).toList = [] := rfl

theorem length_toList (r : RingBuffer α size) : r.toList.length = r.num := by
  rw [toList, cells, List.length_map, List.length_map, List.length_range]

theorem empty_iff : r.empty = true ↔ r.toList = [] := by
  rw [empty, beq_iff_eq, ← List.length_eq_zero_iff, length_toList]

theorem full_iff : r.full = true ↔ r.toList.length = size := by rw [full, beq_iff_eq, length_toList]

theorem of_mem_cells (member : (i, e) ∈ r.cells) : i < size ∧ r.data i = e := by
  obtain ⟨k, -, place⟩ := List.mem_map.mp member
  obtain ⟨rfl, rfl⟩ := Prod.mk.inj place
  exact ⟨Nat.mod_lt _ (Nat.zero_lt_of_lt r.tail_lt), rfl⟩

theorem peekAt_of_mem (member : (i, e) ∈ r.cells) : r.peekAt i = some e := by
  obtain ⟨inside, rfl⟩ := of_mem_cells member
  exact if_pos inside

theorem cells_push (pushed : r.push e = some (i, next)) : next.cells = r.cells ++ [(i, e)] := by
  unfold push at pushed
  split at pushed
  · cases pushed
  next room =>
    obtain ⟨rfl, rfl⟩ := Prod.mk.inj (Option.some.inj pushed)
    have below : r.num < size := Nat.lt_of_le_of_ne r.num_le room
    simp only [cells, List.range_succ, List.map_append, List.map_singleton, ← r.head_eq, Function.update_self]
    congr 1
    refine List.map_congr_left fun k inside => ?_
    have apart : (r.tail + k) % size ≠ r.head := by
      rw [r.head_eq]
      intro same
      have earlier := List.mem_range.mp inside
      have k_eq := (Nat.ModEq.add_left_cancel' r.tail same).eq_of_lt_of_lt (earlier.trans below) below
      exact Nat.ne_of_lt earlier k_eq
    rw [Function.update_of_ne apart]

theorem cells_pop (popped : r.pop = some (e, next)) : r.cells = (r.tail, e) :: next.cells := by
  unfold pop at popped
  split at popped
  · cases popped
  next some_left =>
    obtain ⟨rfl, rfl⟩ := Prod.mk.inj (Option.some.inj popped)
    obtain ⟨n, is_succ⟩ := Nat.exists_eq_succ_of_ne_zero some_left
    simp only [cells, is_succ, List.range_succ_eq_map, List.map_cons, List.map_map, Nat.add_zero,
      Nat.mod_eq_of_lt r.tail_lt, Nat.succ_sub_one]
    congr 1
    refine List.map_congr_left fun k _ => ?_
    have place : (r.tail + 1 + k) % size = (r.tail + (k + 1)) % size := by rw [Nat.add_right_comm, Nat.add_assoc]
    simp only [Function.comp_apply, Nat.mod_add_mod, Nat.succ_eq_add_one, place]

theorem cells_setAt (r : RingBuffer α size) (i : Nat) (e : α) :
    (r.setAt i e).cells = r.cells.map fun cell => if cell.1 = i then (i, e) else cell := by
  rw [cells, cells, List.map_map]
  refine List.map_congr_left fun k _ => ?_
  by_cases here : (r.tail + k) % size = i
  · simp [setAt, here]
  · simp [setAt, here]

theorem exists_push (room : r.full = false) (e : α) : ∃ i next, r.push e = some (i, next) := by
  have below : r.num ≠ size := by simpa [full] using room
  exact ⟨_, _, dif_neg below⟩

theorem exists_pop (some_left : r.empty = false) : ∃ e next, r.pop = some (e, next) := by
  have positive : r.num ≠ 0 := by simpa [empty] using some_left
  exact ⟨_, _, dif_neg positive⟩

theorem peek_of_pop (popped : r.pop = some (e, next)) : r.peek = e := by
  have member : (r.tail, e) ∈ r.cells := by
    rw [cells_pop popped]
    exact List.mem_cons_self
  exact (of_mem_cells member).2

theorem toList_push (pushed : r.push e = some (i, next)) : next.toList = r.toList ++ [e] := by
  rw [toList, cells_push pushed, List.map_append]
  rfl

theorem toList_pop (popped : r.pop = some (e, next)) : r.toList = e :: next.toList := by
  rw [toList, cells_pop popped]
  rfl

end RingBuffer

end Containers
