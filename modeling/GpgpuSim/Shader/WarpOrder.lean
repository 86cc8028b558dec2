import GpgpuSim.Containers.Sorting
import Mathlib.Data.List.Rotate
import Mathlib.Data.Prod.Lex

/-! The order in which a warp scheduler considers its warps: round robin from the one that issued last, or
by priority, where the one that issued last may come first. -/
namespace GpgpuSim.Shader
open Containers

inductive SchedulerPrioritization
  | lrr
  | srr
  | gto
  | gtlrr
  | gty
  | oldest
  | youngest
  deriving DecidableEq, Repr

inductive OrderingType
  | greedyThenPriorityFunc
  | priorityFuncOnly
  | numOrdering
  deriving DecidableEq, Repr

inductive WarpOrderFault
  | assertion
  | undefined
  | unimplemented
  deriving DecidableEq, Repr

section
variable {α : Type*} [DecidableEq α]

omit [DecidableEq α] in
/-- The loop of `order_lrr`, from a position of the list or its end. -/
def lrrLoop (input : List α) : Nat → Nat → Except WarpOrderFault (List α)
  | 0, _ => return []
  | count + 1, iter => do
      let iter := if iter = input.length then 0 else iter
      match input[iter]? with
      | none => throw .undefined
      | some value => return value :: (← lrrLoop input count (iter + 1))

/-- Where the round starts: after the last issued position, or at the front when that is the end. -/
def lrrStart (input : List α) (last : Nat) : Nat := if last = input.length then 0 else last + 1

def orderLrr (input : List α) (last numWarpsToAdd : Nat) : Except WarpOrderFault (List α) := do
  unless numWarpsToAdd ≤ input.length do throw .assertion
  lrrLoop input numWarpsToAdd (lrrStart input last)

def orderByPriority {before : α → α → Bool} (sorter : Sorter before) (input : List α) (last numWarpsToAdd : Nat)
    (ordering : OrderingType) : Except WarpOrderFault (List α) := do
  unless numWarpsToAdd ≤ input.length do throw .assertion
  match ordering with
  | .greedyThenPriorityFunc =>
      match input[last]? with
      | none => throw .undefined
      | some greedyValue =>
          return greedyValue :: ((sorter.sort input).take numWarpsToAdd).filter fun value => value ≠ greedyValue
  | .priorityFuncOnly => return (sorter.sort input).take numWarpsToAdd
  | .numOrdering => throw .unimplemented

end

/-! ## The schedulers -/

/-- What the order reads of the warps. -/
structure WarpStatus (W : Type*) where
  doneExit : W → Bool
  waiting : W → Bool
  dynamicWarpId : W → Nat

/-- The order of two pointers to warps; the null pointer has the lowest address. -/
def sortWarpsByOldestDynamicId {W : Type*} (status : WarpStatus W) (lhs rhs : Option W) : Bool :=
  match lhs, rhs with
  | some lhs, some rhs =>
      if status.doneExit lhs || status.waiting lhs then false
      else if status.doneExit rhs || status.waiting rhs then true
      else status.dynamicWarpId lhs < status.dynamicWarpId rhs
  | none, some _ => true
  | _, none => false

/-- The lists of `scheduler_unit`; the warp that issued last is a position, or the end. -/
structure SchedulerUnit (W : Type*) where
  supervisedWarps : List (Option W)
  lastSupervisedIssued : Nat
  deriving DecidableEq, Repr

namespace SchedulerUnit

variable {W : Type*} [DecidableEq W] {status : WarpStatus W} (sorter : Sorter (sortWarpsByOldestDynamicId status))
  (unit : SchedulerUnit W)

omit [DecidableEq W] in
/-- `lrr_scheduler::order_warps`; this and the others give `m_next_cycle_prioritized_warps`. -/
def lrrOrderWarps : Except WarpOrderFault (List (Option W)) :=
  orderLrr unit.supervisedWarps unit.lastSupervisedIssued unit.supervisedWarps.length

def gtoOrderWarps : Except WarpOrderFault (List (Option W)) :=
  orderByPriority sorter unit.supervisedWarps unit.lastSupervisedIssued unit.supervisedWarps.length
    .greedyThenPriorityFunc

def oldestOrderWarps : Except WarpOrderFault (List (Option W)) :=
  orderByPriority sorter unit.supervisedWarps unit.lastSupervisedIssued unit.supervisedWarps.length .priorityFuncOnly

def swlOrderWarps (prioritization : SchedulerPrioritization) (numWarpsToLimit : Nat) :
    Except WarpOrderFault (List (Option W)) :=
  if prioritization = .gto then
    orderByPriority sorter unit.supervisedWarps unit.lastSupervisedIssued
      (min numWarpsToLimit unit.supervisedWarps.length) .greedyThenPriorityFunc
  else throw .unimplemented

end SchedulerUnit

/-! ## What is chosen -/

section
variable {α : Type*} {input best result : List α} {last k : Nat} {a greedy : α} {before : α → α → Bool}

/-- So many different elements of the list. -/
structure Chosen (input : List α) (k : Nat) (result : List α) : Prop where
  length : result.length = k
  nodup : result.Nodup
  subset : result ⊆ input

/-- The first elements of some sorted order of the list. -/
structure Best (before : α → α → Bool) (input : List α) (k : Nat) (best : List α) : Prop where
  length : best.length = k
  sorted : best.Pairwise fun a b => before b a = false
  others : ∃ rest, (best ++ rest).Perm input ∧ ∀ a ∈ best, ∀ b ∈ rest, before b a = false

/-- From a position on, one after the other and around. -/
theorem lrrLoop_ok (count : Nat) {iter : Nat} (enough : count ≤ input.length) (inside : iter ≤ input.length) :
    lrrLoop input count iter = .ok ((input.rotate iter).take count) := by
  induction count generalizing iter with
  | zero => rfl
  | succ count ih =>
      have nonempty : 0 < input.length := Nat.zero_lt_of_lt enough
      rw [lrrLoop]
      generalize wrapped : (if iter = input.length then 0 else iter) = start
      have within : start < input.length := by
        rw [← wrapped]
        split <;> omega
      have same : input.rotate iter = input.rotate start := by
        rw [← wrapped]
        split
        next atEnd => rw [atEnd, List.rotate_length, List.rotate_zero]
        next => rfl
      have turned : input.rotate start = input[start] :: (input.drop (start + 1) ++ input.take start) := by
        rw [List.rotate_eq_drop_append_take within.le, List.drop_eq_getElem_cons within, List.cons_append]
      have next : input.rotate (start + 1) = input.drop (start + 1) ++ input.take start ++ [input[start]] := by
        rw [List.rotate_eq_drop_append_take within, List.take_succ_eq_append_getElem within, List.append_assoc]
      have room : count ≤ (input.drop (start + 1) ++ input.take start).length := by
        rw [List.length_append, List.length_drop, List.length_take]
        omega
      simp only [List.getElem?_eq_getElem within, ih (Nat.le_of_succ_le enough) within, same, turned, next]
      rw [List.take_append_of_le_length room, List.take_succ_cons]
      rfl

theorem lrrStart_le (position : last ≤ input.length) : lrrStart input last ≤ input.length := by
  rw [lrrStart]
  split <;> omega

theorem orderLrr_ok (enough : k ≤ input.length) (position : last ≤ input.length) :
    orderLrr input last k = .ok ((input.rotate (lrrStart input last)).take k) := by
  rw [orderLrr, if_pos enough]
  exact lrrLoop_ok k enough (lrrStart_le position)

theorem Chosen.take_of_perm (distinct : input.Nodup) (perm : result.Perm input) (enough : k ≤ input.length) :
    Chosen input k (result.take k) where
  length := by rw [List.length_take, perm.length_eq, Nat.min_eq_left enough]
  nodup := (perm.nodup_iff.mpr distinct).sublist (List.take_sublist _ _)
  subset := fun _ member => perm.subset (List.mem_of_mem_take member)

theorem Best.take_sort (sorter : Sorter before) (enough : k ≤ input.length) :
    Best before input k ((sorter.sort input).take k) where
  length := by rw [List.length_take, sorter.length_sort, Nat.min_eq_left enough]
  sorted := (sorter.sorted input).sublist (List.take_sublist _ _)
  others := by
    have ordered := sorter.sorted input
    rw [← List.take_append_drop k (sorter.sort input), List.pairwise_append] at ordered
    exact ⟨(sorter.sort input).drop k, by rw [List.take_append_drop]; exact sorter.perm input, ordered.2.2⟩

/-- As many different elements as the list has are all of them. -/
theorem Chosen.perm (chosen : Chosen input input.length result) : result.Perm input :=
  (List.subperm_of_subset chosen.nodup chosen.subset).perm_of_length_le chosen.length.ge

theorem mem_take_length (sorter : Sorter before) (issued : input[last]? = some greedy) (whole : input.length ≤ k) :
    greedy ∈ (sorter.sort input).take k := by
  rw [List.take_of_length_le (by rwa [sorter.length_sort]), sorter.mem_sort]
  exact List.mem_of_getElem? issued

variable [DecidableEq α]

theorem length_greedy (greedy : α) (distinct : best.Nodup) :
    (greedy :: best.filter fun value => value ≠ greedy).length = best.length + if greedy ∈ best then 0 else 1 := by
  by_cases member : greedy ∈ best
  · have filtered : best.filter (fun value => decide (value ≠ greedy)) = best.erase greedy := by
      rw [distinct.erase_eq_filter]
      exact List.filter_congr fun value _ => by simp [bne, beq_eq_decide]
    have positive := List.length_pos_of_mem member
    rw [List.length_cons, filtered, List.length_erase_of_mem member, if_pos member]
    omega
  · have filtered : best.filter (fun value => decide (value ≠ greedy)) = best :=
      List.filter_eq_self.mpr fun value inside => by
        rw [decide_eq_true_eq]
        exact fun same => member (same ▸ inside)
    rw [List.length_cons, filtered, if_neg member]

theorem nodup_greedy (distinct : best.Nodup) : (greedy :: best.filter fun value => value ≠ greedy).Nodup := by
  rw [List.nodup_cons]
  exact ⟨fun member => by simp at member, distinct.filter _⟩

/-- In the greedy order the last issued element comes first, before the others of the best. -/
def GreedyBest (before : α → α → Bool) (input : List α) (greedy : α) (k : Nat) (result : List α) : Prop :=
  ∃ best, Best before input k best ∧ greedy ∈ best ∧ result = greedy :: best.filter fun value => value ≠ greedy

theorem orderByPriority_only (sorter : Sorter before) (enough : k ≤ input.length) :
    orderByPriority sorter input last k .priorityFuncOnly = .ok ((sorter.sort input).take k) := by
  rw [orderByPriority, if_pos enough]
  rfl

theorem orderByPriority_greedy (sorter : Sorter before) (enough : k ≤ input.length)
    (issued : input[last]? = some greedy) :
    orderByPriority sorter input last k .greedyThenPriorityFunc =
      .ok (greedy :: ((sorter.sort input).take k).filter fun value => value ≠ greedy) := by
  rw [orderByPriority, if_pos enough]
  simp only [issued]
  rfl

/-- The greedy order has the right length exactly when the greedy element is among the best. -/
theorem greedy_chosen_iff (sorter : Sorter before) (distinct : input.Nodup) (enough : k ≤ input.length)
    (issued : input[last]? = some greedy) :
    (Chosen input k (greedy :: ((sorter.sort input).take k).filter fun value => value ≠ greedy) ∧
      GreedyBest before input greedy k (greedy :: ((sorter.sort input).take k).filter fun value => value ≠ greedy)) ↔
      greedy ∈ (sorter.sort input).take k := by
  have taken := Chosen.take_of_perm distinct (sorter.perm input) enough
  have count := length_greedy greedy taken.nodup
  constructor
  · rintro ⟨chosen, -⟩
    by_contra missing
    rw [if_neg missing, taken.length, chosen.length] at count
    omega
  · intro member
    rw [if_pos member, taken.length, Nat.add_zero] at count
    refine ⟨⟨count, nodup_greedy taken.nodup, ?_⟩, _, Best.take_sort sorter enough, member, rfl⟩
    intro value inside
    rcases List.mem_cons.mp inside with rfl | inside
    · exact List.mem_of_getElem? issued
    · exact taken.subset (List.mem_of_mem_filter inside)

end

/-- The comparator ranks the null pointer first and the warps that cannot issue last. -/
theorem weakOrder_oldest {W : Type*} (status : WarpStatus W) : WeakOrder (sortWarpsByOldestDynamicId status) := by
  let key : Option W → Nat ×ₗ Nat
    | none => toLex (0, 0)
    | some w => if status.doneExit w || status.waiting w then toLex (2, 0) else toLex (1, status.dynamicWarpId w)
  have ranks : sortWarpsByOldestDynamicId status = fun a b => decide (key a < key b) := by
    funext a b
    cases a <;> cases b <;> simp only [sortWarpsByOldestDynamicId, key]
    · simp
    · split <;> simp [Prod.Lex.toLex_lt_toLex]
    · split <;> simp [Prod.Lex.toLex_lt_toLex]
    · split <;> split <;> simp [Prod.Lex.toLex_lt_toLex]
  exact ranks ▸ WeakOrder.of_key key

/-- Round robin and priority alone choose as many warps as asked for; the greedy order does so exactly when
the warp that issued last is among the best, so the limiting scheduler keeps its limit exactly then. -/
theorem order_warps_chosen {W : Type*} [DecidableEq W] {status : WarpStatus W}
    (sorter : Sorter (sortWarpsByOldestDynamicId status)) {input : List (Option W)} (distinct : input.Nodup)
    {last : Nat} {greedy : Option W} (issued : input[last]? = some greedy) :
    WeakOrder (sortWarpsByOldestDynamicId status) ∧
    (∀ k ≤ input.length,
      (∀ position ≤ input.length, orderLrr input position k = .ok ((input.rotate (lrrStart input position)).take k) ∧
        Chosen input k ((input.rotate (lrrStart input position)).take k)) ∧
      (∃ best, orderByPriority sorter input last k .priorityFuncOnly = .ok best ∧ Chosen input k best ∧
        Best (sortWarpsByOldestDynamicId status) input k best) ∧
      ∃ result, orderByPriority sorter input last k .greedyThenPriorityFunc = .ok result ∧
        (Chosen input k result ∧ GreedyBest (sortWarpsByOldestDynamicId status) input greedy k result ↔
          greedy ∈ (sorter.sort input).take k)) ∧
    (∀ position ≤ input.length, ∃ order, SchedulerUnit.lrrOrderWarps ⟨input, position⟩ = .ok order ∧ order.Perm input) ∧
    (∃ order, SchedulerUnit.gtoOrderWarps sorter ⟨input, last⟩ = .ok order ∧ order.Perm input) ∧
    (∃ order, SchedulerUnit.oldestOrderWarps sorter ⟨input, last⟩ = .ok order ∧ order.Perm input) ∧
    ∀ limit, ∃ order, SchedulerUnit.swlOrderWarps sorter ⟨input, last⟩ .gto limit = .ok order ∧
      (order.length ≤ limit ↔ greedy ∈ (sorter.sort input).take (min limit input.length)) := by
  have perm := sorter.perm input
  have whole : (sorter.sort input).take input.length = sorter.sort input := by
    rw [← sorter.length_sort input, List.take_length]
  have turned (position : Nat) : (input.rotate (lrrStart input position)).Perm input := List.rotate_perm _ _
  refine ⟨weakOrder_oldest status, fun k enough => ⟨fun position inside => ?_, ?_, ?_⟩, fun position inside => ?_, ?_,
    ?_, fun limit => ?_⟩
  · exact ⟨orderLrr_ok enough inside, .take_of_perm distinct (turned position) enough⟩
  · exact ⟨_, orderByPriority_only sorter enough, .take_of_perm distinct perm enough, Best.take_sort sorter enough⟩
  · exact ⟨_, orderByPriority_greedy sorter enough issued, greedy_chosen_iff sorter distinct enough issued⟩
  · refine ⟨_, orderLrr_ok le_rfl inside, ?_⟩
    rw [List.take_of_length_le (turned position).length_eq.le]
    exact turned position
  · have member := mem_take_length sorter issued le_rfl
    exact ⟨_, orderByPriority_greedy sorter le_rfl issued,
      ((greedy_chosen_iff sorter distinct le_rfl issued).mpr member).1.perm⟩
  · refine ⟨_, orderByPriority_only sorter le_rfl, ?_⟩
    rw [whole]
    exact perm
  · have enough := min_le_right limit input.length
    refine ⟨_, orderByPriority_greedy sorter enough issued, ?_⟩
    have taken := Chosen.take_of_perm distinct perm enough
    rw [length_greedy _ taken.nodup, taken.length]
    by_cases limited : limit < input.length
    · rw [min_eq_left limited.le]
      split <;> simp_all
    · rw [min_eq_right (Nat.not_lt.mp limited)]
      simp [mem_take_length sorter issued le_rfl, Nat.not_lt.mp limited]

/-- Two warps, the younger of which issued last. -/
theorem order_warps_chosen_pair :
    [some 0, some 1].Nodup ∧ [some 0, some 1][1]? = some (some 1) ∧
      WeakOrder (sortWarpsByOldestDynamicId (W := Nat) ⟨fun _ => false, fun _ => false, id⟩) :=
  ⟨by decide, rfl, (order_warps_chosen (.insertion _ (weakOrder_oldest ⟨fun _ => false, fun _ => false, id⟩))
    (by decide : [some 0, some 1].Nodup) (rfl : [some 0, some 1][1]? = some (some 1))).1⟩

/-- With a limit of one the limiting scheduler still considers both of them. -/
theorem limit_exceeded :
    SchedulerUnit.swlOrderWarps (.insertion _ (weakOrder_oldest ⟨fun _ => false, fun _ => false, id⟩))
      ⟨[some 0, some 1], 1⟩ .gto 1 = .ok [some 1, some 0] := by
  decide

end GpgpuSim.Shader
