import GpgpuSim.Graphs.Walks
import GpgpuSim.Ptx.FunctionInfo
import GpgpuSim.Transition.Iteration
import Mathlib.Algebra.BigOperators.Group.List.Basic
import Mathlib.Algebra.Order.BigOperators.Group.List
import Mathlib.Algebra.GroupWithZero.Nat
import Mathlib.Algebra.Order.Group.Nat
import Mathlib.Logic.Function.Basic

/-! The iteration behind `find_dominators` and `find_postdominators`: sets of blocks that
shrink, block by block, until a pass over all blocks changes nothing. -/
namespace GpgpuSim.Ptx
open Containers Graphs Transition

def intersect (A B : OrderedSet Nat) : OrderedSet Nat := A.keep fun a => decide (a ∈ B)

def isEqual (A B : OrderedSet Nat) : Bool :=
  if A.size = B.size then B.items.all fun b => decide (b ∈ A) else false

theorem isEqual_iff {A B : OrderedSet Nat} : isEqual A B = true ↔ A = B := by
  constructor
  · intro equal
    simp only [isEqual] at equal
    split at equal
    · rename_i sizes
      simp only [List.all_eq_true, decide_eq_true_eq] at equal
      exact (OrderedSet.eq_of_subset_of_size equal (Nat.le_of_eq sizes)).symm
    · contradiction
  · rintro rfl
    simp [isEqual, OrderedSet.mem_def]

/-- `T` of a pass: block `h` and what is in the sets of all its neighbours. -/
def meet (neighbours : Nat → OrderedSet Nat) (n : Nat) (sets : Nat → OrderedSet Nat) (h : Nat) :
    OrderedSet Nat :=
  ((neighbours h).items.foldl (fun T s => intersect T (sets s))
    (OrderedSet.empty.insertAll (List.range n))).insert h

/-- One block of a pass. -/
def visitBlock (neighbours : Nat → OrderedSet Nat) (n : Nat) (state : (Nat → OrderedSet Nat) × Bool)
    (h : Nat) : (Nat → OrderedSet Nat) × Bool :=
  let T := meet neighbours n state.1 h
  if isEqual T (state.1 h) then state else (Function.update state.1 h T, true)

def passOver (neighbours : Nat → OrderedSet Nat) (n : Nat) (order : List Nat) (sets : Nat → OrderedSet Nat) :
    (Nat → OrderedSet Nat) × Bool :=
  order.foldl (visitBlock neighbours n) (sets, false)

/-! ## What a pass keeps -/

theorem mem_meet {neighbours : Nat → OrderedSet Nat} {n : Nat} {sets : Nat → OrderedSet Nat} {h d : Nat} :
    d ∈ meet neighbours n sets h ↔ d = h ∨ d < n ∧ ∀ s ∈ neighbours h, d ∈ sets s := by
  have folded : ∀ (items : List Nat) (T : OrderedSet Nat),
      d ∈ items.foldl (fun T s => intersect T (sets s)) T ↔ d ∈ T ∧ ∀ s ∈ items, d ∈ sets s := by
    intro items
    induction items with
    | nil => simp
    | cons s rest ih =>
        intro T
        rw [List.foldl_cons, ih]
        simp [intersect, and_assoc]
  rw [meet, OrderedSet.mem_insert, folded, OrderedSet.mem_insertAll, List.mem_range]
  simp only [OrderedSet.not_mem_empty, or_false]
  rfl

/-- The edges that the sets are taken along. -/
def Neighbour (neighbours : Nat → OrderedSet Nat) (h s : Nat) : Prop := s ∈ neighbours h

instance (neighbours : Nat → OrderedSet Nat) : DecidableRel (Neighbour neighbours) :=
  fun h s => inferInstanceAs (Decidable (s ∈ neighbours h))

variable {neighbours : Nat → OrderedSet Nat} {n root h : Nat} {order : List Nat} {sets : Nat → OrderedSet Nat}

/-- The order visits every block but the root, and edges stay among the blocks. -/
structure Sweep (neighbours : Nat → OrderedSet Nat) (n root : Nat) (order : List Nat) : Prop where
  root_lt : root < n
  closed : ∀ h < n, ∀ s ∈ neighbours h, s < n
  visits : ∀ h, h ∈ order ↔ h < n ∧ h ≠ root

/-- The sets hold blocks only, all that no walk to the root misses, and never less than
the next visit will leave of them. -/
structure Shrinking (neighbours : Nat → OrderedSet Nat) (n root : Nat) (sets : Nat → OrderedSet Nat) :
    Prop where
  blocks : ∀ h < n, ∀ d ∈ sets h, d < n
  covers : ∀ h < n, ∀ d < n, OnEveryWalk (Neighbour neighbours) h root d → d ∈ sets h
  atRoot : ∀ d ∈ sets root, d = root
  shrinks : ∀ h < n, h ≠ root → ∀ d ∈ meet neighbours n sets h, d ∈ sets h

def totalSize (n : Nat) (sets : Nat → OrderedSet Nat) : Nat :=
  ((List.range n).map fun h => (sets h).size).sum

theorem totalSize_update_lt {T : OrderedSet Nat} (within : h < n) (less : T.size < (sets h).size) :
    totalSize n (Function.update sets h T) < totalSize n sets := by
  apply List.sum_lt_sum
  · intro i _
    by_cases same : i = h
    · subst same
      rw [Function.update_self]
      exact Nat.le_of_lt less
    · rw [Function.update_of_ne same]
  · exact ⟨h, List.mem_range.mpr within, by rwa [Function.update_self]⟩

theorem totalSize_le (blocks : ∀ h < n, ∀ d ∈ sets h, d < n) : totalSize n sets ≤ n * n := by
  have each : ∀ size ∈ (List.range n).map fun h => (sets h).size, size ≤ n := by
    intro size found
    obtain ⟨h, within, rfl⟩ := List.mem_map.mp found
    have part : (sets h).items.Subperm (List.range n) := (sets h).nodup.subperm
      fun d member => List.mem_range.mpr (blocks h (List.mem_range.mp within) d member)
    have length := part.length_le
    rwa [List.length_range] at length
  have sum := List.sum_le_card_nsmul _ n each
  simpa [totalSize] using sum

theorem Shrinking.update (sweep : Sweep neighbours n root order) (shrinking : Shrinking neighbours n root sets)
    (within : h < n) (other : h ≠ root) :
    Shrinking neighbours n root (Function.update sets h (meet neighbours n sets h)) := by
  have smaller : ∀ k < n, ∀ d ∈ Function.update sets h (meet neighbours n sets h) k, d ∈ sets k := by
    intro k block d member
    by_cases same : k = h
    · subst same
      rw [Function.update_self] at member
      exact shrinking.shrinks k block other d member
    · rwa [Function.update_of_ne same] at member
  constructor
  · exact fun k block d member => shrinking.blocks k block d (smaller k block d member)
  · intro k block d inside every
    by_cases same : k = h
    · subst same
      rw [Function.update_self, mem_meet]
      by_cases here : d = k
      · exact .inl here
      · refine .inr ⟨inside, ?_⟩
        intro s edge
        exact shrinking.covers s (sweep.closed k block s edge) d inside (every.step here edge)
    · rw [Function.update_of_ne same]
      exact shrinking.covers k block d inside every
  · exact fun d member => shrinking.atRoot d (smaller root sweep.root_lt d member)
  · intro k block apart d member
    have before : d ∈ meet neighbours n sets k := by
      rw [mem_meet] at member ⊢
      refine member.imp_right fun ⟨inside, all⟩ => ⟨inside, ?_⟩
      exact fun s edge => smaller s (sweep.closed k block s edge) d (all s edge)
    by_cases same : k = h
    · subst same
      rwa [Function.update_self]
    · rw [Function.update_of_ne same]
      exact shrinking.shrinks k block apart d before

theorem visitBlock_cases (neighbours : Nat → OrderedSet Nat) (n : Nat) (sets : Nat → OrderedSet Nat)
    (changed : Bool) (h : Nat) :
    (visitBlock neighbours n (sets, changed) h = (sets, changed) ∧ meet neighbours n sets h = sets h) ∨
      visitBlock neighbours n (sets, changed) h =
        (Function.update sets h (meet neighbours n sets h), true) ∧ meet neighbours n sets h ≠ sets h := by
  simp only [visitBlock]
  split
  · rename_i equal
    exact .inl ⟨rfl, isEqual_iff.mp equal⟩
  · rename_i apart
    exact .inr ⟨rfl, fun same => apart (isEqual_iff.mpr same)⟩

/-- A pass keeps the sets shrinking, and one that reports a change has made them smaller. -/
theorem passOver_shrinks (sweep : Sweep neighbours n root order) (shrinking : Shrinking neighbours n root sets) :
    Shrinking neighbours n root (passOver neighbours n order sets).1 ∧
      ((passOver neighbours n order sets).2 = true →
        totalSize n (passOver neighbours n order sets).1 < totalSize n sets) := by
  have each : ∀ sets changed, Shrinking neighbours n root sets → ∀ h ∈ order,
      Shrinking neighbours n root (visitBlock neighbours n (sets, changed) h).1 ∧
        (visitBlock neighbours n (sets, changed) h = (sets, changed) ∨
          totalSize n (visitBlock neighbours n (sets, changed) h).1 < totalSize n sets) := by
    intro sets changed shrinking h visited
    obtain ⟨within, other⟩ := (sweep.visits h).mp visited
    rcases visitBlock_cases neighbours n sets changed h with ⟨same, -⟩ | ⟨updated, apart⟩
    · rw [same]
      exact ⟨shrinking, .inl rfl⟩
    · rw [updated]
      refine ⟨shrinking.update sweep within other, .inr ?_⟩
      exact totalSize_update_lt within
        (OrderedSet.size_lt_of_subset (shrinking.shrinks h within other) apart)
  obtain ⟨kept, same | less⟩ := measure_foldl each shrinking
  · refine ⟨kept, ?_⟩
    intro changed
    rw [passOver, same] at changed
    cases changed
  · exact ⟨kept, fun _ => less⟩

/-- Where a pass changes nothing the sets solve the equations. -/
theorem passOver_stable (stable : (passOver neighbours n order sets).2 = false) :
    (passOver neighbours n order sets).1 = sets ∧ ∀ h ∈ order, meet neighbours n sets h = sets h := by
  have each : ∀ sets changed h, (visitBlock neighbours n (sets, changed) h = (sets, changed) ∧
      meet neighbours n sets h = sets h) ∨ (visitBlock neighbours n (sets, changed) h).2 = true := by
    intro sets changed h
    rcases visitBlock_cases neighbours n sets changed h with settled | ⟨updated, -⟩
    · exact .inl settled
    · exact .inr (by rw [updated])
  exact settled_of_foldl each stable

/-! ## What the iteration finds -/

/-- Each block has the set of all blocks that no walk from it to the root misses. -/
def Solved (neighbours : Nat → OrderedSet Nat) (n root : Nat) (sets : Nat → OrderedSet Nat) : Prop :=
  ∀ h < n, ∀ d, d ∈ sets h ↔ d < n ∧ OnEveryWalk (Neighbour neighbours) h root d

theorem Shrinking.solved (sweep : Sweep neighbours n root order) (shrinking : Shrinking neighbours n root sets)
    (settled : ∀ h ∈ order, meet neighbours n sets h = sets h) : Solved neighbours n root sets := by
  have consistent : Consistent (fun a b => a < n ∧ Neighbour neighbours a b) root
      fun h => {d | h < n ∧ d ∈ sets h} := by
    constructor
    · exact fun d ⟨_, member⟩ => shrinking.atRoot d member
    · rintro v apart d ⟨within, member⟩
      rw [← settled v ((sweep.visits v).mpr ⟨within, apart⟩), mem_meet] at member
      refine member.imp_right fun ⟨_, all⟩ => ?_
      rintro u ⟨-, edge⟩
      exact ⟨sweep.closed v within u edge, all u edge⟩
  intro h within d
  constructor
  · intro member
    refine ⟨shrinking.blocks h within d member, ?_⟩
    intro vs walk
    have among := (walk.among sweep.closed within).2
    exact consistent.sound ⟨within, member⟩ vs (among.mono fun a b both => ⟨both.1, both.2.2⟩)
  · rintro ⟨inside, every⟩
    exact shrinking.covers h within d inside every

/-- From full sets the iteration ends with the solution. -/
theorem exists_solved (sweep : Sweep neighbours n root order)
    (atRoot : ∀ d, d ∈ sets root ↔ d = root) (full : ∀ h < n, h ≠ root → ∀ d, d ∈ sets h ↔ d < n) :
    ∃ solution, Solved neighbours n root solution ∧
      ∀ fuel, n * n < fuel → untilStable (passOver neighbours n order) fuel sets = some solution := by
  have start : Shrinking neighbours n root sets := by
    constructor
    · intro h within d member
      by_cases here : h = root
      · subst here
        rw [(atRoot d).mp member]
        exact within
      · exact (full h within here d).mp member
    · intro h within d inside every
      by_cases here : h = root
      · subst here
        exact (atRoot d).mpr every.at_root
      · exact (full h within here d).mpr inside
    · exact fun d member => (atRoot d).mp member
    · intro h within apart d member
      rw [full h within apart]
      rcases mem_meet.mp member with rfl | ⟨inside, -⟩
      · exact within
      · exact inside
  have kept : ∀ sets, Shrinking neighbours n root sets →
      Shrinking neighbours n root (passOver neighbours n order sets).1 :=
    fun _ shrinking => (passOver_shrinks sweep shrinking).1
  have falls : ∀ sets, Shrinking neighbours n root sets → (passOver neighbours n order sets).2 = true →
      totalSize n (passOver neighbours n order sets).1 < totalSize n sets :=
    fun _ shrinking => (passOver_shrinks sweep shrinking).2
  obtain ⟨last, shrinking, stable, result⟩ := exists_untilStable kept falls start
  obtain ⟨same, settled⟩ := passOver_stable stable
  refine ⟨last, shrinking.solved sweep settled, ?_⟩
  intro fuel enough
  rw [result fuel (by have := totalSize_le start.blocks; omega), same]

end GpgpuSim.Ptx
