import GpgpuSim.Ptx.Reconvergence
import Mathlib.Logic.Relation

/-! The rounds of `do_pdom`: dominators and immediate dominators are found again each time
that edges have changed, and the sets of the round before are carried over. -/
namespace GpgpuSim.Ptx
open Containers Graphs Transition

namespace FunctionInfo

/-- Block `d` lies on every path from the entry to block `h`. -/
def Dominates (fn : FunctionInfo) (d h : Nat) : Prop := OnEveryWalk (Neighbour fn.successorIds) 0 h d

/-- Block `d` strictly dominates `h`, and all other strict dominators of `h` dominate it. -/
def ImmediatelyDominates (fn : FunctionInfo) (d h : Nat) : Prop :=
  (fn.Dominates d h ∧ d ≠ h) ∧ ∀ c, fn.Dominates c h → c ≠ h → fn.Dominates c d

/-- A control-flow graph all of whose blocks are reachable from the first. -/
structure EntryFlow (fn : FunctionInfo) : Prop where
  two : 2 ≤ fn.size
  numbered : fn.numbered = true
  closed : ∀ h < fn.size, ∀ s ∈ fn.successorIds h, s < fn.size
  closed_back : ∀ h < fn.size, ∀ p ∈ fn.predecessorIds h, p < fn.size
  linked : ∀ a < fn.size, ∀ b < fn.size, a ∈ fn.predecessorIds b ↔ b ∈ fn.successorIds a
  reaches : ∀ h < fn.size, Reachable (Neighbour fn.successorIds) 0 h

/-- Basic blocks as they are made. -/
structure Fresh (fn : FunctionInfo) : Prop where
  dominators : ∀ h, fn.dominatorIds h = .empty
  immediate : ∀ h, fn.immediatedominatorId h = -1

/-- One turn of the loop of `do_pdom`, with any new edges. -/
inductive Relinked (fn : FunctionInfo) : FunctionInfo → Prop
  | turn {found done : FunctionInfo} (fuel : Nat) (predecessorIds successorIds : Nat → OrderedSet Nat)
      (dominators : fn.findDominators fuel = .ok found) (idominators : found.findIdominators = .ok done) :
      Relinked fn { done with predecessorIds, successorIds }

/-- Both functions do what they are for: the sets are those of the dominators, every block
but the entry gets its unique immediate dominator, and the assertions hold. -/
def FindsDominators (fn : FunctionInfo) : Prop :=
  ∃ found done, (∀ fuel, fn.size * fn.size < fuel → fn.findDominators fuel = .ok found) ∧
    (∀ h < fn.size, ∀ d, d ∈ found.dominatorIds h ↔ fn.Dominates d h) ∧
    found.findIdominators = .ok done ∧ done.immediatedominatorId 0 = -1 ∧
    ∀ h < fn.size, h ≠ 0 → ∃ d < fn.size, done.immediatedominatorId h = d ∧
      ∀ c, fn.ImmediatelyDominates c h ↔ c = d

variable {start fn next found done : FunctionInfo}

/-! ## What is carried over -/

/-- The entry has at most itself in its set, and no immediate dominator. -/
structure Carried (fn : FunctionInfo) : Prop where
  blocks : ∀ h < fn.size, ∀ d ∈ fn.dominatorIds h, d < fn.size
  entry : ∀ d ∈ fn.dominatorIds 0, d = 0
  none_of_entry : fn.immediatedominatorId 0 = -1

theorem Fresh.carried (fresh : Fresh fn) : Carried fn where
  blocks h _ d member := by simp [fresh.dominators] at member
  entry d member := by simp [fresh.dominators] at member
  none_of_entry := fresh.immediate 0

/-- Only blocks in the sets, and in that of the entry only the entry. -/
def Bounded (n : Nat) (sets : Nat → OrderedSet Nat) : Prop :=
  (∀ h < n, ∀ d ∈ sets h, d < n) ∧ ∀ d ∈ sets 0, d = 0

/-- Whatever the edges are, a pass puts only blocks into the sets, and leaves the entry alone. -/
theorem passOver_bounded {neighbours : Nat → OrderedSet Nat} {n : Nat} {order : List Nat}
    (skips : ∀ h ∈ order, h ≠ 0 ∧ h < n) {sets : Nat → OrderedSet Nat} (bounded : Bounded n sets) :
    Bounded n (passOver neighbours n order sets).1 := by
  unfold passOver
  generalize false = changed
  induction order generalizing sets changed with
  | nil => exact bounded
  | cons h rest ih =>
      obtain ⟨other, within⟩ := skips h List.mem_cons_self
      rw [List.foldl_cons]
      have later := fun k member => skips k (List.mem_cons_of_mem h member)
      rcases visitBlock_cases neighbours n sets changed h with ⟨same, -⟩ | ⟨updated, -⟩
      · rw [same]
        exact ih later bounded changed
      · rw [updated]
        refine ih later ⟨?_, ?_⟩ true
        · intro k block d member
          by_cases here : k = h
          · subst here
            rw [Function.update_self] at member
            rcases mem_meet.mp member with rfl | ⟨inside, -⟩
            · exact within
            · exact inside
          · rw [Function.update_of_ne here] at member
            exact bounded.1 k block d member
        · intro d member
          rw [Function.update_of_ne (Ne.symm other)] at member
          exact bounded.2 d member

theorem order_skips {n : Nat} : ∀ h ∈ List.range' 1 (n - 1), h ≠ 0 ∧ h < n := by
  intro h member
  rw [List.mem_range'_1] at member
  omega

theorem findDominators_carried (carried : Carried fn) {fuel : Nat}
    (found : fn.findDominators fuel = .ok next) : Carried next ∧ next.size = fn.size := by
  unfold findDominators at found
  split at found
  · cases found
  · dsimp only at found
    split at found
    · cases found
    · rename_i sets result
      cases found
      have bounded : Bounded fn.size sets := by
        refine untilStable_kept (fun _ => passOver_bounded order_skips) ⟨?_, ?_⟩ result
        · intro h within d member
          split at member
          · subst h
            rcases OrderedSet.mem_insert.mp member with rfl | old
            · exact within
            · exact carried.blocks 0 within d old
          · rcases OrderedSet.mem_insertAll.mp member with block | old
            · exact List.mem_range.mp block
            · exact carried.blocks h within d old
        · intro d member
          rcases OrderedSet.mem_insert.mp member with same | old
          · exact same
          · exact carried.entry d old
      refine ⟨⟨?_, ?_, carried.none_of_entry⟩, rfl⟩
      · intro h within d member
        dsimp only at member
        split at member
        · simp at member
        · exact bounded.1 h within d member
      · exact fun d member => bounded.2 d member

theorem findIdominators_carried (carried : Carried fn) (found : fn.findIdominators = .ok next) : Carried next := by
  unfold findIdominators at found
  split at found
  · cases found
  · dsimp only at found
    split at found
    · cases found
      refine ⟨carried.blocks, carried.entry, ?_⟩
      have nothing : (eliminate fn.dominatorIds ((fn.dominatorIds 0).erase 0)).items = [] := by
        apply eliminate_empty
        intro d member
        obtain ⟨inside, apart⟩ := OrderedSet.mem_erase.mp member
        exact apart (carried.entry d inside)
      simp only [firstOr, nothing]
      exact carried.none_of_entry
    · cases found

theorem carried_of_rounds (fresh : Fresh start) (rounds : Relation.ReflTransGen Relinked start fn) :
    Carried fn := by
  induction rounds with
  | refl => exact fresh.carried
  | tail _ turn ih =>
      obtain ⟨fuel, predecessorIds, successorIds, dominators, idominators⟩ := turn
      have after := findIdominators_carried (findDominators_carried ih dominators).1 idominators
      exact ⟨after.blocks, after.entry, after.none_of_entry⟩

/-! ## One round -/

/-- Dominance read against the edges. -/
theorem EntryFlow.dominates_iff (flow : EntryFlow fn) {h : Nat} (within : h < fn.size) (d : Nat) :
    OnEveryWalk (Neighbour fn.predecessorIds) h 0 d ↔ fn.Dominates d h := by
  have entry : 0 < fn.size := by have := flow.two; omega
  constructor
  · intro every vs walk
    have among := (walk.among flow.closed entry).2
    have back : Walk (Neighbour fn.predecessorIds) h 0 vs.reverse :=
      among.reverse.mono fun a b both => (flow.linked b both.1 a both.2.1).mpr both.2.2
    exact List.mem_reverse.mp (every _ back)
  · intro every vs walk
    have among := (walk.among flow.closed_back within).2
    have forth : Walk (Neighbour fn.successorIds) 0 h vs.reverse :=
      among.reverse.mono fun a b both => (flow.linked a both.2.1 b both.1).mp both.2.2
    exact List.mem_reverse.mp (every _ forth)

theorem EntryFlow.reaches_back (flow : EntryFlow fn) {h : Nat} (within : h < fn.size) :
    Reachable (Neighbour fn.predecessorIds) h 0 := by
  have entry : 0 < fn.size := by have := flow.two; omega
  obtain ⟨vs, walk⟩ := flow.reaches h within
  have among := (walk.among flow.closed entry).2
  exact ⟨_, among.reverse.mono fun a b both => (flow.linked b both.1 a both.2.1).mpr both.2.2⟩

theorem EntryFlow.nearest_iff (flow : EntryFlow fn) {h : Nat} (within : h < fn.size) (d : Nat) :
    Nearest (Neighbour fn.predecessorIds) 0 h d ↔ fn.ImmediatelyDominates d h := by
  have behind : ∀ c, StrictlyBehind (Neighbour fn.predecessorIds) 0 h c ↔ fn.Dominates c h ∧ c ≠ h := by
    intro c
    rw [StrictlyBehind, flow.dominates_iff within]
  have blocks : ∀ c, fn.Dominates c h → c < fn.size := by
    intro c dominates
    obtain ⟨vs, walk⟩ := flow.reaches h within
    exact (walk.among flow.closed (by have := flow.two; omega)).1 c (dominates vs walk)
  rw [Nearest, ImmediatelyDominates, behind]
  refine and_congr_right fun strictly => forall_congr' fun c => ?_
  rw [behind, and_imp]
  refine imp_congr_right fun dominates => imp_congr_right fun _ => ?_
  exact flow.dominates_iff (blocks d strictly.1) c

theorem EntryFlow.exists_predecessor (flow : EntryFlow fn) {h : Nat} (within : h < fn.size) (other : h ≠ 0) :
    ∃ p, p ∈ fn.predecessorIds h := by
  obtain ⟨vs, walk⟩ := flow.reaches_back within
  cases walk with
  | stay => contradiction
  | step first _ => exact ⟨_, first⟩

/-- The iteration ends with the dominators, and no set is cleared. -/
theorem EntryFlow.findDominators_solved (flow : EntryFlow fn) (carried : Carried fn) :
    ∃ sets, Solved fn.predecessorIds fn.size 0 sets ∧
      ∀ fuel, fn.size * fn.size < fuel → fn.findDominators fuel = .ok { fn with dominatorIds := sets } := by
  have two := flow.two
  have sweep : Sweep fn.predecessorIds fn.size 0 (List.range' 1 (fn.size - 1)) := by
    constructor
    · omega
    · exact flow.closed_back
    · intro h
      rw [List.mem_range'_1]
      omega
  let start := fun h => if h = 0 then (fn.dominatorIds 0).insert 0
    else (fn.dominatorIds h).insertAll (List.range fn.size)
  have entry_only : ∀ d, d ∈ start 0 ↔ d = 0 := by
    intro d
    simp only [start, if_true, OrderedSet.mem_insert, or_iff_left_iff_imp]
    exact carried.entry d
  have full : ∀ h < fn.size, h ≠ 0 → ∀ d, d ∈ start h ↔ d < fn.size := by
    intro h within other d
    simp only [start, if_neg other, OrderedSet.mem_insertAll, List.mem_range, or_iff_left_iff_imp]
    exact carried.blocks h within d
  obtain ⟨sets, solved, result⟩ := exists_solved sweep entry_only full
  let cleaned := fun h => if h ≠ 0 ∧ (fn.predecessorIds h).isEmpty = true then .empty else sets h
  have same : ∀ h < fn.size, cleaned h = sets h := by
    intro h within
    apply if_neg
    rintro ⟨other, alone⟩
    obtain ⟨p, edge⟩ := flow.exists_predecessor within other
    rw [OrderedSet.isEmpty_eq_false_iff.mpr ⟨p, edge⟩] at alone
    cases alone
  refine ⟨cleaned, ?_, ?_⟩
  · intro h within d
    rw [same h within]
    exact solved h within d
  · intro fuel enough
    have done := result fuel enough
    simp only [start] at done
    rw [findDominators, if_neg (checks_of two flow.numbered)]
    simp only [done]
    rfl

/-- The final assertion holds exactly if the entry has no predecessor. -/
theorem EntryFlow.findIdominators_eq (flow : EntryFlow fn)
    (solved : Solved fn.predecessorIds fn.size 0 fn.dominatorIds) :
    ∃ tmp, (∀ h < fn.size, h ≠ 0 → ∃ d < fn.size, (tmp h).items = [d] ∧ fn.ImmediatelyDominates d h) ∧
      (tmp 0).items = [] ∧
      fn.findIdominators = if (fn.predecessorIds 0).isEmpty then .ok { fn with
          tmpIds := tmp
          immediatedominatorId := fun h => firstOr (tmp h) (fn.immediatedominatorId h) }
        else .error .assertion := by
  have two := flow.two
  have entry : 0 < fn.size := by omega
  let tmp := fun h => eliminate fn.dominatorIds ((fn.dominatorIds h).erase h)
  have one : ∀ h < fn.size, h ≠ 0 → ∃ d < fn.size, (tmp h).items = [d] ∧ fn.ImmediatelyDominates d h := by
    intro h within other
    obtain ⟨d, block, only, nearest⟩ :=
      eliminate_nearest flow.closed_back entry solved within other (flow.reaches_back within)
    exact ⟨d, block, only, (flow.nearest_iff within d).mp nearest⟩
  have none_at_entry : (tmp 0).items = [] := by
    apply eliminate_empty
    intro d member
    obtain ⟨inside, apart⟩ := OrderedSet.mem_erase.mp member
    exact apart ((solved 0 entry d).mp inside).2.at_root
  have idoms := count_immediate entry one none_at_entry
  have nopred : (List.range fn.size).countP (fun h => (tmp h).isEmpty && (fn.predecessorIds h).isEmpty) =
      if (fn.predecessorIds 0).isEmpty then 1 else 0 := by
    have at_entry : ∀ h ∈ List.range fn.size, ((tmp h).isEmpty && (fn.predecessorIds h).isEmpty) = true ↔
        ((h == 0) && (fn.predecessorIds 0).isEmpty) = true := by
      intro h member
      by_cases first : h = 0
      · subst first
        simp [OrderedSet.isEmpty, none_at_entry]
      · obtain ⟨d, -, only, -⟩ := one h (List.mem_range.mp member) first
        simp [OrderedSet.isEmpty, only, first]
    rw [List.countP_congr at_entry]
    cases (fn.predecessorIds 0).isEmpty with
    | false => simp
    | true =>
        have count : (List.range fn.size).count 0 = _ := List.nodup_range.count
        rw [if_pos (List.mem_range.mpr entry)] at count
        simpa [List.count] using count
  refine ⟨tmp, one, none_at_entry, ?_⟩
  simp only [tmp] at idoms nopred
  rw [findIdominators, if_neg (checks_of two flow.numbered)]
  simp only [idoms, nopred]
  cases (fn.predecessorIds 0).isEmpty with
  | false =>
      rw [if_neg (by simp; omega)]
      rfl
  | true =>
      rw [if_pos (show fn.size - 1 = fn.size - if true = true then 1 else 0 from rfl)]
      rfl

/-- In every round the dominators and immediate dominators are found, exactly if no edge
leads into the first block. -/
theorem findsDominators_iff (fresh : Fresh start) (rounds : Relation.ReflTransGen Relinked start fn)
    (flow : EntryFlow fn) : FindsDominators fn ↔ fn.predecessorIds 0 = .empty := by
  have carried := carried_of_rounds fresh rounds
  obtain ⟨sets, solved, result⟩ := flow.findDominators_solved carried
  have after : EntryFlow { fn with dominatorIds := sets } :=
    ⟨flow.two, flow.numbered, flow.closed, flow.closed_back, flow.linked, flow.reaches⟩
  obtain ⟨tmp, one, none_at_entry, idominators⟩ := after.findIdominators_eq solved
  have empty_iff : (fn.predecessorIds 0).isEmpty = true ↔ fn.predecessorIds 0 = .empty := by
    constructor
    · intro nothing
      apply OrderedSet.ext
      intro a
      simp only [OrderedSet.not_mem_empty, iff_false]
      intro member
      rw [OrderedSet.isEmpty_eq_false_iff.mpr ⟨a, member⟩] at nothing
      cases nothing
    · intro nothing
      rw [nothing]
      rfl
  rw [← empty_iff]
  constructor
  · rintro ⟨found, done, finds, -, immediate, -⟩
    by_contra edges
    have same := (finds _ (Nat.lt_succ_self _)).symm.trans (result _ (Nat.lt_succ_self _))
    obtain rfl := Except.ok.inj same
    rw [idominators, if_neg edges] at immediate
    cases immediate
  · intro nothing
    refine ⟨_, _, result, ?_, idominators.trans (if_pos nothing), ?_, ?_⟩
    · intro h within d
      rw [solved h within d, flow.dominates_iff within, and_iff_right_iff_imp]
      intro dominates
      obtain ⟨vs, walk⟩ := flow.reaches h within
      exact (walk.among flow.closed (by have := flow.two; omega)).1 d (dominates vs walk)
    · simp only [firstOr, none_at_entry]
      exact carried.none_of_entry
    · intro h within other
      obtain ⟨d, block, only, immediate⟩ := one h within other
      refine ⟨d, block, by simp [firstOr, only], fun c => ⟨fun near_c => ?_, ?_⟩⟩
      · have near_c := (flow.nearest_iff within c).mpr near_c
        exact near_c.unique (flow.reaches_back within) ((flow.nearest_iff within d).mpr immediate)
      · rintro rfl
        exact immediate

theorem findsDominators_iff_loop : FindsDominators (ofEdges [[1, 3], [2], [1, 3], []]) := by
  have flow : EntryFlow (ofEdges [[1, 3], [2], [1, 3], []]) := by
    constructor
    · decide
    · decide
    · decide
    · decide
    · decide
    · have nearer : ∀ h, h < 4 → h ≠ 0 → ∃ p, p < 4 ∧
          Neighbour (ofEdges [[1, 3], [2], [1, 3], []]).successorIds p h ∧ p < h := by decide
      exact fun h within => reachable_reverse.mp (reachable_of_rank nearer within)
  exact (findsDominators_iff ⟨fun _ => rfl, fun _ => rfl⟩ .refl flow).mpr rfl

/-- A branch from block 1 back to the first block: the entry has a predecessor but no
immediate dominator, and the count of the final assertion is wrong. -/
theorem loop_to_entry_fails :
    EntryFlow (ofEdges [[1], [0, 2], []]) ∧ ¬FindsDominators (ofEdges [[1], [0, 2], []]) := by
  have flow : EntryFlow (ofEdges [[1], [0, 2], []]) := by
    constructor
    · decide
    · decide
    · decide
    · decide
    · decide
    · have nearer : ∀ h, h < 3 → h ≠ 0 → ∃ p, p < 3 ∧
          Neighbour (ofEdges [[1], [0, 2], []]).successorIds p h ∧ p < h := by decide
      exact fun h within => reachable_reverse.mp (reachable_of_rank nearer within)
  refine ⟨flow, ?_⟩
  have carried : Carried (ofEdges [[1], [0, 2], []]) := Fresh.carried ⟨fun _ => rfl, fun _ => rfl⟩
  obtain ⟨sets, solved, result⟩ := flow.findDominators_solved carried
  have after : EntryFlow { ofEdges [[1], [0, 2], []] with dominatorIds := sets } :=
    ⟨flow.two, flow.numbered, flow.closed, flow.closed_back, flow.linked, flow.reaches⟩
  obtain ⟨tmp, -, -, idominators⟩ := after.findIdominators_eq solved
  rintro ⟨found, done, finds, -, immediate, -⟩
  obtain rfl := Except.ok.inj ((finds _ (Nat.lt_succ_self _)).symm.trans (result _ (Nat.lt_succ_self _)))
  rw [idominators] at immediate
  cases immediate

end FunctionInfo

end GpgpuSim.Ptx
