import GpgpuSim.Ptx.Dominators
import GpgpuSim.Transition.Fallible

/-! The points where the threads of a warp come together again after a branch: the
immediate post-dominators of the blocks. -/
namespace GpgpuSim.Ptx
open Containers Graphs Transition

/-- A branch and the place where its threads reconverge. -/
structure GpgpuRecon where
  sourcePC : Nat
  targetPC : Nat
  deriving DecidableEq, Repr

namespace FunctionInfo

/-- `target_pc`, -2 for the function's return. -/
def targetPC (fn : FunctionInfo) (d : Nat) : Nat :=
  match fn.beginInst d with
  | some pI => pI.pc
  | none => 2 ^ 32 - 2

/-- The pair of a block that ends in a branch. -/
def reconvergencePair (fn : FunctionInfo) (i : Nat) : Except PtxFault (Option GpgpuRecon) :=
  match fn.endInst i with
  | none => .error .badAccess
  | some pI =>
      if pI.opcode = .braOp then
        match fn.immediatepostdominatorId i with
        | .ofNat d => if d < fn.size then .ok (some ⟨pI.pc, fn.targetPC d⟩) else .error .badAccess
        | .negSucc _ => .error .badAccess
      else .ok none

/-- The last basic block has no pair. -/
def getReconvergencePairs (fn : FunctionInfo) : Except PtxFault (List GpgpuRecon) :=
  ((List.range (fn.size - 1)).mapM fn.reconvergencePair).map fun pairs => pairs.filterMap id

/-- A control-flow graph whose last block, the exit, is the only one without successors and
is reachable from every block. What an earlier round may have left in the sets of
post-dominators are blocks, and in that of the exit nothing else. -/
structure ExitFlow (fn : FunctionInfo) : Prop where
  two : 2 ≤ fn.size
  numbered : fn.numbered = true
  closed : ∀ h < fn.size, ∀ s ∈ fn.successorIds h, s < fn.size
  alone : ∀ h < fn.size, fn.successorIds h = .empty ↔ h = fn.size - 1
  reaches : ∀ h < fn.size, Reachable (Neighbour fn.successorIds) h (fn.size - 1)
  earlier : ∀ h < fn.size, ∀ d ∈ fn.postdominatorIds h, d < fn.size ∧ (h = fn.size - 1 → d = h)
  ends : ∀ i < fn.size - 1, ∃ pI, fn.endInst i = some pI

variable {fn found : FunctionInfo}

theorem countP_range_ne {n r : Nat} {p : Nat → Bool} (within : r < n)
    (others : ∀ h < n, p h = true ↔ h ≠ r) : (List.range n).countP p = n - 1 := by
  have same : (List.range n).countP p = (List.range n).countP fun h => !(h == r) := by
    apply List.countP_congr
    intro h member
    rw [others h (List.mem_range.mp member)]
    simp
  have once : (List.range n).countP (· == r) = 1 := by
    have count : (List.range n).count r = _ := List.nodup_range.count
    rwa [if_pos (List.mem_range.mpr within)] at count
  have all : (List.range n).length = _ := List.length_eq_countP_add_countP fun h => h == r
  simp only [List.length_range, once, Bool.not_eq_true, Bool.decide_eq_false] at all
  rw [same]
  omega

/-- All blocks but the root have a set, of one element. -/
theorem count_immediate {n r : Nat} {tmp : Nat → OrderedSet Nat} {P : Nat → Nat → Prop} (within : r < n)
    (one : ∀ h < n, h ≠ r → ∃ d < n, (tmp h).items = [d] ∧ P h d) (none_at_root : (tmp r).items = []) :
    (List.range n).countP (fun h => !(tmp h).isEmpty) = n - 1 := by
  apply countP_range_ne within
  intro h inside
  by_cases root : h = r
  · simp [OrderedSet.isEmpty, root, none_at_root]
  · obtain ⟨d, -, only, -⟩ := one h inside root
    simp [OrderedSet.isEmpty, only, root]

theorem checks_of (two : 2 ≤ fn.size) (numbered : fn.numbered = true) :
    ¬(fn.size < 2 ∨ fn.numbered = false) := by
  rw [numbered]
  simp
  omega

/-- The iteration gives each block its post-dominators. -/
theorem findPostdominators_solved (flow : ExitFlow fn) :
    ∃ sets, Solved fn.successorIds fn.size (fn.size - 1) sets ∧
      ∀ fuel, fn.size * fn.size < fuel → fn.findPostdominators fuel = .ok { fn with postdominatorIds := sets } := by
  have two := flow.two
  have sweep : Sweep fn.successorIds fn.size (fn.size - 1) (List.range (fn.size - 1)).reverse := by
    constructor
    · omega
    · exact flow.closed
    · intro h
      rw [List.mem_reverse, List.mem_range]
      omega
  let start := fun h => if h = fn.size - 1 then (fn.postdominatorIds h).insert h
    else (fn.postdominatorIds h).insertAll (List.range fn.size)
  have exit_only : ∀ d, d ∈ start (fn.size - 1) ↔ d = fn.size - 1 := by
    intro d
    simp only [start, if_true, OrderedSet.mem_insert, or_iff_left_iff_imp]
    exact fun member => (flow.earlier _ (by omega) d member).2 rfl
  have full : ∀ h < fn.size, h ≠ fn.size - 1 → ∀ d, d ∈ start h ↔ d < fn.size := by
    intro h within other d
    simp only [start, if_neg other, OrderedSet.mem_insertAll, List.mem_range, or_iff_left_iff_imp]
    exact fun member => (flow.earlier h within d member).1
  obtain ⟨sets, solved, result⟩ := exists_solved sweep exit_only full
  refine ⟨sets, solved, ?_⟩
  intro fuel enough
  have done := result fuel enough
  simp only [start] at done
  rw [findPostdominators, if_neg (checks_of flow.two flow.numbered)]
  simp only [done]

/-- The flow graph is the same with the post-dominators. -/
theorem ExitFlow.of_solved {sets : Nat → OrderedSet Nat} (flow : ExitFlow fn)
    (solved : Solved fn.successorIds fn.size (fn.size - 1) sets) : ExitFlow { fn with postdominatorIds := sets } := by
  constructor
  · exact flow.two
  · exact flow.numbered
  · exact flow.closed
  · exact flow.alone
  · exact flow.reaches
  · intro h within d member
    obtain ⟨block, every⟩ := (solved h within d).mp member
    refine ⟨block, ?_⟩
    rintro rfl
    exact every.at_root
  · exact flow.ends

/-- From the post-dominators the elimination finds the immediate ones. -/
theorem findIpostdominators_nearest (flow : ExitFlow fn)
    (solved : Solved fn.successorIds fn.size (fn.size - 1) fn.postdominatorIds) :
    ∃ done, fn.findIpostdominators = .ok done ∧ done.basicBlocks = fn.basicBlocks ∧
      done.instructions = fn.instructions ∧
      ∀ h < fn.size, h ≠ fn.size - 1 → ∃ d < fn.size, (done.tmpIds h).items = [d] ∧
        done.immediatepostdominatorId h = d ∧
          Nearest (Neighbour fn.successorIds) (fn.size - 1) h d := by
  have two := flow.two
  have exit_lt : fn.size - 1 < fn.size := by omega
  let tmp := fun h => if h < fn.size - 1 then eliminate fn.postdominatorIds ((fn.postdominatorIds h).erase h)
    else (fn.postdominatorIds h).erase h
  have one : ∀ h < fn.size, h ≠ fn.size - 1 → ∃ d < fn.size, (tmp h).items = [d] ∧
      Nearest (Neighbour fn.successorIds) (fn.size - 1) h d := by
    intro h within other
    have below : h < fn.size - 1 := by omega
    simp only [tmp, if_pos below]
    exact eliminate_nearest flow.closed exit_lt solved within other (flow.reaches h within)
  have none_at_exit : (tmp (fn.size - 1)).items = [] := by
    rw [List.eq_nil_iff_forall_not_mem]
    intro d member
    simp only [tmp, if_neg (Nat.lt_irrefl _)] at member
    obtain ⟨inside, apart⟩ := OrderedSet.mem_erase.mp member
    exact apart ((solved _ exit_lt d).mp inside).2.at_root
  have small : (List.range fn.size).any (fun h => decide (1 < (tmp h).size)) = false := by
    rw [List.any_eq_false]
    intro h member
    by_cases exit : h = fn.size - 1
    · simp [OrderedSet.size, exit, none_at_exit]
    · obtain ⟨d, -, only, -⟩ := one h (List.mem_range.mp member) exit
      simp [OrderedSet.size, only]
  have count := count_immediate exit_lt one none_at_exit
  refine ⟨{ fn with
    tmpIds := tmp
    immediatepostdominatorId := fun h => firstOr (tmp h) (fn.immediatepostdominatorId h) }, ?_, rfl, rfl, ?_⟩
  · simp only [tmp] at small count
    rw [findIpostdominators, if_neg (checks_of two flow.numbered)]
    simp only [small, count]
    rfl
  · intro h within other
    obtain ⟨d, block, only, nearest⟩ := one h within other
    exact ⟨d, block, only, by simp [firstOr, only], nearest⟩

/-- Every branch has a pair, with the first instruction of its block's immediate
post-dominator. -/
theorem getReconvergencePairs_mem (ends : ∀ i < fn.size - 1, ∃ pI, fn.endInst i = some pI)
    (found : ∀ i < fn.size - 1, ∃ d < fn.size, fn.immediatepostdominatorId i = (d : Int)) :
    ∃ pairs, fn.getReconvergencePairs = .ok pairs ∧
      ∀ i < fn.size - 1, ∀ pI, fn.endInst i = some pI → pI.opcode = .braOp →
        ∀ d : Nat, fn.immediatepostdominatorId i = d → ⟨pI.pc, fn.targetPC d⟩ ∈ pairs := by
  have each : ∀ i ∈ List.range (fn.size - 1), ∃ pair, fn.reconvergencePair i = .ok pair ∧
      ∀ pI, fn.endInst i = some pI → pI.opcode = .braOp →
        ∀ d : Nat, fn.immediatepostdominatorId i = d → pair = some ⟨pI.pc, fn.targetPC d⟩ := by
    intro i member
    have below := List.mem_range.mp member
    obtain ⟨pI, last⟩ := ends i below
    obtain ⟨d, block, nearest⟩ := found i below
    by_cases branch : pI.opcode = .braOp
    · refine ⟨some ⟨pI.pc, fn.targetPC d⟩, ?_, ?_⟩
      · simp only [reconvergencePair, last, if_pos branch, nearest]
        exact if_pos block
      · intro pI' last' _ d' nearest'
        obtain rfl : pI = pI' := Option.some.inj (last.symm.trans last')
        obtain rfl : d = d' := Int.ofNat.inj (nearest.symm.trans nearest')
        rfl
    · refine ⟨none, by simp only [reconvergencePair, last, if_neg branch], ?_⟩
      intro pI' last' branch'
      obtain rfl : pI = pI' := Option.some.inj (last.symm.trans last')
      contradiction
  obtain ⟨pairs, done, -, all⟩ := mapM_ok each
  refine ⟨pairs.filterMap id, by rw [getReconvergencePairs, done]; rfl, ?_⟩
  intro i below pI last branch d nearest
  obtain ⟨pair, member, is_pair⟩ := all i (List.mem_range.mpr below)
  rw [is_pair pI last branch d nearest] at member
  exact List.mem_filterMap.mpr ⟨_, member, rfl⟩

/-- The post-dominators of a function are found, each block but the exit gets exactly one
immediate post-dominator, and its first instruction is where a branch reconverges. -/
theorem postdominators_found (flow : ExitFlow fn) :
    ∃ found done pairs,
      (∀ fuel, fn.size * fn.size < fuel → fn.findPostdominators fuel = .ok found) ∧
      (∀ h < fn.size, ∀ d, d ∈ found.postdominatorIds h ↔
        OnEveryWalk (Neighbour fn.successorIds) h (fn.size - 1) d) ∧
      found.findIpostdominators = .ok done ∧
      (∀ h < fn.size, h ≠ fn.size - 1 → ∃ d < fn.size, (done.tmpIds h).items = [d] ∧
        done.immediatepostdominatorId h = d ∧
        ∀ c, Nearest (Neighbour fn.successorIds) (fn.size - 1) h c ↔ c = d) ∧
      done.getReconvergencePairs = .ok pairs ∧
      ∀ i < fn.size - 1, ∀ pI, fn.endInst i = some pI → pI.opcode = .braOp →
        ∃ d, Nearest (Neighbour fn.successorIds) (fn.size - 1) i d ∧ ⟨pI.pc, fn.targetPC d⟩ ∈ pairs := by
  obtain ⟨sets, solved, result⟩ := findPostdominators_solved flow
  obtain ⟨done, immediate, blocks, instructions, nearest⟩ := findIpostdominators_nearest (flow.of_solved solved) solved
  have size : done.size = fn.size := congrArg List.length blocks
  have begins : ∀ d, done.beginInst d = fn.beginInst d := by
    intro d
    simp only [beginInst, blocks, instructions]
  have lasts : ∀ i, done.endInst i = fn.endInst i := by
    intro i
    simp only [endInst, blocks, instructions]
  have below : ∀ i < fn.size - 1, i < fn.size ∧ i ≠ fn.size - 1 := by omega
  have ends : ∀ i < done.size - 1, ∃ pI, done.endInst i = some pI := by
    intro i before
    rw [size] at before
    rw [lasts]
    exact flow.ends i before
  have ids : ∀ i < done.size - 1, ∃ d < done.size, done.immediatepostdominatorId i = (d : Int) := by
    intro i before
    rw [size] at before ⊢
    obtain ⟨d, block, -, is_d, -⟩ := nearest i (below i before).1 (below i before).2
    exact ⟨d, block, is_d⟩
  obtain ⟨pairs, all, each⟩ := getReconvergencePairs_mem ends ids
  refine ⟨_, done, pairs, result, ?_, immediate, ?_, all, ?_⟩
  · intro h within d
    rw [solved h within d, and_iff_right_iff_imp]
    intro every
    obtain ⟨vs, walk⟩ := flow.reaches h within
    exact (walk.among flow.closed within).1 d (every vs walk)
  · intro h within other
    obtain ⟨d, block, only, is_d, near⟩ := nearest h within other
    refine ⟨d, block, only, is_d, fun c => ⟨fun near_c => near_c.unique (flow.reaches h within) near, ?_⟩⟩
    rintro rfl
    exact near
  · intro i before pI last branch
    obtain ⟨d, -, -, is_d, near⟩ := nearest i (below i before).1 (below i before).2
    refine ⟨d, near, ?_⟩
    have pair := each i (by omega) pI (by rw [lasts, last]) branch d is_d
    rwa [targetPC, begins] at pair

/-- A branch around a loop: the loop is blocks 1 and 2, the exit block 3. -/
theorem exitFlow_loop : ExitFlow (ofEdges [[1, 3], [2], [1, 3], []]) := by
  constructor
  · decide
  · decide
  · decide
  · decide
  · have nearer : ∀ h, h < 4 → h ≠ 3 → ∃ s, s < 4 ∧
        Neighbour (ofEdges [[1, 3], [2], [1, 3], []]).successorIds h s ∧ 3 - s < 3 - h := by decide
    exact fun h within => reachable_of_rank nearer within
  · decide
  · intro i within
    have within : i < 3 := within
    obtain rfl | rfl | rfl : i = 0 ∨ i = 1 ∨ i = 2 := by omega
    · exact ⟨_, rfl⟩
    · exact ⟨_, rfl⟩
    · exact ⟨_, rfl⟩

/-- The branch of block 0 goes around the loop. -/
theorem postdominators_found_loop :
    ∃ found done pairs,
      (∀ fuel, 16 < fuel → (ofEdges [[1, 3], [2], [1, 3], []]).findPostdominators fuel = .ok found) ∧
      found.findIpostdominators = .ok done ∧ done.getReconvergencePairs = .ok pairs ∧
      ∃ d, Nearest (Neighbour (ofEdges [[1, 3], [2], [1, 3], []]).successorIds) 3 0 d ∧
        ⟨0, (ofEdges [[1, 3], [2], [1, 3], []]).targetPC d⟩ ∈ pairs := by
  obtain ⟨found, done, pairs, result, -, immediate, -, all, branches⟩ := postdominators_found exitFlow_loop
  exact ⟨found, done, pairs, result, immediate, all, branches 0 (by decide) _ rfl rfl⟩

end FunctionInfo

end GpgpuSim.Ptx
