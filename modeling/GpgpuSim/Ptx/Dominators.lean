import GpgpuSim.Ptx.DataFlow

/-! Dominators and post-dominators of the basic blocks of a function, and the immediate
ones among them. -/
namespace GpgpuSim.Ptx
open Containers Graphs Transition

/-! ## Elimination -/

/-- Erases from `Tmp` what is in the set of `s`, but not `s`. -/
def eraseBehind (sets : Nat → OrderedSet Nat) (Tmp : OrderedSet Nat) (s : Nat) : OrderedSet Nat :=
  Tmp.keep fun t => decide (t = s ∨ t ∉ sets s)

/-- Every element that is still there when its turn comes erases what is behind it. -/
def eliminate (sets : Nat → OrderedSet Nat) (Tmp : OrderedSet Nat) : OrderedSet Nat :=
  Tmp.items.foldl (fun Tmp s => if s ∈ Tmp then eraseBehind sets Tmp s else Tmp) Tmp

/-- The first element of `Tmp` replaces the number that was there. -/
def firstOr (Tmp : OrderedSet Nat) (before : Int) : Int :=
  match Tmp.items with
  | [] => before
  | first :: _ => first

variable {neighbours : Nat → OrderedSet Nat} {n root h : Nat} {sets : Nat → OrderedSet Nat}

theorem OrderedSet.items_of_mem_iff {s : OrderedSet Nat} {i : Nat} (only : ∀ a, a ∈ s ↔ a = i) : s.items = [i] := by
  have same : s = ⟨[i], List.pairwise_singleton _ i⟩ := OrderedSet.ext fun a => by
    rw [only]
    exact List.mem_singleton.symm
  rw [same]

/-- What no element erases stays, and when its turn comes it erases all others that it can. -/
theorem foldl_eraseBehind {pool : OrderedSet Nat} {d : Nat} (safe : ∀ s ∈ pool, d = s ∨ d ∉ sets s)
    (all_behind : ∀ t ∈ pool, t ∈ sets d) (items : List Nat) (Tmp : OrderedSet Nat) (part : ∀ t ∈ Tmp, t ∈ pool)
    (here : d ∈ Tmp) :
    d ∈ items.foldl (fun Tmp s => if s ∈ Tmp then eraseBehind sets Tmp s else Tmp) Tmp ∧
      (d ∈ items → ∀ t ∈ items.foldl (fun Tmp s => if s ∈ Tmp then eraseBehind sets Tmp s else Tmp) Tmp, t = d) ∧
      ∀ t ∈ items.foldl (fun Tmp s => if s ∈ Tmp then eraseBehind sets Tmp s else Tmp) Tmp, t ∈ Tmp := by
  induction items generalizing Tmp with
  | nil => exact ⟨here, by simp, fun _ same => same⟩
  | cons s rest ih =>
      simp only [List.foldl_cons]
      by_cases turn : s ∈ Tmp
      · rw [if_pos turn]
        have kept : ∀ t ∈ eraseBehind sets Tmp s, t ∈ Tmp ∧ (t = s ∨ t ∉ sets s) := by
          simp [eraseBehind]
        have stays : d ∈ eraseBehind sets Tmp s := by
          simp only [eraseBehind, OrderedSet.mem_keep, decide_eq_true_eq]
          exact ⟨here, safe s (part s turn)⟩
        obtain ⟨last, alone, subset⟩ := ih _ (fun t member => part t (kept t member).1) stays
        refine ⟨last, ?_, fun t member => (kept t (subset t member)).1⟩
        intro comes t member
        rcases List.mem_cons.mp comes with rfl | later
        · obtain ⟨before, left⟩ := kept t (subset t member)
          exact left.resolve_right fun missing => missing (all_behind t (part t before))
        · exact alone later t member
      · rw [if_neg turn]
        obtain ⟨last, alone, subset⟩ := ih Tmp part here
        refine ⟨last, ?_, subset⟩
        intro comes
        rcases List.mem_cons.mp comes with rfl | later
        · exact absurd here turn
        · exact alone later

/-- The elimination leaves the nearest of the blocks that no walk to the root misses. -/
theorem eliminate_nearest (closed : ∀ h < n, ∀ s ∈ neighbours h, s < n) (root_lt : root < n)
    (solved : Solved neighbours n root sets) (within : h < n) (other : h ≠ root)
    (reach : Reachable (Neighbour neighbours) h root) :
    ∃ d < n, (eliminate sets ((sets h).erase h)).items = [d] ∧ Nearest (Neighbour neighbours) root h d := by
  have behind : ∀ d ∈ (sets h).erase h, d < n ∧ StrictlyBehind (Neighbour neighbours) root h d := by
    intro d member
    obtain ⟨inside, apart⟩ := OrderedSet.mem_erase.mp member
    obtain ⟨block, every⟩ := (solved h within d).mp inside
    exact ⟨block, every, apart⟩
  have root_mem : root ∈ (sets h).erase h :=
    OrderedSet.mem_erase.mpr ⟨(solved h within root).mpr ⟨root_lt, .target h root⟩, Ne.symm other⟩
  obtain ⟨d, candidate, nearest⟩ := exists_nearest_of_list reach (List.ne_nil_of_mem root_mem)
    fun d member => (behind d member).2.1
  obtain ⟨block, strictly⟩ := behind d candidate
  have all_behind : ∀ c ∈ (sets h).erase h, c ∈ sets d := by
    intro c member
    exact (solved d block c).mpr ⟨(behind c member).1, nearest c member⟩
  have safe : ∀ s ∈ (sets h).erase h, d = s ∨ d ∉ sets s := by
    intro s member
    rw [or_iff_not_imp_right, not_not]
    intro erased
    have s_behind := behind s member
    have d_behind := ((solved s s_behind.1 d).mp erased).2
    exact OnEveryWalk.antisymm (s_behind.2.reachable reach) d_behind (nearest s member)
  obtain ⟨stays, alone, -⟩ := foldl_eraseBehind safe all_behind ((sets h).erase h).items ((sets h).erase h)
    (fun _ same => same) candidate
  refine ⟨d, block, OrderedSet.items_of_mem_iff fun a => ⟨alone candidate a, ?_⟩, strictly, ?_⟩
  · rintro rfl
    exact stays
  · intro c behind_c
    obtain ⟨vs, walk⟩ := reach
    have block_c : c < n := (walk.among closed within).1 c (behind_c.1 vs walk)
    exact nearest c (OrderedSet.mem_erase.mpr ⟨(solved h within c).mpr ⟨block_c, behind_c.1⟩, behind_c.2⟩)

theorem eliminate_empty {Tmp : OrderedSet Nat} (none_there : ∀ a, a ∉ Tmp) : (eliminate sets Tmp).items = [] := by
  have nothing : Tmp.items = [] := List.eq_nil_iff_forall_not_mem.mpr none_there
  simp only [eliminate, nothing, List.foldl_nil]

namespace FunctionInfo

/-! ## Dominators -/

/-- Blocks 1 and up are visited in ascending order; then the sets of blocks without
predecessors are cleared, that of the entry excepted. -/
def findDominators (fuel : Nat) (fn : FunctionInfo) : Except PtxFault FunctionInfo :=
  if fn.size < 2 ∨ fn.numbered = false then .error .assertion
  else
    let start := fun h => if h = 0 then (fn.dominatorIds 0).insert 0
      else (fn.dominatorIds h).insertAll (List.range fn.size)
    match untilStable (passOver fn.predecessorIds fn.size (List.range' 1 (fn.size - 1))) fuel start with
    | none => .error .outOfFuel
    | some sets => .ok { fn with
        dominatorIds := fun h => if h ≠ 0 ∧ (fn.predecessorIds h).isEmpty = true then .empty else sets h }

/-- Also the blocks without predecessors are counted, and the final assertion is that all
other blocks have an immediate dominator. -/
def findIdominators (fn : FunctionInfo) : Except PtxFault FunctionInfo :=
  if fn.size < 2 ∨ fn.numbered = false then .error .assertion
  else
    let tmp := fun h => eliminate fn.dominatorIds ((fn.dominatorIds h).erase h)
    let numIdoms := (List.range fn.size).countP fun h => !(tmp h).isEmpty
    let numNopred := (List.range fn.size).countP fun h => (tmp h).isEmpty && (fn.predecessorIds h).isEmpty
    if numIdoms = fn.size - numNopred then
      .ok { fn with
        tmpIds := tmp
        immediatedominatorId := fun h => firstOr (tmp h) (fn.immediatedominatorId h) }
    else .error .assertion

/-! ## Post-dominators -/

/-- The blocks below the last are visited in descending order. -/
def findPostdominators (fuel : Nat) (fn : FunctionInfo) : Except PtxFault FunctionInfo :=
  if fn.size < 2 ∨ fn.numbered = false then .error .assertion
  else
    let start := fun h => if h = fn.size - 1 then (fn.postdominatorIds h).insert h
      else (fn.postdominatorIds h).insertAll (List.range fn.size)
    match untilStable (passOver fn.successorIds fn.size (List.range (fn.size - 1)).reverse) fuel start with
    | none => .error .outOfFuel
    | some sets => .ok { fn with postdominatorIds := sets }

/-- No block may be left with two candidates, and all but one must have one. -/
def findIpostdominators (fn : FunctionInfo) : Except PtxFault FunctionInfo :=
  if fn.size < 2 ∨ fn.numbered = false then .error .assertion
  else
    let tmp := fun h =>
      if h < fn.size - 1 then eliminate fn.postdominatorIds ((fn.postdominatorIds h).erase h)
      else (fn.postdominatorIds h).erase h
    if (List.range fn.size).any (fun h => decide (1 < (tmp h).size)) then .error .assertion
    else
      let numIpdoms := (List.range fn.size).countP fun h => !(tmp h).isEmpty
      if numIpdoms = fn.size - 1 then
        .ok { fn with
          tmpIds := tmp
          immediatepostdominatorId := fun h => firstOr (tmp h) (fn.immediatepostdominatorId h) }
      else .error .assertion

end FunctionInfo

end GpgpuSim.Ptx
