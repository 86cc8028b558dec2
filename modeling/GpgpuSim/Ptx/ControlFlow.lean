import GpgpuSim.Ptx.BlockPartition
import GpgpuSim.Ptx.BreakTargets
import GpgpuSim.Transition.Outcomes

/-! `do_pdom`: the basic blocks are made and connected, the edges of breaks are found in rounds with the
dominators that they change, and the reconvergence points come last. -/
namespace GpgpuSim.Ptx
open Containers Graphs Transition

namespace FunctionInfo

/-! ## Edges -/

/-- The block of the instruction at an address. -/
def blockAt (fn : FunctionInfo) (address : Nat) : Except PtxFault Nat :=
  if address < fn.instrMemSize then
    match (fn.instrMem address).bind fn.bb with
    | some b => .ok b
    | none => .error .badAccess
  else .error .badAccess

def addEdge (fn : FunctionInfo) (a b : Nat) : FunctionInfo :=
  { fn with
    successorIds := Function.update fn.successorIds a ((fn.successorIds a).insert b)
    predecessorIds := Function.update fn.predecessorIds b ((fn.predecessorIds b).insert a) }

/-- Takes away the edges out of a block. -/
def clearSuccessors (fn : FunctionInfo) (a : Nat) : FunctionInfo :=
  { fn with
    successorIds := Function.update fn.successorIds a .empty
    predecessorIds := fun s => if s ∈ fn.successorIds a then (fn.predecessorIds s).erase a else fn.predecessorIds s }

/-- The edge to the block of the next instruction. -/
def addNext (fn : FunctionInfo) (i : Nat) (pI : PtxInstruction) : Except PtxFault FunctionInfo :=
  (fn.blockAt (pI.instrMemIndex + pI.instSize)).map (fn.addEdge i)

/-- A predicated transfer may also go on to the next block. -/
def addFallThrough (fn : FunctionInfo) (i : Nat) (pI : PtxInstruction) : Except PtxFault FunctionInfo :=
  if pI.hasPred then fn.addNext i pI else .ok fn

/-- A return goes to the exit, a predicated one also to the next block if there is one. -/
def connectExit (fn : FunctionInfo) (i : Nat) (pI : PtxInstruction) : Except PtxFault FunctionInfo :=
  match fn.basicBlocks.getLast? with
  | none => .error .badAccess
  | some exit =>
      let nextAddr := pI.instrMemIndex + pI.instSize
      if pI.hasPred && decide (nextAddr < fn.instrMemSize) && (fn.instrMem nextAddr).isSome then
        (fn.addEdge i exit.bbId).addNext i pI
      else .ok (fn.addEdge i exit.bbId)

/-- One block of `connect_basic_blocks`, by the instruction that ends it. -/
def connectBlock (fn : FunctionInfo) (i : Nat) : Except PtxFault FunctionInfo :=
  match fn.basicBlocks[i]? with
  | none => .error .badAccess
  | some block =>
      if block.isExit then .ok fn
      else
        match fn.endInst i with
        | none => .error .badAccess
        | some pI =>
            match pI.opcode with
            | .retpOp | .retOp | .exitOp => fn.connectExit i pI
            | .braOp => do
                let target ← fn.blockAt (fn.labels pI.dst)
                (fn.addEdge i target).addFallThrough i pI
            | _ => fn.addNext i pI

def connectBasicBlocks (fn : FunctionInfo) : Except PtxFault FunctionInfo :=
  (List.range fn.size).foldlM connectBlock fn

/-- One block of `connect_break_targets`: a block that ends in a break loses its edges and
gets one to the target. -/
def connectBreak (fuel : Nat) (state : FunctionInfo × Bool) (i : Nat) : Except PtxFault (FunctionInfo × Bool) :=
  match state.1.basicBlocks[i]? with
  | none => .error .badAccess
  | some block =>
      if block.isExit then .ok state
      else
        match block.ptxEnd, state.1.endInst i with
        | some place, some pI =>
            if pI.opcode = .breakOp then do
              let cleared := state.1.clearSuccessors i
              let target ← cleared.findBreakTarget fuel place
              let targetBB ← cleared.blockAt (cleared.labels target)
              let linked ← (cleared.addEdge i targetBB).addFallThrough i pI
              pure (linked, state.2 || decide (state.1.successorIds i ≠ linked.successorIds i))
            else .ok state
        | _, _ => .error .badAccess

def connectBreakTargets (fuel : Nat) (fn : FunctionInfo) : Except PtxFault (FunctionInfo × Bool) :=
  (List.range fn.size).foldlM (connectBreak fuel) (fn, false)

/-- The loop of `do_pdom`. -/
def doPdomLoop (fuel : Nat) : Nat → FunctionInfo → Except PtxFault FunctionInfo
  | 0, _ => .error .outOfFuel
  | turns + 1, fn => do
      let found ← fn.findDominators fuel
      let done ← found.findIdominators
      let (next, modified) ← done.connectBreakTargets fuel
      if modified then doPdomLoop fuel turns next else pure next

/-- `do_pdom` but for the decoding of the instructions. -/
def doPdom (fuel turns : Nat) (fn : FunctionInfo) : Except PtxFault FunctionInfo := do
  let blocks ← fn.createBasicBlocks
  let linked ← blocks.connectBasicBlocks
  let last ← doPdomLoop fuel turns linked
  let found ← last.findPostdominators fuel
  found.findIpostdominators

variable {fn next last : FunctionInfo} {a b c h i fuel : Nat} {pI : PtxInstruction}

/-! ## What an edge changes -/

/-- Nothing but edges is changed. -/
def SameButEdges (fn next : FunctionInfo) : Prop :=
  next = { fn with predecessorIds := next.predecessorIds, successorIds := next.successorIds }

theorem SameButEdges.trans (first : SameButEdges fn next) (second : SameButEdges next last) :
    SameButEdges fn last := by
  unfold SameButEdges at first second ⊢
  rw [first] at second
  exact second

theorem SameButEdges.size (same : SameButEdges fn next) : next.size = fn.size := by
  rw [same]
  rfl

theorem SameButEdges.endInst (same : SameButEdges fn next) : next.endInst h = fn.endInst h := by
  rw [same]
  rfl

theorem SameButEdges.blocks (same : SameButEdges fn next) (blocks : Blocks fn) : Blocks next := by
  rw [same]
  exact ⟨blocks.two, blocks.numbered, blocks.exit, blocks.marks⟩

/-- Edges lead from blocks before the exit to blocks, and are known at both ends. -/
structure Linked (fn : FunctionInfo) : Prop where
  within : ∀ a b, b ∈ fn.successorIds a → a + 1 < fn.size ∧ b < fn.size
  linked : ∀ a b, a ∈ fn.predecessorIds b ↔ b ∈ fn.successorIds a

theorem mem_successorIds_addEdge :
    c ∈ (fn.addEdge i b).successorIds a ↔ a = i ∧ c = b ∨ c ∈ fn.successorIds a := by
  by_cases here : a = i
  · subst here
    simp [addEdge]
  · simp [addEdge, here]

theorem mem_predecessorIds_addEdge :
    a ∈ (fn.addEdge i b).predecessorIds c ↔ a = i ∧ c = b ∨ a ∈ fn.predecessorIds c := by
  by_cases here : c = b
  · subst here
    simp [addEdge]
  · simp [addEdge, here]

theorem mem_successorIds_clearSuccessors :
    c ∈ (fn.clearSuccessors i).successorIds a ↔ a ≠ i ∧ c ∈ fn.successorIds a := by
  by_cases here : a = i <;> simp [clearSuccessors, here]

namespace Linked

theorem addEdge (linked : Linked fn) (inner : i + 1 < fn.size) (block : b < fn.size) : Linked (fn.addEdge i b) where
  within a c edge := by
    rcases mem_successorIds_addEdge.mp edge with ⟨rfl, rfl⟩ | old
    · exact ⟨inner, block⟩
    · exact linked.within a c old
  linked a c := by rw [mem_predecessorIds_addEdge, mem_successorIds_addEdge, linked.linked]

theorem clearSuccessors (linked : Linked fn) : Linked (fn.clearSuccessors i) where
  within a c edge := linked.within a c (mem_successorIds_clearSuccessors.mp edge).2
  linked a c := by
    rw [mem_successorIds_clearSuccessors, ← linked.linked]
    simp only [FunctionInfo.clearSuccessors]
    split
    next => rw [OrderedSet.mem_erase, and_comm]
    next apart =>
      refine ⟨fun edge => ⟨?_, edge⟩, fun both => both.2⟩
      rintro rfl
      exact apart ((linked.linked _ _).mp edge)

end Linked

/-- Block `i` has got successors, and the other blocks keep theirs. -/
structure Connects (fn : FunctionInfo) (i : Nat) (next : FunctionInfo) : Prop where
  same : SameButEdges fn next
  linked : Linked next
  leaves : ∃ s, s ∈ next.successorIds i
  others : ∀ h, h ≠ i → next.successorIds h = fn.successorIds h

theorem Connects.trans (first : Connects fn i next) (second : Connects next i last) : Connects fn i last where
  same := first.same.trans second.same
  linked := second.linked
  leaves := second.leaves
  others h apart := (second.others h apart).trans (first.others h apart)

theorem Linked.connects (linked : Linked fn) (inner : i + 1 < fn.size) (block : b < fn.size) :
    Connects fn i (fn.addEdge i b) where
  same := rfl
  linked := linked.addEdge inner block
  leaves := ⟨b, mem_successorIds_addEdge.mpr (.inl ⟨rfl, rfl⟩)⟩
  others _ apart := Function.update_of_ne apart _ _

/-- No instruction is in the exit. -/
theorem Blocks.of_blockAt (blocks : Blocks fn) {address : Nat} (found : fn.blockAt address = .ok b) :
    b < fn.size := by
  unfold blockAt at found
  split at found
  · split at found
    next marked =>
      cases found
      obtain ⟨place, -, marked⟩ := Option.bind_eq_some_iff.mp marked
      exact Nat.lt_of_succ_lt (blocks.marks place b marked)
    next => contradiction
  · contradiction

theorem addNext_connects (blocks : Blocks fn) (linked : Linked fn) (inner : i + 1 < fn.size)
    (done : fn.addNext i pI = .ok next) : Connects fn i next := by
  obtain ⟨b, found, rfl⟩ := map_ok.mp done
  exact linked.connects inner (blocks.of_blockAt found)

/-- Behind an edge of the same block the fall through changes nothing that counts. -/
theorem Connects.fallThrough (connects : Connects fn i next) (blocks : Blocks fn) (inner : i + 1 < fn.size)
    (done : next.addFallThrough i pI = .ok last) : Connects fn i last := by
  unfold addFallThrough at done
  split at done
  · exact connects.trans (addNext_connects (connects.same.blocks blocks) connects.linked
      (connects.same.size.symm ▸ inner) done)
  · cases done
    exact connects

/-! ## `connect_basic_blocks` -/

theorem Blocks.exit_lt (blocks : Blocks fn) {exit : BasicBlock} (last : fn.basicBlocks.getLast? = some exit) :
    exit.bbId < fn.size := by
  have numbered := blocks.numbered
  simp only [FunctionInfo.numbered, decide_eq_true_eq] at numbered
  rw [← List.mem_range, ← numbered]
  exact List.mem_map_of_mem (List.mem_of_getLast? last)

theorem connectExit_connects (blocks : Blocks fn) (linked : Linked fn) (inner : i + 1 < fn.size)
    (done : fn.connectExit i pI = .ok next) : Connects fn i next := by
  unfold connectExit at done
  split at done
  · contradiction
  next exit last =>
    have connects := linked.connects inner (blocks.exit_lt last)
    dsimp only at done
    split at done
    · exact connects.trans (addNext_connects (connects.same.blocks blocks) connects.linked inner done)
    · cases done
      exact connects

theorem connectBlock_connects (blocks : Blocks fn) (linked : Linked fn) (done : connectBlock fn i = .ok next) :
    i + 1 = fn.size ∧ next = fn ∨ Connects fn i next ∧ ∃ pI, fn.endInst i = some pI := by
  unfold connectBlock at done
  split at done
  · contradiction
  next block found =>
    have within : i < fn.size := (List.getElem?_eq_some_iff.mp found).1
    split at done
    next exit =>
      cases done
      exact .inl ⟨(blocks.exit i block found).mp exit, rfl⟩
    next other =>
      have inner : i + 1 < fn.size := by
        have apart : i + 1 ≠ fn.size := fun last => other ((blocks.exit i block found).mpr last)
        omega
      split at done
      · contradiction
      next pI ends =>
        refine .inr ⟨?_, pI, ends⟩
        split at done
        · exact connectExit_connects blocks linked inner done
        · exact connectExit_connects blocks linked inner done
        · exact connectExit_connects blocks linked inner done
        · obtain ⟨target, labelled, done⟩ := bind_ok.mp done
          exact (linked.connects inner (blocks.of_blockAt labelled)).fallThrough blocks inner done
        · exact addNext_connects blocks linked inner done

/-- A flow graph: every block but the exit has an instruction at its end, and an edge that leaves it. -/
structure Wired (fn : FunctionInfo) : Prop extends Blocks fn, Linked fn where
  leaves : ∀ h, h + 1 < fn.size → ∃ s, s ∈ fn.successorIds h
  ends : ∀ h, h + 1 < fn.size → ∃ pI, fn.endInst h = some pI

/-- The blocks below `n` are connected. -/
structure ConnectedBelow (fn : FunctionInfo) (n : Nat) (next : FunctionInfo) : Prop where
  same : SameButEdges fn next
  linked : Linked next
  leaves : ∀ h < n, h + 1 < fn.size → ∃ s, s ∈ next.successorIds h
  ends : ∀ h < n, h + 1 < fn.size → ∃ pI, fn.endInst h = some pI

/-- What the blocks before have got stays. -/
theorem ConnectedBelow.connectBlock (below : ConnectedBelow fn i next) (blocks : Blocks fn)
    (done : connectBlock next i = .ok last) : ConnectedBelow fn (i + 1) last := by
  rcases connectBlock_connects (below.same.blocks blocks) below.linked done with ⟨exit, rfl⟩ | ⟨connects, ends⟩
  · rw [below.same.size] at exit
    exact ⟨below.same, below.linked, fun h _ inner => below.leaves h (by omega) inner,
      fun h _ inner => below.ends h (by omega) inner⟩
  · refine ⟨below.same.trans connects.same, connects.linked, fun h within inner => ?_, fun h within inner => ?_⟩
    · by_cases here : h = i
      · rw [here]
        exact connects.leaves
      · rw [connects.others h here]
        exact below.leaves h (by omega) inner
    · by_cases here : h = i
      · obtain ⟨pI, at_end⟩ := ends
        rw [here]
        exact ⟨pI, below.same.endInst.symm.trans at_end⟩
      · exact below.ends h (by omega) inner

theorem connectBasicBlocks_wired (blocks : Blocks fn)
    (unlinked : ∀ h, fn.predecessorIds h = .empty ∧ fn.successorIds h = .empty)
    (done : fn.connectBasicBlocks = .ok next) : SameButEdges fn next ∧ Wired next := by
  have start : Linked fn := by
    constructor
    · intro a b edge
      simp [(unlinked a).2] at edge
    · intro a b
      simp [(unlinked b).1, (unlinked a).2]
  have all : Ends fn.connectBasicBlocks (ConnectedBelow fn fn.size) fun _ => True := by
    refine Ends.foldlM_range ⟨rfl, start, by simp, by simp⟩ fun i _ middle below => ?_
    exact .of_ok fun _ connected => below.connectBlock blocks connected
  obtain ⟨same, linked, leaves, ends⟩ := all.result done
  have size := same.size
  refine ⟨same, { same.blocks blocks, linked with leaves := fun h inner => ?_, ends := fun h inner => ?_ }⟩
  · rw [size] at inner
    exact leaves h (Nat.lt_of_succ_lt inner) inner
  · rw [size] at inner
    rw [same.endInst]
    exact ends h (Nat.lt_of_succ_lt inner) inner

/-! ## Breaks, and the rounds of `do_pdom` -/

/-- A block that ends in a break gets other edges for those that it had. -/
theorem connectBreak_wired {state after : FunctionInfo × Bool} (wired : Wired state.1)
    (done : connectBreak fuel state i = .ok after) : SameButEdges state.1 after.1 ∧ Wired after.1 := by
  unfold connectBreak at done
  split at done
  · contradiction
  next block found =>
    have within : i < state.1.size := (List.getElem?_eq_some_iff.mp found).1
    split at done
    · cases done
      exact ⟨rfl, wired⟩
    next other =>
      have inner : i + 1 < state.1.size := by
        have apart : i + 1 ≠ state.1.size := fun last => other ((wired.exit i block found).mpr last)
        omega
      split at done
      next place pI _ _ =>
        split at done
        · obtain ⟨target, -, done⟩ := bind_ok.mp done
          obtain ⟨targetBB, labelled, done⟩ := bind_ok.mp done
          obtain ⟨linked, linking, done⟩ := bind_ok.mp done
          obtain rfl := pure_ok.mp done
          have cleared : SameButEdges state.1 (state.1.clearSuccessors i) := rfl
          have blocks := cleared.blocks wired.toBlocks
          have connects := (wired.toLinked.clearSuccessors.connects inner (blocks.of_blockAt labelled)).fallThrough
            blocks inner linking
          have same := cleared.trans connects.same
          refine ⟨same, { same.blocks wired.toBlocks, connects.linked with
            leaves := fun h before => ?_, ends := fun h before => ?_ }⟩
          · by_cases here : h = i
            · rw [here]
              exact connects.leaves
            · obtain ⟨s, edge⟩ := wired.leaves h (same.size ▸ before)
              exact ⟨s, by rw [connects.others h here]; exact mem_successorIds_clearSuccessors.mpr ⟨here, edge⟩⟩
          · rw [same.endInst]
            exact wired.ends h (same.size ▸ before)
        · cases done
          exact ⟨rfl, wired⟩
      · contradiction

theorem connectBreakTargets_wired {modified : Bool} (wired : Wired fn)
    (done : fn.connectBreakTargets fuel = .ok (next, modified)) : SameButEdges fn next ∧ Wired next := by
  have all : Ends (fn.connectBreakTargets fuel) (fun after => SameButEdges fn after.1 ∧ Wired after.1)
      fun _ => True := by
    refine Ends.foldlM_range (P := fun _ (after : FunctionInfo × Bool) => SameButEdges fn after.1 ∧ Wired after.1)
      ⟨rfl, wired⟩ ?_
    rintro i - middle ⟨same, wired⟩
    refine .of_ok fun after connected => ?_
    obtain ⟨later, wired⟩ := connectBreak_wired wired connected
    exact ⟨same.trans later, wired⟩
  exact all.result done

theorem findDominators_frame (found : fn.findDominators fuel = .ok next) :
    next = { fn with dominatorIds := next.dominatorIds } := by
  unfold findDominators at found
  split at found
  · contradiction
  · dsimp only at found
    split at found
    · contradiction
    · cases found
      rfl

theorem findIdominators_frame (found : fn.findIdominators = .ok next) :
    next = { fn with tmpIds := next.tmpIds, immediatedominatorId := next.immediatedominatorId } := by
  unfold findIdominators at found
  split at found
  · contradiction
  · dsimp only at found
    split at found
    · cases found
      rfl
    · contradiction

/-- Every turn of the loop is a round with new edges, and the flow graph stays one. -/
theorem doPdomLoop_rounds {turns : Nat} (wired : Wired fn) (done : doPdomLoop fuel turns fn = .ok last) :
    Relation.ReflTransGen Relinked fn last ∧ Wired last ∧ last.postdominatorIds = fn.postdominatorIds := by
  induction turns generalizing fn with
  | zero => contradiction
  | succ turns ih =>
      simp only [doPdomLoop] at done
      obtain ⟨found, dominators, done⟩ := bind_ok.mp done
      obtain ⟨immediate, idominators, done⟩ := bind_ok.mp done
      obtain ⟨⟨next, modified⟩, connected, done⟩ := bind_ok.mp done
      have frame := (findIdominators_frame idominators).trans
        (congrArg (fun found : FunctionInfo => { found with
          tmpIds := immediate.tmpIds
          immediatedominatorId := immediate.immediatedominatorId }) (findDominators_frame dominators))
      have kept : Wired immediate := by
        rw [frame]
        exact ⟨⟨wired.two, wired.numbered, wired.exit, wired.marks⟩, ⟨wired.within, wired.linked⟩, wired.leaves,
          wired.ends⟩
      obtain ⟨same, rewired⟩ := connectBreakTargets_wired kept connected
      have turn : Relinked fn next := by
        rw [same]
        exact .turn fuel _ _ dominators idominators
      have untouched : next.postdominatorIds = fn.postdominatorIds := by
        rw [same, frame]
      cases modified with
      | true =>
          obtain ⟨rounds, wired, still⟩ := ih rewired done
          exact ⟨rounds.head turn, wired, still.trans untouched⟩
      | false =>
          obtain rfl := pure_ok.mp done
          exact ⟨.single turn, rewired, untouched⟩

/-! ## From the instructions to the reconvergence points -/

theorem Wired.entryFlow (wired : Wired fn) (reaches : ∀ h < fn.size, Reachable (Neighbour fn.successorIds) 0 h) :
    EntryFlow fn where
  two := wired.two
  numbered := wired.numbered
  closed h _ s edge := (wired.within h s edge).2
  closed_back h _ p edge := Nat.lt_of_succ_lt (wired.within p h ((wired.linked p h).mp edge)).1
  linked a _ b _ := wired.linked a b
  reaches := reaches

theorem Wired.exitFlow (wired : Wired fn) (fresh : ∀ h, fn.postdominatorIds h = .empty)
    (reaches : ∀ h < fn.size, Reachable (Neighbour fn.successorIds) h (fn.size - 1)) : ExitFlow fn where
  two := wired.two
  numbered := wired.numbered
  closed h _ s edge := (wired.within h s edge).2
  alone h within := by
    constructor
    · intro nothing
      by_contra other
      obtain ⟨s, edge⟩ := wired.leaves h (by omega)
      simp [nothing] at edge
    · rintro rfl
      apply OrderedSet.ext
      intro s
      simp only [OrderedSet.not_mem_empty, iff_false]
      intro edge
      have inner := (wired.within _ s edge).1
      omega
  reaches := reaches
  earlier h _ d member := by simp [fresh] at member
  ends i inner := wired.ends i (by omega)

/-- A function as it is parsed. -/
structure Unanalysed (fn : FunctionInfo) : Prop where
  blocks : fn.basicBlocks = []
  unmarked : ∀ p, fn.bb p = none
  unlinked : ∀ h, fn.predecessorIds h = .empty ∧ fn.successorIds h = .empty
  fresh : Fresh fn
  postdominators : ∀ h, fn.postdominatorIds h = .empty

theorem createBasicBlocks_frame (made : fn.createBasicBlocks = .ok next) :
    next = { fn with basicBlocks := next.basicBlocks, bb := next.bb } := by
  unfold createBasicBlocks at made
  dsimp only at made
  split at made
  · contradiction
  · cases made
    rfl

/-- `do_pdom` from the instructions on. The rounds of its loop start from fresh blocks, and what they end with is a
flow graph, one of the entry if the entry reaches every block. If every block reaches the exit, the assertions behind
the loop hold, and every block but the exit gets its immediate post-dominator. -/
theorem doPdom_found {blocks linked : FunctionInfo} {turns : Nat} (unanalysed : Unanalysed fn)
    (holds_real : ∃ p, realAt fn.instructions p = true) (made : fn.createBasicBlocks = .ok blocks)
    (connected : blocks.connectBasicBlocks = .ok linked) (looped : doPdomLoop fuel turns linked = .ok last) :
    (Fresh linked ∧ Relation.ReflTransGen Relinked linked last) ∧ Wired last ∧
    ((∀ h < last.size, Reachable (Neighbour last.successorIds) 0 h) → EntryFlow last) ∧
    ((∀ h < last.size, Reachable (Neighbour last.successorIds) h (last.size - 1)) → last.size * last.size < fuel →
      ∃ done, fn.doPdom fuel turns = .ok done ∧ ∀ h < last.size, h ≠ last.size - 1 → ∃ d < last.size,
        done.immediatepostdominatorId h = d ∧ Nearest (Neighbour last.successorIds) (last.size - 1) h d) := by
  have frame := createBasicBlocks_frame made
  have unlinked : ∀ h, blocks.predecessorIds h = .empty ∧ blocks.successorIds h = .empty := by
    rw [frame]
    exact unanalysed.unlinked
  obtain ⟨same, wired⟩ := connectBasicBlocks_wired
    (createBasicBlocks_blocks unanalysed.blocks unanalysed.unmarked holds_real made) unlinked connected
  obtain ⟨rounds, rewired, untouched⟩ := doPdomLoop_rounds wired looped
  have fresh : Fresh linked := by
    rw [same, frame]
    exact ⟨unanalysed.fresh.dominators, unanalysed.fresh.immediate⟩
  have none : ∀ h, last.postdominatorIds h = .empty := by
    rw [untouched, same, frame]
    exact unanalysed.postdominators
  refine ⟨⟨fresh, rounds⟩, rewired, rewired.entryFlow, fun reaches enough => ?_⟩
  have flow := rewired.exitFlow none reaches
  obtain ⟨sets, solved, result⟩ := findPostdominators_solved flow
  obtain ⟨done, immediate, -, -, nearest⟩ := findIpostdominators_nearest (flow.of_solved solved) solved
  refine ⟨done, ?_, fun h within other => ?_⟩
  · rw [doPdom, made]
    refine bind_ok.mpr ⟨blocks, rfl, bind_ok.mpr ⟨linked, connected, bind_ok.mpr ⟨last, looped, ?_⟩⟩⟩
    exact bind_ok.mpr ⟨_, result fuel enough, immediate⟩
  · obtain ⟨d, block, -, is_d, near⟩ := nearest h within other
    exact ⟨d, block, is_d, near⟩

/-- A branch around one instruction, to the label of a return. -/
def branchAround : FunctionInfo :=
  { ofEdges [] with
    instructions := [⟨none, .other, false, "", 8, 0, 0⟩, ⟨none, .braOp, true, "end", 8, 8, 8⟩,
      ⟨none, .other, false, "", 8, 16, 16⟩, ⟨some "end", .other, false, "", 0, 0, 0⟩,
      ⟨none, .retOp, false, "", 8, 24, 24⟩]
    instrMem := fun address =>
      if address = 0 then some 0 else if address = 8 then some 1 else if address = 16 then some 2
      else if address = 24 then some 4 else none
    instrMemSize := 32
    labels := fun _ => 24
    bb := fun _ => none }

theorem branchAround_unanalysed : Unanalysed branchAround where
  blocks := rfl
  unmarked _ := rfl
  unlinked _ := ⟨rfl, rfl⟩
  fresh := ⟨fun _ => rfl, fun _ => rfl⟩
  postdominators _ := rfl

/-- It reconverges at the return. -/
theorem doPdom_found_branch : ∃ last done, Wired last ∧ EntryFlow last ∧ last.size = 4 ∧
    branchAround.doPdom 20 2 = .ok done ∧ done.immediatepostdominatorId 0 = (2 : Nat) ∧
    Nearest (Neighbour last.successorIds) 3 0 2 := by
  have passed : succeedsWith (do
      let blocks ← branchAround.createBasicBlocks
      let linked ← blocks.connectBasicBlocks
      doPdomLoop 20 2 linked)
      (fun last => last.size == 4 && decide (1 ∈ last.successorIds 0) && decide (2 ∈ last.successorIds 1) &&
        decide (3 ∈ last.successorIds 2)) = true := by
    decide +kernel
  obtain ⟨last, through, test⟩ := exists_of_succeedsWith passed
  obtain ⟨blocks, made, through⟩ := bind_ok.mp through
  obtain ⟨linked, connected, looped⟩ := bind_ok.mp through
  simp only [Bool.and_eq_true, beq_iff_eq, decide_eq_true_eq] at test
  obtain ⟨⟨⟨size, first⟩, second⟩, third⟩ := test
  obtain ⟨-, wired, entry, exit⟩ :=
    doPdom_found branchAround_unanalysed ⟨0, rfl⟩ made connected looped
  rw [size] at entry exit
  have reaches : ∀ h < 4, Reachable (Neighbour last.successorIds) h 3 := by
    intro h within
    obtain rfl | rfl | rfl | rfl : h = 0 ∨ h = 1 ∨ h = 2 ∨ h = 3 := by omega
    · exact .step first (.step second (.step third (.refl 3)))
    · exact .step second (.step third (.refl 3))
    · exact .step third (.refl 3)
    · exact .refl 3
  have reached : ∀ h < 4, Reachable (Neighbour last.successorIds) 0 h := by
    intro h within
    obtain rfl | rfl | rfl | rfl : h = 0 ∨ h = 1 ∨ h = 2 ∨ h = 3 := by omega
    · exact .refl 0
    · exact .step first (.refl 1)
    · exact .step first (.step second (.refl 2))
    · exact .step first (.step second (.step third (.refl 3)))
  obtain ⟨done, result, nearest⟩ := exit reaches (by decide)
  obtain ⟨d, -, found, nearest⟩ := nearest 0 (by decide) (by decide)
  have two : (branchAround.doPdom 20 2).map (fun done => done.immediatepostdominatorId 0) = .ok 2 := by
    decide +kernel
  rw [result] at two
  have two := Except.ok.inj two
  obtain rfl : d = 2 := Int.ofNat.inj (found.symm.trans two)
  exact ⟨last, done, wired, entry reached, size, result, two, nearest⟩

end FunctionInfo

end GpgpuSim.Ptx
