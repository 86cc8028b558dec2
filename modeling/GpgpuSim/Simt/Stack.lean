import GpgpuSim.Transition.Runs
import Mathlib.Data.Fintype.Card
import Mathlib.Data.List.FinRange
import Std.Data.TreeMap.Lemmas

/-! The SIMT stack of a warp. A warp executes at the PC of its top entry; after
each instruction `update` groups the active threads by their next PC, splits or
pops the top entry, and pushes an entry for a call. The stack is kept with its top
entry first. -/
namespace GpgpuSim.Simt

/-- `address_type`. -/
abbrev AddressType := BitVec 32

/-- `(address_type)-1`, which stands for no PC. -/
def nullPc : AddressType := -1

abbrev SimtMask (w : Nat) := Finset (Fin w)

inductive StackEntryType
  | normal
  | call
  deriving DecidableEq, Repr

/-- The operations that `update` tells apart. -/
inductive OpType
  | callOps
  | retOps
  | otherOps
  deriving DecidableEq, Repr

/-- `simt_stack_entry`. The `lineage` is not in the source: it records, by the number
of entries below each, the entries over which this one was pushed. -/
structure SimtStackEntry (w : Nat) where
  pc : AddressType := nullPc
  activeMask : SimtMask w := ∅
  recvgPc : AddressType := nullPc
  type : StackEntryType := .normal
  lineage : List Nat := []
  deriving DecidableEq

inductive StackFault
  | emptyStack
  | pcMismatch
  | emptyMask
  | threadsLeft
  | tooManyPaths
  | lateNotTaken
  | noPath
  | divergentCall
  | divergentReturn
  | poppedCall
  | endless
  deriving DecidableEq, Repr

/-- `m_stack`, from the top entry down. -/
abbrev Stack (w : Nat) := List (SimtStackEntry w)

/-- `std::map<address_type, simt_mask_t>`. -/
abbrev PathMap (w : Nat) := Std.TreeMap AddressType (SimtMask w) compare

variable {w : Nat}

namespace SimtStack

def launch (startPc : AddressType) (activeMask : SimtMask w) : Stack w :=
  [{ pc := startPc, activeMask, type := .normal }]

/-- The variables of one pass of the `while` loop. -/
structure Group (w : Nat) where
  topActiveMask : SimtMask w
  tmpNextPc : AddressType := nullPc
  tmpActiveMask : SimtMask w := ∅

def groupLane (threadDone : SimtMask w) (nextPc : Fin w → AddressType) (group : Group w) (i : Fin w) :
    Group w :=
  if i ∈ group.topActiveMask then
    if i ∈ threadDone then
      { group with topActiveMask := group.topActiveMask.erase i }
    else if group.tmpNextPc = nullPc then
      { tmpNextPc := nextPc i
        tmpActiveMask := insert i group.tmpActiveMask
        topActiveMask := group.topActiveMask.erase i }
    else if group.tmpNextPc = nextPc i then
      { group with
        tmpActiveMask := insert i group.tmpActiveMask
        topActiveMask := group.topActiveMask.erase i }
    else group
  else group

/-- The `for` loop over the lanes, from the highest down. -/
def extractGroup (threadDone : SimtMask w) (nextPc : Fin w → AddressType) (topActiveMask : SimtMask w) : Group w :=
  (List.finRange w).reverse.foldl (groupLane threadDone nextPc) { topActiveMask }

/-- The `while` loop, in at most `fuel` passes, with `num_divergent_paths`. -/
def extractPaths (threadDone : SimtMask w) (nextPc : Fin w → AddressType) :
    Nat → SimtMask w → PathMap w × Nat → Except StackFault (PathMap w × Nat)
  | 0, topActiveMask, paths => if topActiveMask = ∅ then .ok paths else .error .endless
  | fuel + 1, topActiveMask, paths =>
      if topActiveMask = ∅ then .ok paths
      else
        let group := extractGroup threadDone nextPc topActiveMask
        if group.tmpNextPc = nullPc then
          if group.topActiveMask = ∅ then
            extractPaths threadDone nextPc fuel group.topActiveMask paths
          else .error .threadsLeft
        else extractPaths threadDone nextPc fuel group.topActiveMask
          (paths.1.insert group.tmpNextPc group.tmpActiveMask, paths.2 + 1)

/-- What the `for` loop over the paths only reads. -/
structure PathLoop (w : Nat) where
  topRecvgPc : AddressType
  topType : StackEntryType
  recvgPc : AddressType
  nextInstOp : OpType
  notTakenPc : AddressType
  numDivergentPaths : Nat

structure PathState (w : Nat) where
  stack : Stack w
  divergentPaths : PathMap w
  warpDiverged : Bool := false
  newRecvgPc : AddressType := nullPc

/-- How the body of the `for` loop ends: with the next iteration or with `return`. -/
inductive PathOutcome (w : Nat)
  | next (state : PathState w)
  | returned (stack : Stack w)

/-- The fall-through path goes first, then the paths in the order of their PCs. -/
def takePath (notTakenPc : AddressType) (i : Nat) (paths : PathMap w) :
    Except StackFault (AddressType × SimtMask w × PathMap w) :=
  if notTakenPc ∈ paths then
    if i = 0 then .ok (notTakenPc, paths.getD notTakenPc ∅, paths.erase notTakenPc)
    else .error .lateNotTaken
  else
    match paths.keys.head? with
    | none => .error .noPath
    | some pc => .ok (pc, paths.getD pc ∅, paths.erase pc)

def pushCall (pc : AddressType) (mask : SimtMask w) : Stack w → Stack w
  | [] => [{ pc, activeMask := mask, type := .call }]
  | top :: rest =>
      { pc, activeMask := mask, type := .call, lineage := rest.length :: top.lineage } :: top :: rest

def returnTo (pc : AddressType) : Stack w → Except StackFault (Stack w)
  | [] => .error .emptyStack
  | back :: rest =>
      if pc = back.recvgPc ∧ back.type ≠ .call then
        if back.type = .normal then .ok rest else .error .poppedCall
      else .ok ({ back with pc } :: rest)

/-- Turns the top entry into the reconvergence entry of a divergence. -/
def diverge (loop : PathLoop w) (state : PathState w) : Except StackFault (PathState w) :=
  if loop.recvgPc ≠ loop.topRecvgPc then
    match state.stack with
    | [] => .error .emptyStack
    | back :: rest => .ok { state with
        stack := { lineage := rest.length :: back.lineage } :: { back with pc := loop.recvgPc } :: rest
        warpDiverged := true
        newRecvgPc := loop.recvgPc }
  else .ok { state with warpDiverged := true, newRecvgPc := loop.recvgPc }

/-- Makes the top entry the entry of a path and pushes a blank one. -/
def updateTop (loop : PathLoop w) (pc : AddressType) (mask : SimtMask w) (state : PathState w) :
    Except StackFault (PathState w) :=
  match state.stack with
  | [] => .error .emptyStack
  | back :: rest =>
      let recvgPc := if state.warpDiverged then state.newRecvgPc else loop.topRecvgPc
      .ok { state with
        stack := { lineage := back.lineage } :: { back with pc, activeMask := mask, recvgPc } :: rest }

/-- The rest of the body of the `for` loop, once the path is taken from the map. -/
def handlePath (loop : PathLoop w) (pc : AddressType) (mask : SimtMask w) (state : PathState w) :
    Except StackFault (PathOutcome w) :=
  if loop.nextInstOp = .callOps then
    if loop.numDivergentPaths = 1 then .ok (.returned (pushCall pc mask state.stack))
    else .error .divergentCall
  else if loop.nextInstOp = .retOps ∧ loop.topType = .call then
    if loop.numDivergentPaths = 1 then
      return .returned (← returnTo pc state.stack.tail)
    else .error .divergentReturn
  else if pc = loop.topRecvgPc ∧ loop.topType ≠ .call then .ok (.next state)
  else do
    let state ← if 1 < loop.numDivergentPaths ∧
      ¬ state.warpDiverged then diverge loop state else .ok state
    if state.warpDiverged ∧ pc = state.newRecvgPc then .ok (.next state)
    else return .next (← updateTop loop pc mask state)

def handlePaths (loop : PathLoop w) : List Nat → PathState w → Except StackFault (Stack w)
  | [], state =>
      match state.stack with
      | [] => .error .emptyStack
      | _ :: rest => .ok rest
  | i :: iterations, state => do
      let (pc, mask, divergentPaths) ← takePath loop.notTakenPc i state.divergentPaths
      match ← handlePath loop pc mask { state with divergentPaths } with
      | .next state => handlePaths loop iterations state
      | .returned stack => .ok stack

def update (threadDone : SimtMask w) (nextPc : Fin w → AddressType) (recvgPc : AddressType) (nextInstOp : OpType)
    (nextInstSize nextInstPc : AddressType) : Stack w → Except StackFault (Stack w)
  | [] => .error .emptyStack
  | top :: rest =>
      if top.pc ≠ nextInstPc then .error .pcMismatch
      else if top.activeMask = ∅ then .error .emptyMask
      else do
        let (divergentPaths, numDivergentPaths) ← extractPaths threadDone nextPc w top.activeMask (∅, 0)
        if numDivergentPaths ≤ 2 then
          handlePaths
            { topRecvgPc := top.recvgPc, topType := top.type, recvgPc, nextInstOp
              notTakenPc := nextInstPc + nextInstSize, numDivergentPaths }
            (List.range numDivergentPaths) { stack := top :: rest, divergentPaths }
        else .error .tooManyPaths

end SimtStack

end GpgpuSim.Simt
