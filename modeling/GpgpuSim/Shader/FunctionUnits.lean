import GpgpuSim.Transition.Fallible
import GpgpuSim.Words.SlotBits
import Mathlib.Logic.Function.Basic

/-! The pipelined function units of a shader core: the register sets between the stages, the pipeline of
each unit, the result buses that the units share, and the stages `writeback` and `execute`. -/
namespace GpgpuSim.Shader
open Transition Words

/-- `uarch_op_t`. -/
inductive UarchOp
  | noOp
  | aluOp
  | sfuOp
  | tensorCoreOp
  | dpOp
  | spOp
  | intpOp
  | aluSfuOp
  | loadOp
  | tensorCoreLoadOp
  | tensorCoreStoreOp
  | storeOp
  | branchOp
  | barrierOp
  | memoryBarrierOp
  | callOps
  | retOps
  | exitOps
  | specializedUnitOp (n : Nat)
  deriving DecidableEq, Repr

/-- The units that are not stallable. -/
inductive UnitKind
  | sfu
  | dpUnit
  | tensorCore
  | intUnit
  | spUnit
  | specializedUnit (supportedOp : UarchOp)
  deriving DecidableEq, Repr

namespace UnitKind

/-- The operations that `can_issue` of the unit lets through. -/
def accepts : UnitKind → UarchOp → Bool
  | sfu, op => op == .sfuOp || op == .aluSfuOp || op == .dpOp
  | dpUnit, op => op == .dpOp
  | tensorCore, op => op == .tensorCoreOp
  | intUnit, op =>
      match op with
      | .sfuOp | .loadOp | .tensorCoreLoadOp | .storeOp | .tensorCoreStoreOp | .memoryBarrierOp | .spOp | .dpOp => false
      | _ => true
  | spUnit, op =>
      match op with
      | .sfuOp | .loadOp | .tensorCoreLoadOp | .storeOp | .tensorCoreStoreOp | .memoryBarrierOp | .dpOp => false
      | _ => true
  | specializedUnit supportedOp, op => op == supportedOp

end UnitKind

/-- What the units read of a `warp_inst_t`. Its `cycles`, which are the initiation interval from
`warp_inst_t::issue` on, are counted down in the dispatch register. -/
structure AluInst where
  uid : Nat
  op : UarchOp
  latency : Nat
  initiationInterval : Nat
  deriving DecidableEq, Repr

def maxAluLatency : Nat := 512

/-- `outOfRange` is what `std::bitset::test` throws; `noStage` is an access outside the pipeline. -/
inductive ExecuteFault
  | notEmpty
  | noFreeRegister
  | noActiveInst
  | noStage
  | outOfRange
  deriving DecidableEq, Repr

/-! ## Register sets -/

/-- `register_set`; an empty register holds `none`. -/
abbrev RegisterSet := List (Option AluInst)

namespace RegisterSet

/-- `move_in`. -/
def moveIn (inst : AluInst) (regs : RegisterSet) : Except ExecuteFault RegisterSet :=
  match regs.findIdx? Option.isNone with
  | none => .error .noFreeRegister
  | some i => .ok (regs.set i (some inst))

/-- `get_ready` from an index on. -/
def readyFrom : RegisterSet → Nat → Option (Nat × AluInst) → Option (Nat × AluInst)
  | [], _, ready => ready
  | none :: rest, i, ready => readyFrom rest (i + 1) ready
  | some inst :: rest, i, ready =>
      readyFrom rest (i + 1)
        (if ready.any fun oldest => decide (oldest.2.uid < inst.uid) then ready else some (i, inst))

/-- `get_ready`, with the place of the register. -/
def getReady (regs : RegisterSet) : Option (Nat × AluInst) := regs.readyFrom 0 none

/-- The loop of `writeback`, which clears the ready registers one by one. -/
def drain : Nat → RegisterSet → RegisterSet
  | 0, regs => regs
  | n + 1, regs =>
      match regs.getReady with
      | none => regs
      | some (i, _) => drain n (regs.set i none)

end RegisterSet

/-! ## A pipelined unit -/

/-- `pipelined_simd_unit`. -/
structure SimdUnit where
  kind : UnitKind
  pipelineDepth : Nat
  dispatchReg : Option (AluInst × Nat)
  pipelineReg : Nat → Option AluInst
  activeInstsInPipeline : Nat
  occupied : BitVec maxAluLatency

namespace SimdUnit

def create (kind : UnitKind) (maxLatency : Nat) : SimdUnit where
  kind := kind
  pipelineDepth := maxLatency
  dispatchReg := none
  pipelineReg _ := none
  activeInstsInPipeline := 0
  occupied := 0

/-- The instruction in the first stage moves to the result port. -/
def leave (unit : SimdUnit) (resultPort : RegisterSet) :
    Except ExecuteFault (SimdUnit × RegisterSet × Option AluInst) :=
  match unit.pipelineReg 0 with
  | none => .ok (unit, resultPort, none)
  | some inst => do
      let resultPort ← resultPort.moveIn inst
      if unit.activeInstsInPipeline > 0 then
        .ok ({ unit with
            pipelineReg := Function.update unit.pipelineReg 0 none
            activeInstsInPipeline := unit.activeInstsInPipeline - 1 }, resultPort, some inst)
      else .error .noActiveInst

/-- `move_warp` from each stage to the one before it. -/
def shift : Nat → (Nat → Option AluInst) → Except ExecuteFault (Nat → Option AluInst)
  | 0, regs => .ok regs
  | stage + 1, regs => do
      let regs ← shift stage regs
      if regs stage = none then
        .ok (Function.update (Function.update regs stage (regs (stage + 1))) (stage + 1) none)
      else .error .notEmpty

def advance (unit : SimdUnit) : Except ExecuteFault SimdUnit :=
  if unit.activeInstsInPipeline > 0 then do
    let pipelineReg ← shift (unit.pipelineDepth - 1) unit.pipelineReg
    return { unit with pipelineReg }
  else .ok unit

/-- An instruction whose dispatch delay is over enters the pipeline. -/
def dispatch (unit : SimdUnit) : Except ExecuteFault SimdUnit :=
  match unit.dispatchReg with
  | none => .ok unit
  | some (inst, cycles) =>
      if cycles - 1 > 0 then .ok { unit with dispatchReg := some (inst, cycles - 1) }
      else if inst.latency < inst.initiationInterval then .error .noStage
      else
        let startStage := inst.latency - inst.initiationInterval
        if ¬ startStage < unit.pipelineDepth then .error .noStage
        else if unit.pipelineReg startStage = none then
          .ok { unit with
            dispatchReg := none
            pipelineReg := Function.update unit.pipelineReg startStage (some inst)
            activeInstsInPipeline := unit.activeInstsInPipeline + 1 }
        else .error .notEmpty

def cycle (unit : SimdUnit) (resultPort : RegisterSet) :
    Except ExecuteFault (SimdUnit × RegisterSet × Option AluInst) := do
  let (unit, resultPort, finished) ← unit.leave resultPort
  let unit ← unit.advance
  let unit ← unit.dispatch
  return ({ unit with occupied := unit.occupied >>> 1 }, resultPort, finished)

def canIssue (unit : SimdUnit) (inst : AluInst) : Except ExecuteFault Bool :=
  if unit.kind.accepts inst.op && unit.dispatchReg.isNone then
    if inst.latency < maxAluLatency then .ok !unit.occupied.getLsbD inst.latency else .error .outOfRange
  else .ok false

def issue (unit : SimdUnit) (inst : AluInst) : Except ExecuteFault SimdUnit :=
  if unit.dispatchReg = none then
    .ok { unit with
      dispatchReg := some (inst, inst.initiationInterval)
      occupied := setBit unit.occupied inst.latency }
  else .error .notEmpty

end SimdUnit

/-! ## The stages -/

/-- What the units share: the registers before `execute`, by port, those after it, and the result buses. -/
structure ExecuteStage where
  ports : Nat → RegisterSet
  exWb : RegisterSet
  resultBus : List (BitVec maxAluLatency)

/-- A unit is named by its number, and an event has the cycle in which it happens. -/
inductive ExecuteEvent
  | issued (unit : Nat) (inst : AluInst) (cycle : Nat)
  | finished (unit : Nat) (inst : AluInst) (cycle : Nat)
  deriving DecidableEq, Repr

/-- `test_res_bus`. -/
def testResBus (latency : Nat) (resultBus : List (BitVec maxAluLatency)) : Option Nat :=
  resultBus.findIdx? fun bits => !bits.getLsbD latency

/-- A unit takes the ready instruction of its port when a result bus is free. -/
def tryIssue (port : Nat) (unit : SimdUnit) (stage : ExecuteStage) :
    Except ExecuteFault (SimdUnit × ExecuteStage × Option AluInst) :=
  match (stage.ports port).getReady with
  | none => .ok (unit, stage, none)
  | some (i, inst) =>
      match unit.canIssue inst with
      | .error fault => .error fault
      | .ok false => .ok (unit, stage, none)
      | .ok true =>
          match testResBus inst.latency stage.resultBus with
          | none => .ok (unit, stage, none)
          | some bus => do
              let unit ← unit.issue inst
              return (unit,
                { stage with
                  ports := Function.update stage.ports port ((stage.ports port).set i none)
                  resultBus := stage.resultBus.modify bus fun bits => setBit bits inst.latency }, some inst)

def executeUnit (now n port : Nat) (unit : SimdUnit) (stage : ExecuteStage) :
    Except ExecuteFault (SimdUnit × ExecuteStage × List ExecuteEvent) := do
  let (unit, exWb, finished) ← unit.cycle stage.exWb
  let (unit, stage, issued) ← tryIssue port unit { stage with exWb }
  return (unit, stage, (finished.map fun inst => .finished n inst now).toList ++
    (issued.map fun inst => .issued n inst now).toList)

/-- The loop of `execute` over the units, from a number on; each unit has its issue port. -/
def executeUnits (now : Nat) : Nat → List (Nat × SimdUnit) → ExecuteStage →
    Except ExecuteFault (List (Nat × SimdUnit) × ExecuteStage × List ExecuteEvent)
  | _, [], stage => .ok ([], stage, [])
  | n, (port, unit) :: rest, stage => do
      let (unit, stage, events) ← executeUnit now n port unit stage
      let (rest, stage, more) ← executeUnits now (n + 1) rest stage
      return ((port, unit) :: rest, stage, events ++ more)

/-- The units of a core, and the number of cycles so far. -/
structure ExecuteCore where
  units : List (Nat × SimdUnit)
  stage : ExecuteStage
  now : Nat

namespace ExecuteCore

/-- There are as many result buses as `EX_WB` has registers. -/
def create (units : List (Nat × UnitKind × Nat)) (pipeWidths : Nat → Nat) (exWbWidth : Nat) : ExecuteCore where
  units := units.map fun (port, kind, maxLatency) => (port, .create kind maxLatency)
  stage :=
    { ports := fun port => List.replicate (pipeWidths port) none
      exWb := List.replicate exWbWidth none
      resultBus := List.replicate exWbWidth 0 }
  now := 0

def writeback (core : ExecuteCore) : ExecuteCore :=
  let exWb := core.stage.exWb.drain core.stage.exWb.length
  { core with stage := { core.stage with exWb } }

def execute (core : ExecuteCore) : Except ExecuteFault (ExecuteCore × List ExecuteEvent) := do
  let resultBus := core.stage.resultBus.map fun bits : BitVec maxAluLatency => (bits >>> 1 : BitVec maxAluLatency)
  let (units, stage, events) ← executeUnits (core.now + 1) 0 core.units { core.stage with resultBus }
  return ({ units, stage, now := core.now + 1 }, events)

/-- `writeback` and `execute` of a cycle. -/
def cycle (core : ExecuteCore) : Except ExecuteFault (ExecuteCore × List ExecuteEvent) := core.writeback.execute

/-- The units that take the instruction have stages for it. -/
def Fits (core : ExecuteCore) (port : Nat) (inst : AluInst) : Prop :=
  ∀ unit, (port, unit) ∈ core.units → unit.kind.accepts inst.op = true →
    1 ≤ inst.initiationInterval ∧ inst.initiationInterval ≤ inst.latency ∧ inst.latency ≤ unit.pipelineDepth

end ExecuteCore

/-- An instruction comes to a port from the operand collector, or the core goes through a cycle. -/
inductive ExecuteStep (core : ExecuteCore) : List ExecuteEvent → ExecuteCore → Prop
  | readOperands {port : Nat} {inst : AluInst} {regs : RegisterSet} : core.Fits port inst →
      (core.stage.ports port).moveIn inst = .ok regs →
      ExecuteStep core []
        { core with stage := { core.stage with ports := Function.update core.stage.ports port regs } }
  | cycle {next : ExecuteCore} {events : List ExecuteEvent} : core.cycle = .ok (next, events) →
      ExecuteStep core events next

end GpgpuSim.Shader
