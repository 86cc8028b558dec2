import GpgpuSim.Cache.HeldRequests
import GpgpuSim.Shader.WarpState

/-! The front end of a shader core: `fetch` reads the instructions of a warp through the L1 instruction cache,
`decode` places them in its buffer, and the warp schedulers issue them to the pipelines. -/
namespace GpgpuSim.Shader
open Cache Functional Memory Simt Transition

/-- The register sets that issue fills. -/
inductive IssuePort
  | sp
  | dp
  | sfu
  | int
  | tensorCore
  | mem
  | specialized (k : Nat)
  deriving DecidableEq, Repr

/-- `exec_unit_type_t`. -/
inductive ExecUnitType
  | none
  | sp
  | sfu
  | mem
  | dp
  | int
  | tensor
  | specialized
  deriving DecidableEq, Repr

/-- The numbers of units are those of their configuration; a specialized unit may have none. -/
structure FrontEndConfig where
  maxWarpsPerShader : Nat
  l1i : CacheConfig
  perfectInstConstCache : Bool
  maxInsnIssuePerWarp : Nat
  dualIssueDiffExecUnits : Bool
  subCoreModel : Bool
  numUnits : IssuePort → Nat
  numSpecialized : Nat
  cdpLatency : Nat → Nat
  subPartitionOf : Nat → Nat
  chipOf : Nat → Nat

/-- `ifetch_buffer_t` while it is valid. -/
structure IfetchBuffer where
  pc : AddressType
  warpId : Nat
  deriving DecidableEq, Repr

/-- `shader_core_ctx`, with the request objects and the warp that each was made for. A register of a set is in use or
not. -/
structure FrontEnd (w : Nat) (μ : Type) where
  machine : Machine w μ
  warp : Nat → ShdWarp w
  instFetchBuffer : Option IfetchBuffer
  lastWarpFetched : Nat
  l1i : DataCache
  pool : MfPool
  wid : MfId → Nat
  scoreboard : Scoreboard
  barriers : BarrierSet
  registers : IssuePort → List Bool
  threadActive : Nat → SimtMask w
  notCompleted : Nat
  activeWarps : Int

/-- What an observer sees the front end do, and the pipelines and the memory system for its warps. An issue is shown
with the entry whose threads execute the instruction, the lanes that its predicate has let execute it, and the
threads after it. -/
inductive FrontEndEvent (w : Nat) (μ : Type)
  | issued (warpId : Nat) (inst : DecodedInst) (top : SimtStackEntry w) (active : SimtMask w) (threads : μ)
  | exited (warpId : Nat) (lanes : SimtMask w)
  | launched (warpId : Nat)
  | completed (warpId : Nat)
  | stored (warpId : Nat)
  | acknowledged (warpId : Nat)
  | atomicDone (warpId : Nat) (lanes : SimtMask w)
  | memory
  | elsewhere

/-- `PROGRAM_MEM_START`. -/
def programMemStart : AddressType := 0xF0000000

variable {w : Nat} {μ : Type}

def liftCache {α : Type} (result : Except CacheFault α) : Except ExecFault α := result.mapError .cache

namespace FrontEnd

def setWarp (core : FrontEnd w μ) (i : Nat) (warp : ShdWarp w) : FrontEnd w μ :=
  { core with warp := Function.update core.warp i warp }

/-! ## Fetch and decode -/

/-- The address at which the instructions of a PC are fetched, in 32 bits. -/
def fetchAddr (pc : AddressType) : Nat := (pc + programMemStart).toNat

/-- The branch of `fetch` for a miss that has come back; the difference is taken in 64 bits. -/
def acceptMiss (core : FrontEnd w μ) : Except ExecFault (FrontEnd w μ) := do
  let (mf, l1i) ← liftCache core.l1i.nextAccess
  let i := core.wid mf
  let warp := { core.warp i with imissPending := false }
  if warp.nextPc.toNat = ((core.pool.get mf).addr + 2 ^ 64 - programMemStart.toNat) % 2 ^ 64 then
    return { core.setWarp i warp with l1i, instFetchBuffer := some ⟨warp.nextPc, i⟩ }
  else throw .assertion

/-- A warp that has finished gives its threads back. -/
def reclaim (core : FrontEnd w μ) (i : Nat) : Except ExecFault (FrontEnd w μ × List (FrontEndEvent w μ)) :=
  let warp := core.warp i
  if warp.hardwareDone && !core.scoreboard.pendingWrites i && !warp.doneExit then
    let lanes := core.threadActive i
    let didExit := decide lanes.Nonempty
    if core.activeWarps - 1 ≥ 0 then
      .ok ({ core.setWarp i { warp with doneExit := didExit } with
        threadActive := Function.update core.threadActive i ∅
        notCompleted := core.notCompleted - lanes.card
        activeWarps := core.activeWarps - 1 }, if didExit then [.exited i lanes] else [])
    else .error .assertion
  else .ok (core, [])

/-- The bytes that are asked for; they do not go beyond the line. -/
def fetchSize (cfg : FrontEndConfig) (pc : AddressType) : Nat :=
  let offsetInBlock := pc.toNat &&& (cfg.l1i.lineSize - 1)
  if offsetInBlock + 16 > cfg.l1i.lineSize then cfg.l1i.lineSize - offsetInBlock else 16

def instRequest (cfg : FrontEndConfig) (pc : AddressType) : MemFetch where
  accessType := .instAccR
  addr := fetchAddr pc
  dataSize := fetchSize cfg pc
  subPartitionId := cfg.subPartitionOf (fetchAddr pc)
  chip := cfg.chipOf (fetchAddr pc)

/-- The warp has instructions to fetch. -/
def needsFetch (core : FrontEnd w μ) (i : Nat) : Bool :=
  !(core.warp i).functionalDone && !(core.warp i).imissPending && (core.warp i).ibufferEmpty

/-- The access to the instruction cache; a perfect cache is not asked. -/
def accessL1I (cfg : FrontEndConfig) (l1i : DataCache) (pool : MfPool) (mf : MfId) (time : Nat) :
    Except CacheFault AccessResult :=
  if cfg.perfectInstConstCache then .ok ⟨.hit, [], l1i, pool⟩
  else l1i.readOnlyAccess cfg.l1i pool (pool.get mf).addr mf time

/-- What `fetch` does with the answer of the cache to request `mf`. -/
def fetchOutcome (core : FrontEnd w μ) (i : Nat) (mf : MfId) (result : AccessResult) :
    Except ExecFault (FrontEnd w μ) :=
  let core := { core with
    lastWarpFetched := i, l1i := result.cache, pool := result.pool, wid := Function.update core.wid mf i }
  match result.status with
  | .miss => .ok (core.setWarp i { core.warp i with imissPending := true })
  | .hit => .ok { core with instFetchBuffer := some ⟨(core.warp i).nextPc, i⟩ }
  | .reservationFail => .ok core
  | .hitReserved | .sectorMiss => .error .assertion

def fetchWarp (cfg : FrontEndConfig) (time : Nat) (core : FrontEnd w μ) (i : Nat) :
    Except ExecFault (FrontEnd w μ) := do
  let (mf, pool) := core.pool.alloc (instRequest cfg (core.warp i).nextPc)
  let result ← liftCache (accessL1I cfg core.l1i pool mf time)
  core.fetchOutcome i mf result

/-- The loop of `fetch` over the warps, which a fetch ends. -/
def fetchLoop (cfg : FrontEndConfig) (time : Nat) : List Nat → FrontEnd w μ →
    Except ExecFault (FrontEnd w μ × List (FrontEndEvent w μ))
  | [], core => .ok (core, [])
  | i :: rest, core => do
      let (core, exits) ← core.reclaim i
      if core.needsFetch i then return (← fetchWarp cfg time core i, exits)
      else
        let (core, events) ← fetchLoop cfg time rest core
        return (core, exits ++ events)

/-- The warps from the one after the last that was fetched for. -/
def fetchOrder (cfg : FrontEndConfig) (core : FrontEnd w μ) : List Nat :=
  (List.range cfg.maxWarpsPerShader).map fun i => (core.lastWarpFetched + 1 + i) % cfg.maxWarpsPerShader

def fetchNext (cfg : FrontEndConfig) (time : Nat) (core : FrontEnd w μ) :
    Except ExecFault (FrontEnd w μ × List (FrontEndEvent w μ)) :=
  if core.instFetchBuffer.isSome then .ok (core, [])
  else if core.l1i.accessReady then core.acceptMiss.map fun core => (core, [])
  else fetchLoop cfg time (fetchOrder cfg core) core

def fetch (cfg : FrontEndConfig) (time : Nat) (memportFull : Bool) (core : FrontEnd w μ) :
    Except ExecFault (FrontEnd w μ × List (FrontEndEvent w μ)) := do
  let (core, events) ← fetchNext cfg time core
  return ({ core with l1i := core.l1i.cycle memportFull }, events)

/-- The first instruction may be a null pointer, which takes a slot all the same. -/
def decode (program : InstructionMemory) (core : FrontEnd w μ) : FrontEnd w μ :=
  match core.instFetchBuffer with
  | none => core
  | some buffer =>
      let first := program.fetch buffer.pc
      let warp := ((core.warp buffer.warpId).ibufferFill 0 first).incInstInPipeline
      let warp :=
        match first with
        | none => warp
        | some inst =>
            match program.fetch (buffer.pc + inst.isize) with
            | none => warp
            | some second => (warp.ibufferFill 1 (some second)).incInstInPipeline
      { core.setWarp buffer.warpId warp with instFetchBuffer := none }

/-! ## Issue -/

/-- `shd_warp_t::waiting`; a fence that has been passed is taken off. The L1 data cache, which may be invalidated
then, is not here. -/
def waiting (core : FrontEnd w μ) (i : Nat) : Bool × FrontEnd w μ :=
  let warp := core.warp i
  if warp.functionalDone then (true, core)
  else if core.barriers.warpWaitingAtBarrier i then (true, core)
  else if warp.membar && core.scoreboard.pendingWrites i then (true, core)
  else (decide (warp.nAtomic > 0), core.setWarp i { warp with membar := false })

/-- The register that `get_free` returns to scheduler `id`. -/
def freeRegister (cfg : FrontEndConfig) (id : Nat) (registers : List Bool) : Option Nat :=
  if cfg.subCoreModel then if registers[id]? = some false then some id else none
  else registers.findIdx? fun used => !used

def hasFree (cfg : FrontEndConfig) (id : Nat) (registers : List Bool) : Except ExecFault Bool :=
  if cfg.subCoreModel && decide (registers.length ≤ id) then .error .register
  else .ok (freeRegister cfg id registers).isSome

/-- A pipeline is available when it has units and its register set a free register. -/
def pipeAvail (cfg : FrontEndConfig) (id : Nat) (core : FrontEnd w μ) (port : IssuePort) : Except ExecFault Bool :=
  if cfg.numUnits port > 0 then hasFree cfg id (core.registers port) else .ok false

/-- Two instructions of one cycle may have to go to different units. -/
def sameUnit (cfg : FrontEndConfig) (previous unit : ExecUnitType) : Bool :=
  cfg.dualIssueDiffExecUnits && previous == unit

def isMemOp (op : UarchOp) : Bool :=
  op == .loadOp || op == .storeOp || op == .memoryBarrierOp || op == .tensorCoreLoadOp || op == .tensorCoreStoreOp

/-- The pipeline that an instruction is issued to, if any. -/
def choosePort (cfg : FrontEndConfig) (id : Nat) (core : FrontEnd w μ) (op : UarchOp) (previous : ExecUnitType) :
    Except ExecFault (Option (IssuePort × ExecUnitType)) := do
  if isMemOp op then
    let free ← hasFree cfg id (core.registers .mem)
    return if free && !sameUnit cfg previous .mem then some (.mem, .mem) else none
  else
    let spAvail ← core.pipeAvail cfg id .sp
    let sfuAvail ← core.pipeAvail cfg id .sfu
    let tensorCoreAvail ← core.pipeAvail cfg id .tensorCore
    let dpAvail ← core.pipeAvail cfg id .dp
    let intAvail ← core.pipeAvail cfg id .int
    match op with
    | .tensorCoreOp =>
        return if !sameUnit cfg previous .tensor && tensorCoreAvail then some (.tensorCore, .tensor) else none
    | .sfuOp => return if !sameUnit cfg previous .sfu && sfuAvail then some (.sfu, .sfu) else none
    | .dpOp =>
        if cfg.numUnits .dp > 0 then return if !sameUnit cfg previous .dp && dpAvail then some (.dp, .dp) else none
        else return if !sameUnit cfg previous .sfu && sfuAvail then some (.sfu, .sfu) else none
    | .specializedUnitOp k =>
        if sameUnit cfg previous .specialized then return none
        else if k < cfg.numSpecialized then
          return if ← core.pipeAvail cfg id (.specialized k) then some (.specialized k, .specialized) else none
        else throw .register
    | _ =>
        if intAvail && op != .spOp && !sameUnit cfg previous .int then return some (.int, .int)
        else if spAvail && (cfg.numUnits .int == 0 || op == .spOp) && !sameUnit cfg previous .sp then
          return some (.sp, .sp)
        else return none

/-- The register that `get_free` finds is taken. -/
def fillRegister (cfg : FrontEndConfig) (id : Nat) (port : IssuePort) (core : FrontEnd w μ) :
    Except ExecFault (IssuePort → List Bool) :=
  match freeRegister cfg id (core.registers port) with
  | none => .error .assertion
  | some k => .ok (Function.update core.registers port ((core.registers port).set k true))

/-- The results of barrier reductions are not here. -/
def reachBarrier (core : FrontEnd w μ) (inst : DecodedInst) (barrier : BarrierInst) (ctaId i : Nat) :
    Except ExecFault BarrierSet :=
  if inst.op == .barrierOp then ((core.barriers.warpReachesBarrier ctaId i barrier).map Prod.fst).mapError .barrier
  else .ok core.barriers

/-- `issue_warp` for the threads of the top entry of the stack. -/
def issueWarp (cfg : FrontEndConfig) (model : ThreadModel w μ) (id : Nat) (port : IssuePort) (inst : DecodedInst)
    (top : SimtStackEntry w) (core : FrontEnd w μ) (i : Nat) : Except ExecFault (FrontEnd w μ × FrontEndEvent w μ) := do
  let registers ← core.fillRegister cfg id port
  let ended ← model.executeWarpInst (ShdWarp.checkExecutionStatusAndUpdate model inst i) inst i top.activeMask
    core.machine.threads (core.warp i).ibufferFree
  let barriers ← core.reachBarrier inst (model.barrier ended.threads i inst) ended.core.ctaId i
  let stack ← model.updateSimtStack ended.threads i inst (core.machine.simtStack i)
  let scoreboard ← (core.scoreboard.reserveRegisters { inst.toIssuedInst with warpId := i }).mapError .scoreboard
  let warp := { ended.core with
    membar := ended.core.membar || inst.op == .memoryBarrierOp, nextPc := inst.pc + inst.isize }
  return ({ core.setWarp i warp with
    machine := ⟨ended.threads, Function.update core.machine.simtStack i stack⟩, registers, barriers, scoreboard },
    .issued i inst top ended.active ended.threads)

/-- What considering the next instruction of a warp comes to: a launch from the device that waits ends the turn of
the warp, and an instruction that is issued occupies a unit. -/
inductive Considered (w : Nat) (μ : Type)
  | delayed (core : FrontEnd w μ)
  | checked (core : FrontEnd w μ)
  | issued (core : FrontEnd w μ) (unit : ExecUnitType) (event : FrontEndEvent w μ)

/-- The latency of a launch from the device, in 32 bits. -/
def cdpDelay (cfg : FrontEndConfig) (isCdp lanes : Nat) : Nat :=
  if isCdp = 1 then cfg.cdpLatency 0
  else (cfg.cdpLatency (isCdp - 1) + cfg.cdpLatency isCdp * lanes) % 2 ^ 32

/-- A launch from the device is held back once, as long as its latency. -/
def holdCdp (cfg : FrontEndConfig) (warp : ShdWarp w) (isCdp lanes : Nat) : Except ExecFault (Bool × ShdWarp w) :=
  if isCdp = 0 then .ok (false, warp)
  else if warp.cdpLatency ≠ 0 then .error .assertion
  else if warp.cdpDummy then .ok (false, { warp with cdpDummy := false })
  else .ok (true, { warp with cdpLatency := cdpDelay cfg isCdp lanes, cdpDummy := true })

/-- The instruction at the PC of the warp, without hazards. -/
def issueReady (cfg : FrontEndConfig) (model : ThreadModel w μ) (id : Nat) (inst : DecodedInst)
    (top : SimtStackEntry w) (previous : ExecUnitType) (core : FrontEnd w μ) (i : Nat) :
      Except ExecFault (Considered w μ) := do
  match ← core.choosePort cfg id inst.op previous with
  | none => return .checked core
  | some (port, unit) =>
      let isCdp := if unit = .sp ∨ unit = .int then inst.isCdp else 0
      let (held, warp) ← holdCdp cfg (core.warp i) isCdp top.activeMask.card
      if held then return .delayed (core.setWarp i warp)
      else
        let (core, event) ← issueWarp cfg model id port inst top (core.setWarp i warp) i
        return .issued { core with warp := Function.update core.warp i (core.warp i).ibufferStep } unit event

/-- `set_next_pc` and `ibuffer_flush`, when the buffered instruction is not the one at the PC of the warp. -/
def redirect (pc : AddressType) (core : FrontEnd w μ) (i : Nat) : Except ExecFault (Considered w μ) := do
  let warp ← { core.warp i with nextPc := pc }.ibufferFlush
  return .checked (core.setWarp i warp)

/-- The body of the loop of `scheduler_unit::cycle` for a warp that does not wait. -/
def consider (cfg : FrontEndConfig) (model : ThreadModel w μ) (id : Nat) (previous : ExecUnitType) (core : FrontEnd w μ)
    (i : Nat) : Except ExecFault (Considered w μ) := do
  let warp := core.warp i
  let isCdp := match warp.ibufferNextInst with
    | some inst => inst.isCdp
    | none => 0
  if isCdp ≠ 0 ∧ warp.cdpLatency > 0 then
    if warp.cdpDummy then return .delayed (core.setWarp i { warp with cdpLatency := warp.cdpLatency - 1 })
    else throw .assertion
  else
    match core.machine.simtStack i with
    | [] => throw .emptyStack
    | top :: _ =>
        match warp.ibufferNextInst with
        | some inst =>
            if !warp.ibufferNextValid then throw .assertion
            else if top.pc ≠ inst.pc then redirect top.pc core i
            else if core.scoreboard.checkCollision i inst.toIssuedInst then return .checked core
            else if warp.instInPipeline = 0 then throw .assertion
            else issueReady cfg model id inst top previous core i
        | none => if warp.ibufferNextValid then redirect top.pc core i else return .checked core

/-- The loop over the instructions of one warp, `fuel` of which are left. -/
def warpLoop (cfg : FrontEndConfig) (model : ThreadModel w μ) (id i : Nat) : Nat → Nat → Nat → ExecUnitType →
    FrontEnd w μ → Except ExecFault (FrontEnd w μ × List (FrontEndEvent w μ))
  | 0, _, _, _, core => .ok ((core.waiting i).2, [])
  | fuel + 1, checked, issued, previous, core =>
      let (waits, core) := core.waiting i
      if !waits && !(core.warp i).ibufferEmpty && decide (checked ≤ issued ∧ issued < cfg.maxInsnIssuePerWarp) then do
        match ← core.consider cfg model id previous i with
        | .delayed core => return (core, [])
        | .checked core => warpLoop cfg model id i fuel (checked + 1) issued previous core
        | .issued core unit event =>
            let (core, events) ← warpLoop cfg model id i fuel (checked + 1) (issued + 1) unit core
            return (core, event :: events)
      else .ok (core, [])

/-- `scheduler_unit::cycle` over the warps in the order of `order_warps`, as far as the first that issues. -/
def schedulerCycle (cfg : FrontEndConfig) (model : ThreadModel w μ) (id : Nat) : List (Option Nat) → FrontEnd w μ →
    Except ExecFault (FrontEnd w μ × List (FrontEndEvent w μ))
  | [], core => .ok (core, [])
  | none :: rest, core => schedulerCycle cfg model id rest core
  | some i :: rest, core =>
      if (core.warp i).doneExit then schedulerCycle cfg model id rest core
      else do
        let (core, events) ← warpLoop cfg model id i cfg.maxInsnIssuePerWarp 0 0 .none core
        if events ≠ [] then return (core, events) else schedulerCycle cfg model id rest core

/-! ## Launch -/

/-- What `reinit` and `init_warps` do for one warp of a CTA whose threads have been initialized. -/
def launchWarp (core : FrontEnd w μ) (threads : μ) (i ctaId : Nat) (startPc : AddressType) (mask : SimtMask w) :
    Except ExecFault (FrontEnd w μ) := do
  let warp ← (core.warp i).reset
  if (core.threadActive i ∩ mask).Nonempty then throw .assertion
  let warp ← warp.init startPc ctaId mask
  return { core.setWarp i warp with
    machine := ⟨threads, Function.update core.machine.simtStack i (SimtStack.launch startPc mask)⟩
    threadActive := Function.update core.threadActive i mask
    notCompleted := core.notCompleted + mask.card
    activeWarps := core.activeWarps + 1 }

end FrontEnd

end GpgpuSim.Shader
