import GpgpuSim.Address.Hashing
import GpgpuSim.Dram.Scheduler
import GpgpuSim.Transition.Stages

/-! The cycle of the memory controller: data leaves the pipe of the data bus, a
request is scheduled to an idle bank, and commands are issued to the banks that are
ready for them. An observer sees the commands, with the cycle they are issued in,
and what enters and leaves the controller. -/
namespace GpgpuSim.Dram
open GpgpuSim.Memory Transition

inductive BankState
  | bankIdle
  | bankActive
  deriving DecidableEq, Repr, Inhabited

/-- `bank_t`. -/
structure Bank where
  rcdc : Nat := 0
  rcdwrc : Nat := 0
  rasc : Nat := 0
  rpc : Nat := 0
  rcc : Nat := 0
  wtpc : Nat := 0
  rtpc : Nat := 0
  state : BankState := .bankIdle
  currRow : Nat := 0
  mrq : Option Nat := none
  deriving DecidableEq, Repr, Inhabited

/-- `bankgrp_t`. -/
structure BankGrp where
  ccdlc : Nat := 0
  rtplc : Nat := 0
  deriving DecidableEq, Repr, Inhabited

inductive CommandKind
  | activate
  | precharge
  | column (rw : ReadWrite)
  deriving DecidableEq, Repr

/-- A command on the bus, with the request it serves. The row of a column command is
the row of the request, that of a precharge the row it closes. -/
structure Command where
  time : Nat
  kind : CommandKind
  bank : Nat
  row : Nat
  req : Nat
  deriving DecidableEq, Repr

inductive DramEvent
  | pushed (req : Nat) (data : MfId)
  | command (command : Command)
  /-- The request is freed, its data goes to the return queue or to `set_done`. -/
  | returned (req : Nat) (data : MfId)
  | setDone (req : Nat) (data : MfId)
  deriving DecidableEq, Repr

/-- `dram_t`. The objects of `dram_req_t` live in `reqs`; those from `nextReq` on are
not in use. -/
structure DramT where
  id : Nat
  reqs : Nat → DramReq
  nextReq : Nat := 0
  bk : Nat → Bank := fun _ => {}
  bkgrp : Nat → BankGrp := fun _ => {}
  prio : Nat := 0
  rrdc : Nat := 0
  ccdc : Nat := 0
  rtwc : Nat := 0
  wtrc : Nat := 0
  rw : ReadWrite := .read
  rwq : FifoPipeline Nat
  mrqq : FifoPipeline Nat
  returnq : FifoPipeline MfId
  frfcfsScheduler : FrfcfsScheduler := {}
  nCmd : Nat := 0

/-- Assertions of `fifo_pipeline` as faults of the controller. -/
def fifoOp {α : Type} (result : Except FifoFault α) : Except DramFault α := result.mapError fun _ => .fifo

namespace MemoryConfig

def getBankgrpNumber (cfg : MemoryConfig) (i : Nat) : Nat :=
  match cfg.dramBnkgrpIndexingPolicy with
  | .higherBits => i >>> cfg.bkTagLength
  | .lowerBits => i &&& (cfg.nbkgrp - 1)

/-- The bank of a request whose decoded address has the given row and bank. -/
def bankIndex (cfg : MemoryConfig) (row bk : Nat) : Except DramFault Nat :=
  match cfg.dramBnkIndexingPolicy with
  | .linearBkIndex => .ok bk
  | .bitwiseXoringBkIndex =>
      let index := Address.bitwiseHashFunction row bk cfg.nbk
      if index < cfg.nbk then .ok index else .error .bankIndex
  | .ipolyBkIndex =>
      match Address.ipolyHashFunction row bk cfg.nbk with
      | .error _ => .error .bankIndex
      | .ok index => if index < cfg.nbk then .ok index else .error .bankIndex
  | .customBkIndex => .error .bankIndex

end MemoryConfig

namespace DramT

def create (cfg : MemoryConfig) (id : Nat) : Except DramFault DramT := do
  let rwq ← fifoOp (FifoPipeline.create cfg.cl (cfg.cl + 1))
  let mrqq ← fifoOp (FifoPipeline.create 0 2)
  let returnq ← fifoOp (FifoPipeline.create 0
    (if cfg.gpgpuDramReturnQueueSize = 0 then 1024 else cfg.gpgpuDramReturnQueueSize))
  return { id, reqs := fun _ => default, rwq, mrqq, returnq }

def full (cfg : MemoryConfig) (isWrite : Bool) (s : DramT) : Bool :=
  match cfg.schedulerType with
  | .dramFrfcfs =>
      if cfg.gpgpuFrfcfsDramSchedQueueSize = 0 then false
      else if cfg.seperateWriteQueueEnabled ∧ isWrite then
        decide (cfg.gpgpuFrfcfsDramWriteQueueSize ≤ s.frfcfsScheduler.numWritePending)
      else decide (cfg.gpgpuFrfcfsDramSchedQueueSize ≤ s.frfcfsScheduler.numPending)
  | .dramFifo => s.mrqq.full

/-- `push`, of a request whose decoded address has the given row and bank. -/
def push (cfg : MemoryConfig) (data : MfId) (mf : MemFetch) (row bk : Nat) :
    Stage DramT DramEvent DramFault := fun s =>
  if s.id = mf.chip then do
    let bk ← cfg.bankIndex row bk
    let req : DramReq :=
      { row, bk, nbytes := mf.dataSize, rw := if mf.isWrite then .write else .read, data, accessType :=
        mf.accessType }
    let mrqq ← fifoOp (s.mrqq.push (some s.nextReq))
    return ({ s with mrqq, reqs := Function.update s.reqs s.nextReq req, nextReq := s.nextReq + 1 },
      [.pushed s.nextReq data])
  else .error .wrongPartition

def returnQueuePop : Stage DramT DramEvent DramFault := fun s => do
  let (_, returnq) ← fifoOp s.returnq.pop
  return ({ s with returnq }, [])

def modifyReq (req : Nat) (change : DramReq → DramReq) (s : DramT) : DramT :=
  { s with reqs := Function.update s.reqs req (change (s.reqs req)) }

def modifyBank (j : Nat) (change : Bank → Bank) (s : DramT) : DramT :=
  { s with bk := Function.update s.bk j (change (s.bk j)) }

def modifyGrp (grp : Nat) (change : BankGrp → BankGrp) (s : DramT) : DramT :=
  { s with bkgrp := Function.update s.bkgrp grp (change (s.bkgrp grp)) }

/-- The head of `cycle`: one transfer of the data bus arrives. -/
def returnData (cfg : MemoryConfig) : Stage DramT DramEvent DramFault := fun s =>
  if s.returnq.full then .ok (s, [])
  else do
    let (cmd, rwq) ← fifoOp s.rwq.pop
    match cmd with
    | none => return ({ s with rwq }, [])
    | some cmd =>
        let s := { s with rwq }.modifyReq cmd fun req =>
          { req with dqbytes := req.dqbytes + cfg.dramAtomSize }
        let req := s.reqs cmd
        if req.nbytes ≤ req.dqbytes then
          if req.accessType.isWriteBack then return (s, [.setDone cmd req.data])
          else
            let returnq ← fifoOp (s.returnq.push (some req.data))
            return ({ s with returnq }, [.returned cmd req.data])
        else return (s, [])

def schedulerFifo (cfg : MemoryConfig) : Stage DramT DramEvent DramFault := fun s =>
  if s.mrqq.empty then .ok (s, [])
  else
    match s.mrqq.top with
    | none => .error .nullRequest
    | some head =>
        let bkn := (s.reqs head).bk
        if bkn < cfg.nbk then
          if (s.bk bkn).mrq = none then do
            let (mrq, mrqq) ← fifoOp s.mrqq.pop
            return ({ s with mrqq }.modifyBank bkn fun bank => { bank with mrq }, [])
          else .ok (s, [])
        else .error .outOfRange

/-- The `while` loop that empties `mrqq` into the scheduler. -/
def drainMrqq (cfg : MemoryConfig) : Nat → Stage DramT DramEvent DramFault
  | 0 => Stage.idle
  | fuel + 1 => fun s =>
      if s.mrqq.empty then .ok (s, [])
      else do
        let (req, mrqq) ← fifoOp s.mrqq.pop
        match req with
        | none => .error .nullRequest
        | some req =>
            let sched ← s.frfcfsScheduler.addReq cfg s.reqs req
            drainMrqq cfg fuel { s with mrqq, frfcfsScheduler := sched }

/-- Schedules a request to the first idle bank that has one. -/
def scheduleBank (cfg : MemoryConfig) : List Nat → Stage DramT DramEvent DramFault
  | [] => Stage.idle
  | i :: later => fun s => do
      let b := (i + s.prio) % cfg.nbk
      if (s.bk b).mrq = none then
        let (req, sched) ← s.frfcfsScheduler.schedule cfg s.reqs b (s.bk b).currRow
        let s := { s with frfcfsScheduler := sched }
        match req with
        | none => scheduleBank cfg later s
        | some req =>
            return ({ s with prio := (s.prio + 1) % cfg.nbk }.modifyBank b
              fun bank => { bank with mrq := some req }, [])
      else scheduleBank cfg later s

def schedulerFrfcfs (cfg : MemoryConfig) : Stage DramT DramEvent DramFault := fun s =>
  (drainMrqq cfg s.mrqq.length).andThen (scheduleBank cfg (List.range cfg.nbk)) s

def scheduler (cfg : MemoryConfig) : Stage DramT DramEvent DramFault :=
  match cfg.schedulerType with
  | .dramFifo => schedulerFifo cfg
  | .dramFrfcfs => schedulerFrfcfs cfg

/-- Whether the request of a bank can be read or written in this cycle. -/
def columnReady (cfg : MemoryConfig) (j : Nat) (req : DramReq) (s : DramT) : Bool :=
  s.ccdc = 0 && (s.bkgrp (cfg.getBankgrpNumber j)).ccdlc = 0 && (s.bk j).currRow = req.row &&
    (s.bk j).state = .bankActive && !s.rwq.full &&
    match req.rw with
    | .read => (s.bk j).rcdc = 0 && s.wtrc = 0
    | .write => (s.bk j).rcdwrc = 0 && s.rtwc = 0

/-- The pipe of the data bus, turned around when the direction changes. -/
def turnBus (cfg : MemoryConfig) (rw : ReadWrite) (s : DramT) : Except DramFault DramT :=
  if s.rw = rw then .ok s
  else do
    let rwq ← fifoOp (s.rwq.setMinLength (match rw with | .read => cfg.cl | .write => cfg.wl))
    return { s with rw, rwq }

/-- The counters that a column command starts. -/
def startColumn (cfg : MemoryConfig) (j : Nat) (rw : ReadWrite) (s : DramT) : DramT :=
  let grp := cfg.getBankgrpNumber j
  let s := { s with ccdc := cfg.tCCD }.modifyGrp grp fun group => { group with ccdlc := cfg.tCCDL }
  match rw with
  | .read =>
      ({ s with rtwc := cfg.tRTW }.modifyBank j fun bank =>
        { bank with rtpc := cfg.bl / cfg.dataCommandFreqRatio }).modifyGrp grp fun group =>
          { group with rtplc := cfg.tRTPL }
  | .write => { s with wtrc := cfg.tWTR }.modifyBank j fun bank => { bank with wtpc := cfg.tWTP }

/-- One transfer of a request enters the pipe of the data bus. -/
def transfer (cfg : MemoryConfig) (j mrq : Nat) (s : DramT) : Except DramFault DramT := do
  let rw := (s.reqs mrq).rw
  let s ← s.turnBus cfg rw
  let rwq ← fifoOp (s.rwq.push (some mrq))
  return ({ s with rwq }.modifyReq mrq fun req =>
    { req with txbytes := req.txbytes + cfg.dramAtomSize }).startColumn cfg j rw

/-- The bank gives up its request after the last transfer. -/
def releaseMrq (j mrq : Nat) (s : DramT) : DramT :=
  if (s.reqs mrq).txbytes < (s.reqs mrq).nbytes then s
  else s.modifyBank j fun bank => { bank with mrq := none }

def issueColCommand (cfg : MemoryConfig) (j : Nat) : Stage DramT DramEvent DramFault := fun s =>
  match (s.bk j).mrq with
  | none => .ok (s, [])
  | some mrq =>
      let req := s.reqs mrq
      if s.columnReady cfg j req then do
        let t ← s.transfer cfg j mrq
        return (t.releaseMrq j mrq, [.command ⟨s.nCmd, .column req.rw, j, req.row, mrq⟩])
      else .ok (s, [])

def issueRowCommand (cfg : MemoryConfig) (j : Nat) : Stage DramT DramEvent DramFault := fun s =>
  let bank := s.bk j
  match bank.mrq with
  | none => .ok (s, [])
  | some mrq =>
      let req := s.reqs mrq
      if s.rrdc = 0 ∧ bank.state = .bankIdle ∧ bank.rpc = 0 ∧ bank.rcc = 0 then
        .ok ({ s with rrdc := cfg.tRRD, prio := (j + 1) % cfg.nbk }.modifyBank j fun bank =>
            { bank with
              currRow := req.row
              state := .bankActive
              rcdc := cfg.tRCD
              rcdwrc := cfg.tRCDWR
              rasc := cfg.tRAS
              rcc := cfg.tRC },
          [.command ⟨s.nCmd, .activate, j, req.row, mrq⟩])
      else if bank.currRow ≠ req.row ∧ bank.state = .bankActive ∧ bank.rasc = 0 ∧ bank.wtpc = 0 ∧
        bank.rtpc = 0 ∧
          (s.bkgrp (cfg.getBankgrpNumber j)).rtplc = 0 then
        .ok ({ s with prio := (j + 1) % cfg.nbk }.modifyBank j fun bank =>
            { bank with state := .bankIdle, rpc := cfg.tRP },
          [.command ⟨s.nCmd, .precharge, j, bank.currRow, mrq⟩])
      else .ok (s, [])

/-- Tries the banks from `prio` on until a command is issued. -/
def issueFirst (cfg : MemoryConfig) (issue : Nat → Stage DramT DramEvent DramFault) :
    List Nat → Stage DramT DramEvent DramFault
  | [] => Stage.idle
  | i :: later => fun s =>
      match issue ((i + s.prio) % cfg.nbk) s with
      | .error fault => .error fault
      | .ok (t, []) => issueFirst cfg issue later t
      | .ok issued => .ok issued

def unlessIssued (issued : Bool) (command : Stage DramT DramEvent DramFault) :
    Stage DramT DramEvent DramFault :=
  if issued then Stage.idle else command

/-- The loop of the single bus: a column command rules out a later row command. -/
def issueSingle (cfg : MemoryConfig) : List Nat → (col row : Bool) → Stage DramT DramEvent DramFault
  | [], _, _ => Stage.idle
  | i :: later, col, row => fun s => do
      let j := (i + s.prio) % cfg.nbk
      let (s, columns) ← unlessIssued col (issueColCommand cfg j) s
      let col := col || !columns.isEmpty
      let (s, rows) ← unlessIssued (col || row) (issueRowCommand cfg j) s
      let (s, rest) ← issueSingle cfg later col (row || !rows.isEmpty) s
      return (s, columns ++ rows ++ rest)

def issue (cfg : MemoryConfig) : Stage DramT DramEvent DramFault :=
  if cfg.dualBusInterface then
    (issueFirst cfg (issueColCommand cfg) (List.range cfg.nbk)).andThen
      (issueFirst cfg (issueRowCommand cfg) (List.range cfg.nbk))
  else issueSingle cfg (List.range cfg.nbk) false false

/-- `DEC2ZERO` on every counter. -/
def decrement (cfg : MemoryConfig) (s : DramT) : DramT :=
  { s with
    rrdc := s.rrdc - 1
    ccdc := s.ccdc - 1
    rtwc := s.rtwc - 1
    wtrc := s.wtrc - 1
    bk := fun j =>
      let bank := s.bk j
      if j < cfg.nbk then
        { bank with
          rcdc := bank.rcdc - 1
          rasc := bank.rasc - 1
          rcc := bank.rcc - 1
          rpc := bank.rpc - 1
          rcdwrc := bank.rcdwrc - 1
          wtpc := bank.wtpc - 1
          rtpc := bank.rtpc - 1 }
      else bank
    bkgrp := fun j =>
      if j < cfg.nbkgrp then { ccdlc := (s.bkgrp j).ccdlc - 1, rtplc := (s.bkgrp j).rtplc - 1 }
      else s.bkgrp j }

/-- Ends the cycle. -/
def tick (cfg : MemoryConfig) : Stage DramT DramEvent DramFault := fun s =>
  .ok ({ s with nCmd := s.nCmd + 1 }.decrement cfg, [])

def cycle (cfg : MemoryConfig) : Stage DramT DramEvent DramFault :=
  Stage.all [returnData cfg, scheduler cfg, issue cfg, tick cfg]

end DramT

end GpgpuSim.Dram
