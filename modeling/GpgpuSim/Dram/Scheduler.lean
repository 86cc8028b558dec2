import GpgpuSim.Dram.FifoPipeline
import GpgpuSim.Memory.MemFetch

/-! First-ready, first-come first-served scheduling. The requests of each bank are
kept in the order of their arrival, newest first, and binned by row; the bin that is
being served is served until it is empty. -/
namespace GpgpuSim.Dram
open GpgpuSim.Memory

inductive DramFault
  /-- An assertion of `fifo_pipeline`. -/
  | fifo
  /-- The assertions of `add_req` on the number of pending requests. -/
  | addReq
  | wrongPartition
  | bankIndex
  /-- An array index or an iterator outside its container. -/
  | outOfRange
  | missingBin
  | nonePending
  | nullRequest
  deriving DecidableEq, Repr

inductive DramCtrl
  | dramFifo
  | dramFrfcfs
  deriving DecidableEq, Repr

inductive BankIndexFunction
  | linearBkIndex
  | bitwiseXoringBkIndex
  | ipolyBkIndex
  | customBkIndex
  deriving DecidableEq, Repr

inductive BankGrpBitsPosition
  | higherBits
  | lowerBits
  deriving DecidableEq, Repr

/-- `memory_config`, as `init` leaves it. -/
structure MemoryConfig where
  nbk : Nat
  nbkgrp : Nat
  bkTagLength : Nat
  tCCD : Nat
  tCCDL : Nat
  tRRD : Nat
  tRCD : Nat
  tRCDWR : Nat
  tRAS : Nat
  tRP : Nat
  tRC : Nat
  tRTW : Nat
  tWTR : Nat
  tWTP : Nat
  tRTPL : Nat
  cl : Nat
  wl : Nat
  bl : Nat
  dataCommandFreqRatio : Nat
  dramAtomSize : Nat
  schedulerType : DramCtrl
  dramBnkIndexingPolicy : BankIndexFunction
  dramBnkgrpIndexingPolicy : BankGrpBitsPosition
  dualBusInterface : Bool
  gpgpuFrfcfsDramSchedQueueSize : Nat
  gpgpuDramReturnQueueSize : Nat
  seperateWriteQueueEnabled : Bool
  gpgpuFrfcfsDramWriteQueueSize : Nat
  writeHighWatermark : Nat
  writeLowWatermark : Nat

/-- `READ` or `WRITE`. -/
inductive ReadWrite
  | read
  | write
  deriving DecidableEq, Repr, Inhabited

/-- `dram_req_t`, and of its `data` the identity and the access type. -/
structure DramReq where
  row : Nat
  bk : Nat
  nbytes : Nat
  txbytes : Nat := 0
  dqbytes : Nat := 0
  rw : ReadWrite
  data : MfId
  accessType : MemAccessType
  deriving DecidableEq, Repr

instance : Inhabited DramReq := ⟨⟨0, 0, 0, 0, 0, .read, .request 0, .globalAccR⟩⟩

def DramReq.isWrite (req : DramReq) : Bool := req.accessType.isWrite

inductive MemoryMode
  | readMode
  | writeMode
  deriving DecidableEq, Repr

/-- The queues of `frfcfs_scheduler` for one kind of request. A request is its
pointer; an absent bin is an empty one; `lastRow` is the row of the bin being served. -/
structure RequestQueues where
  queue : Nat → List Nat := fun _ => []
  bins : Nat → Nat → List Nat := fun _ _ => []
  lastRow : Nat → Option Nat := fun _ => none

structure FrfcfsScheduler where
  reads : RequestQueues := {}
  writes : RequestQueues := {}
  numPending : Nat := 0
  numWritePending : Nat := 0
  mode : MemoryMode := .readMode

namespace RequestQueues

def add (queues : RequestQueues) (req bk row : Nat) : RequestQueues :=
  { queues with
    queue := Function.update queues.queue bk (req :: queues.queue bk)
    bins := Function.update queues.bins bk
      (Function.update (queues.bins bk) row (req :: queues.bins bk row)) }

/-- The row whose bin is served next: the last one, else the open row, else the row of
the oldest request. -/
def nextRow (reqs : Nat → DramReq) (queues : RequestQueues) (bank currRow : Nat) :
    Except DramFault (Option Nat) :=
  match queues.lastRow bank with
  | some row => .ok (some row)
  | none =>
      match (queues.queue bank).getLast? with
      | none => .ok none
      | some oldest =>
          if queues.bins bank currRow ≠ [] then .ok (some currRow)
          else if queues.bins bank (reqs oldest).row ≠ [] then .ok (some (reqs oldest).row)
          else .error .missingBin

/-- Takes the oldest request of the bin of a row. -/
def takeRow (queues : RequestQueues) (bank row : Nat) : Except DramFault (Nat × RequestQueues) :=
  match (queues.bins bank row).getLast? with
  | none => .error .outOfRange
  | some req =>
      let left := (queues.bins bank row).dropLast
      .ok (req,
        { queue := Function.update queues.queue bank ((queues.queue bank).erase req)
          bins := Function.update queues.bins bank (Function.update (queues.bins bank) row left)
          lastRow := Function.update queues.lastRow bank (if left = [] then none else some row) })

end RequestQueues

namespace FrfcfsScheduler

/-- Whether a request goes to the write queues. -/
def separateWrite (cfg : MemoryConfig) (req : DramReq) : Bool :=
    cfg.seperateWriteQueueEnabled && req.isWrite

def addReq (cfg : MemoryConfig) (reqs : Nat → DramReq) (req : Nat) (sched : FrfcfsScheduler) :
    Except DramFault FrfcfsScheduler :=
  let bk := (reqs req).bk
  let row := (reqs req).row
  if separateWrite cfg (reqs req) then
    if sched.numWritePending < cfg.gpgpuFrfcfsDramWriteQueueSize then
      if bk < cfg.nbk then
        .ok { sched with numWritePending := sched.numWritePending + 1, writes :=
          sched.writes.add req bk row }
      else .error .outOfRange
    else .error .addReq
  else if sched.numPending < cfg.gpgpuFrfcfsDramSchedQueueSize then
    if bk < cfg.nbk then
      .ok { sched with numPending := sched.numPending + 1, reads := sched.reads.add req bk row }
    else .error .outOfRange
  else .error .addReq

def nextMode (cfg : MemoryConfig) (sched : FrfcfsScheduler) : MemoryMode :=
  if cfg.seperateWriteQueueEnabled then
    match sched.mode with
    | .readMode => if cfg.writeHighWatermark ≤ sched.numWritePending then .writeMode else .readMode
    | .writeMode => if sched.numWritePending < cfg.writeLowWatermark then .readMode else .writeMode
  else sched.mode

def current (sched : FrfcfsScheduler) : RequestQueues :=
  match sched.mode with
  | .readMode => sched.reads
  | .writeMode => sched.writes

def setCurrent (sched : FrfcfsScheduler) (queues : RequestQueues) : FrfcfsScheduler :=
  match sched.mode with
  | .readMode => { sched with reads := queues }
  | .writeMode => { sched with writes := queues }

/-- The counts after `req` has left its queue. -/
def uncount (cfg : MemoryConfig) (reqs : Nat → DramReq) (req : Nat) (sched : FrfcfsScheduler) :
    Except DramFault FrfcfsScheduler :=
  if separateWrite cfg (reqs req) then
    if sched.numWritePending ≠ 0 then .ok { sched with numWritePending := sched.numWritePending - 1 }
    else .error .nonePending
  else if sched.numPending ≠ 0 then .ok { sched with numPending := sched.numPending - 1 }
  else .error .nonePending

def schedule (cfg : MemoryConfig) (reqs : Nat → DramReq) (bank currRow : Nat) (sched : FrfcfsScheduler) :
    Except DramFault (Option Nat × FrfcfsScheduler) := do
  let sched := { sched with mode := sched.nextMode cfg }
  match ← sched.current.nextRow reqs bank currRow with
  | none => return (none, sched)
  | some row =>
      let (req, queues) ← sched.current.takeRow bank row
      return (some req, ← (sched.setCurrent queues).uncount cfg reqs req)

end FrfcfsScheduler

end GpgpuSim.Dram
