import GpgpuSim.Shader.LoadStoreUnit
import GpgpuSim.Transition.Runs

/-! A cycle of the load/store unit, stage by stage, with its L1 data cache. Memory answers reads once and
stores with one acknowledgement for each sector, when the registers are sectored, else with one. -/
namespace GpgpuSim.Shader
open GpgpuSim.Memory GpgpuSim.Cache Transition

/-- The instruction of a request is `none` when the cache made the request. A queue of accesses is listed
from its back, where it is served. A reply is a request and whether it is a `WRITE_ACK`. -/
structure LdstUnit where
  books : LdstBooks
  dispatchReg : Option (WarpInst × List MemFetch)
  latencyQueue : Nat → Nat → Option MfId
  l1d : DataCache
  pool : MfPool
  inst : MfId → Option WarpInst
  readOnlyMisses : List WarpInst
  owed : List (MfId × Bool)
  responseFifo : List (MfId × Bool)
  nextGlobal : Option MfId
  nextWb : Option WarpInst

inductive LdstEvent
  | queued (mf : MfId)
  | left (mf : MfId)
  | sent (mf : MfId) (requester : Requester)
  | delivered (mf : MfId) (requester : Requester)
  | storeReq (mf : MfId) (warpId : Nat)
  | storeAck (mf : MfId) (warpId : Nat)
  deriving DecidableEq, Repr

namespace LdstUnit

def create (c : CacheConfig) : LdstUnit where
  books := ⟨fun _ _ => none, fun _ => ∅, fun _ => 0⟩
  dispatchReg := none
  latencyQueue _ _ := none
  l1d := .create c
  pool := ⟨fun _ => default, 0⟩
  inst _ := none
  readOnlyMisses := []
  owed := []
  responseFifo := []
  nextGlobal := none
  nextWb := none

/-- `mf->get_inst().cache_op`. -/
def cacheOp (unit : LdstUnit) (mf : MfId) : CacheOperator := (unit.inst mf).elim .cacheUndefined WarpInst.cacheOp

/-- `mf->get_wid()` of a request of an instruction. -/
def wid (unit : LdstUnit) (mf : MfId) : Nat := (unit.inst mf).elim 0 WarpInst.warpId

/-- A new request for an access of an instruction. -/
def alloc (inst : WarpInst) (access : MemFetch) (unit : LdstUnit) : MfId × LdstUnit :=
  let (mf, pool) := unit.pool.alloc access
  (mf, { unit with pool, inst := Function.update unit.inst mf (some inst) })

/-- `l1_latency_queue[bank][stage] = request`. -/
def setQueued (bank stage : Nat) (request : Option MfId) (unit : LdstUnit) : LdstUnit :=
  let stages := Function.update (unit.latencyQueue bank) stage request
  { unit with latencyQueue := Function.update unit.latencyQueue bank stages }

/-- What memory answers to a request: a write-back has no answer. -/
def answers (cfg : LdstConfig) (mf : MfId) (request : MemFetch) : List (MfId × Bool) :=
  if ¬ request.isWrite then [(mf, false)]
  else if request.isWriteBack then []
  else List.replicate (cfg.incAck request.dataSize) (mf, true)

/-- `m_icnt->push`. -/
def push (cfg : LdstConfig) (mf : MfId) (unit : LdstUnit) : LdstUnit :=
  { unit with owed := unit.owed ++ answers cfg mf (unit.pool.get mf) }

/-- Calls `inc_store_req` for a request a number of times. -/
def incStoreReqs (mf : MfId) (warpId : Nat) : Nat → LdstUnit → LdstUnit × List LdstEvent
  | 0, unit => (unit, [])
  | n + 1, unit =>
      let (unit, events) := incStoreReqs mf warpId n { unit with books := unit.books.incStoreReq warpId }
      (unit, .storeReq mf warpId :: events)

/-- Calls `store_ack` for a request a number of times. -/
def storeAcks (mf : MfId) (warpId : Nat) : Nat → LdstUnit → Except LdstFault (LdstUnit × List LdstEvent)
  | 0, unit => .ok (unit, [])
  | n + 1, unit => do
      let books ← unit.books.storeAck warpId
      let (unit, events) ← storeAcks mf warpId n { unit with books }
      return (unit, .storeAck mf warpId :: events)

/-! ## The dispatch register -/

/-- The store requests of an access that goes into the L1 latency queue. -/
def countQueued (cfg : LdstConfig) (inst : WarpInst) (mf : MfId) (dataSize : Nat) (unit : LdstUnit) :
    LdstUnit × List LdstEvent :=
  if inst.isStore then incStoreReqs mf inst.warpId (cfg.incAck dataSize) unit else (unit, [])

/-- The loop of `process_memory_access_queue_l1cache`, which takes as many accesses as there are
banks, until one finds its bank taken: the accesses that are left. -/
def queueAccesses (cfg : LdstConfig) (inst : WarpInst) :
    Nat → List MemFetch → LdstUnit → Except LdstFault (List MemFetch × LdstUnit × List LdstEvent)
  | 0, accessq, unit => .ok (accessq, unit, [])
  | _ + 1, [], unit => .ok ([], unit, [])
  | banks + 1, access :: rest, unit =>
      let bank := cfg.setBank access.addr
      if ¬ bank < cfg.l1Banks then .error .assertion
      else if unit.latencyQueue bank (cfg.l1Latency - 1) = none then do
        let (mf, unit) := unit.alloc inst access
        let unit := unit.setQueued bank (cfg.l1Latency - 1) (some mf)
        let (unit, counted) := countQueued cfg inst mf access.dataSize unit
        let (accessq, unit, events) ← queueAccesses cfg inst banks rest unit
        return (accessq, unit, .queued mf :: counted ++ events)
      else .ok (access :: rest, unit, [])

/-- The bypass branch of `memory_cycle`, when the interconnect has room. -/
def sendAround (cfg : LdstConfig) (inst : WarpInst) (access : MemFetch) (unit : LdstUnit) :
    Except LdstFault (LdstUnit × List LdstEvent) :=
  let (mf, unit) := unit.alloc inst access
  let unit := unit.push cfg mf
  if inst.isLoad then
    if inst.outputs.all fun reg => decide (0 < unit.books.pending inst.warpId reg) then .ok (unit, [.sent mf .bypass])
    else .error .assertion
  else if inst.isStore then
    .ok ({ unit with books := unit.books.incStoreReq inst.warpId }, [.sent mf .bypass, .storeReq mf inst.warpId])
  else .ok (unit, [.sent mf .bypass])

/-- `memory_cycle` for an instruction with accesses left: the accesses that are still left. -/
def memoryCycle (cfg : LdstConfig) (inst : WarpInst) (accessq : List MemFetch) (icntFull : Bool) (unit : LdstUnit) :
    Except LdstFault (List MemFetch × LdstUnit × List LdstEvent) :=
  match accessq with
  | [] => .ok ([], unit, [])
  | access :: rest =>
      if cfg.bypassAtIssue inst then
        if icntFull then .ok (access :: rest, unit, [])
        else do
          let (unit, events) ← sendAround cfg inst access unit
          return (rest, unit, events)
      else if inst.cacheOp = .cacheUndefined then .error .assertion
      else queueAccesses cfg inst cfg.l1Banks (access :: rest) unit

/-- An access that misses in the constant or texture cache waits there, and may be sent. -/
def missReadOnly (cfg : LdstConfig) (inst : WarpInst) (access : MemFetch) (readSent : Bool) (unit : LdstUnit) :
    LdstUnit × List LdstEvent :=
  let missed := { unit with readOnlyMisses := inst :: unit.readOnlyMisses }
  if readSent then
    let (mf, missed) := missed.alloc inst access
    (missed.push cfg mf, [.sent mf (if inst.inConstantCycle then .l1c else .l1t)])
  else (missed, [])

/-- `constant_cycle` and `texture_cycle`, by what the cache answers; a miss may be one that is sent. -/
def readOnlyCycle (cfg : LdstConfig) (inst : WarpInst) (accessq : List MemFetch) (status : CacheRequestStatus)
    (readSent : Bool) (unit : LdstUnit) : Except LdstFault (List MemFetch × LdstUnit × List LdstEvent) :=
  let hit := { unit with books := if inst.isLoad then unit.books.hitReadOnly inst else unit.books }
  if cfg.perfectInstConstCache && inst.inConstantCycle then .ok ([], hit, [])
  else
    match accessq with
    | [] => .ok ([], unit, [])
    | access :: rest =>
        match status with
        | .hit => if readSent then .error .assertion else .ok (rest, hit, [])
        | .reservationFail => if readSent then .error .assertion else .ok (access :: rest, unit, [])
        | .miss | .hitReserved => .ok (rest, missReadOnly cfg inst access readSent unit)
        | .sectorMiss => .error .assertion

/-- The end of `cycle`: an instruction without accesses leaves the dispatch register. -/
def leaveDispatch (inst : WarpInst) (accessq : List MemFetch) (unit : LdstUnit) : LdstUnit :=
  if accessq = [] then
    { unit with
      books := if inst.isLoad then (unit.books.dispatchLoad inst).1 else unit.books
      dispatchReg := none }
  else { unit with dispatchReg := some (inst, accessq) }

/-! ## The L1 latency queue -/

/-- A store that the cache keeps is acknowledged. -/
def ackKept (cfg : LdstConfig) (inst : WarpInst) (mf : MfId) (writeSent : Bool) (unit : LdstUnit) :
    Except LdstFault (LdstUnit × List LdstEvent) :=
  if inst.isStore && !writeSent then storeAcks mf inst.warpId (cfg.incAck (unit.pool.get mf).dataSize) unit
  else .ok (unit, [])

/-- What a hit in `L1_latency_queue_cycle` does to the counts. -/
def finishHit (cfg : LdstConfig) (inst : WarpInst) (mf : MfId) (writeSent : Bool) (unit : LdstUnit) :
    Except LdstFault (LdstUnit × List LdstEvent) := do
  let (books, _) ← unit.books.hitQueued inst
  ackKept cfg inst mf writeSent { unit with books }

/-- The body of the loop of `L1_latency_queue_cycle` for a request that has reached the front of its bank. -/
def serveQueued (c : DataCacheConfig) (cfg : LdstConfig) (bank : Nat) (mf : MfId) (time : Nat) (unit : LdstUnit) :
    Except LdstFault (LdstUnit × List LdstEvent) :=
  match DataCache.ReadWrite.access c unit.l1d unit.pool (unit.pool.get mf).addr mf time with
  | .error fault => .error (.cache fault)
  | .ok result =>
      let writeSent := wasWriteSent result.events
      let readSent := result.events.any fun event => event.type == .readRequestSent
      let unit := { unit with l1d := result.cache, pool := result.pool }
      let served := unit.setQueued bank 0 none
      match result.status with
      | .hit =>
          if readSent then .error .assertion
          else
            match unit.inst mf with
            | none => .ok (served, [.left mf])
            | some inst => do
                let (served, events) ← finishHit cfg inst mf writeSent served
                return (served, .left mf :: events)
      | .reservationFail => if readSent || writeSent then .error .assertion else .ok (unit, [])
      | .miss | .hitReserved => .ok (served, [.left mf])
      | .sectorMiss => .error .assertion

/-- A request moves on when the place before it is free. -/
def shiftStage (bank : Nat) (unit : LdstUnit) (stage : Nat) : LdstUnit :=
  if unit.latencyQueue bank stage = none then
    (unit.setQueued bank stage (unit.latencyQueue bank (stage + 1))).setQueued bank (stage + 1) none
  else unit

def serveBank (c : DataCacheConfig) (cfg : LdstConfig) (time bank : Nat) (unit : LdstUnit) :
    Except LdstFault (LdstUnit × List LdstEvent) :=
  match unit.latencyQueue bank 0 with
  | none => .ok (unit, [])
  | some mf => serveQueued c cfg bank mf time unit

def latencyQueueBank (c : DataCacheConfig) (cfg : LdstConfig) (time bank : Nat) (unit : LdstUnit) :
    Except LdstFault (LdstUnit × List LdstEvent) := do
  let (unit, events) ← serveBank c cfg time bank unit
  return ((List.range (cfg.l1Latency - 1)).foldl (shiftStage bank) unit, events)

/-- `L1_latency_queue_cycle`, from a bank on. -/
def latencyQueueCycle (c : DataCacheConfig) (cfg : LdstConfig) (time : Nat) :
    List Nat → LdstUnit → Except LdstFault (LdstUnit × List LdstEvent)
  | [], unit => .ok (unit, [])
  | bank :: rest, unit => do
      let (unit, events) ← latencyQueueBank c cfg time bank unit
      let (unit, more) ← latencyQueueCycle c cfg time rest unit
      return (unit, events ++ more)

/-! ## Memory -/

/-- `m_L1D->cycle()`: the front of the miss queue goes to memory when there is room. -/
def l1dCycle (cfg : LdstConfig) (memportFull : Bool) (unit : LdstUnit) : LdstUnit × List LdstEvent :=
  let cycled := { unit with l1d := unit.l1d.cycle memportFull }
  match unit.l1d.missQueue with
  | [] => (cycled, [])
  | mf :: _ => if memportFull then (cycled, []) else (cycled.push cfg mf, [.sent mf .l1d])

/-- The response part of `cycle`; a reply for which a fill port or register is not free stays. -/
def responseCycle (cfg : LdstConfig) (portFree : Bool) (time : Nat) (unit : LdstUnit) :
    Except LdstFault (LdstUnit × List LdstEvent) :=
  match unit.responseFifo with
  | [] => .ok (unit, [])
  | (mf, ack) :: rest =>
      let request := unit.pool.get mf
      let popped := { unit with responseFifo := rest }
      if request.accessType = .textureAccR then
        if portFree then .ok (popped, [.delivered mf .l1t]) else .ok (unit, [])
      else if request.accessType = .constAccR then
        if portFree then .ok (popped, [.delivered mf .l1c]) else .ok (unit, [])
      else if ack then storeAcks mf (unit.wid mf) 1 popped
      else if request.isWrite then .error .assertion
      else if cfg.bypassAtReply request.accessType (unit.cacheOp mf) then
        if unit.nextGlobal = none then .ok ({ popped with nextGlobal := some mf }, [.delivered mf .bypass])
        else .ok (unit, [])
      else if portFree then
        match cfg.l1d with
        | none => .error .assertion
        | some c =>
            match unit.l1d.fill c.toCacheConfig unit.pool mf time with
            | .error fault => .error (.cache fault)
            | .ok (l1d, pool) => .ok ({ popped with l1d, pool }, [.delivered mf .l1d])
      else .ok (unit, [])

end LdstUnit

/-- The stages of the unit and the memory behind it, in any order. -/
inductive LdstStep (cfg : LdstConfig) (unit : LdstUnit) : List LdstEvent → LdstUnit → Prop
  /-- An instruction that is not of shared memory comes to the dispatch register with its accesses. -/
  | issue {inst : WarpInst} {accessq : List MemFetch} {books : LdstBooks} : unit.dispatchReg = none →
      inst.space ≠ .sharedSpace →
      (∀ access ∈ accessq, inst.accessType = some access.accessType) →
      (if inst.isLoad then LdstBooks.issueLoad inst accessq.length inst.outputs unit.books else .ok unit.books) =
        .ok books →
      LdstStep cfg unit [] { unit with books, dispatchReg := some (inst, accessq) }
  | memory {inst : WarpInst} {accessq rest : List MemFetch} {icntFull : Bool} {next : LdstUnit}
      {events : List LdstEvent} : unit.dispatchReg = some (inst, accessq) → inst.inMemoryCycle = true →
      unit.memoryCycle cfg inst accessq icntFull = .ok (rest, next, events) →
      LdstStep cfg unit events (next.leaveDispatch inst rest)
  | readOnly {inst : WarpInst} {accessq rest : List MemFetch} {status : CacheRequestStatus} {readSent : Bool}
      {next : LdstUnit} {events : List LdstEvent} : unit.dispatchReg = some (inst, accessq) →
      inst.inMemoryCycle = false → unit.readOnlyCycle cfg inst accessq status readSent = .ok (rest, next, events) →
      LdstStep cfg unit events (next.leaveDispatch inst rest)
  /-- One bank of `L1_latency_queue_cycle`. -/
  | latencyQueue {c : DataCacheConfig} {time bank : Nat} {next : LdstUnit} {events : List LdstEvent} :
      cfg.l1d = some c → bank < cfg.l1Banks → unit.latencyQueueBank c cfg time bank = .ok (next, events) →
      LdstStep cfg unit events next
  | l1d (memportFull : Bool) : LdstStep cfg unit (unit.l1dCycle cfg memportFull).2 (unit.l1dCycle cfg memportFull).1
  /-- An answer arrives, in any order. -/
  | reply {before after : List (MfId × Bool)} {answer : MfId × Bool} : unit.owed = before ++ answer :: after →
      LdstStep cfg unit []
        { unit with owed := before ++ after, responseFifo := unit.responseFifo ++ [answer] }
  | response {portFree : Bool} {time : Nat} {next : LdstUnit} {events : List LdstEvent} :
      unit.responseCycle cfg portFree time = .ok (next, events) → LdstStep cfg unit events next
  | writeback {inst : WarpInst} {books : LdstBooks} {completions : List CompletionEvent} :
      unit.nextWb = some inst → unit.books.writeback inst = .ok (books, completions) →
      LdstStep cfg unit [] { unit with books, nextWb := none }
  | takeGlobal {mf : MfId} : unit.nextWb = none → unit.nextGlobal = some mf →
      LdstStep cfg unit [] { unit with nextGlobal := none, nextWb := unit.inst mf }
  | takeL1d {mf : MfId} {l1d : DataCache} : unit.nextWb = none → unit.l1d.nextAccess = .ok (mf, l1d) →
      LdstStep cfg unit [] { unit with l1d, nextWb := unit.inst mf }
  | takeReadOnly {before after : List WarpInst} {inst : WarpInst} : unit.nextWb = none →
      unit.readOnlyMisses = before ++ inst :: after →
      LdstStep cfg unit [] { unit with readOnlyMisses := before ++ after, nextWb := some inst }

namespace LdstBooks

def addStores (warpId n : Nat) (books : LdstBooks) : LdstBooks :=
  let count := books.storesOutstanding warpId + n
  { books with storesOutstanding := Function.update books.storesOutstanding warpId count }

def subStores (warpId n : Nat) (books : LdstBooks) : LdstBooks :=
  let count := books.storesOutstanding warpId - n
  { books with storesOutstanding := Function.update books.storesOutstanding warpId count }

theorem addStores_zero (warpId : Nat) (books : LdstBooks) : books.addStores warpId 0 = books := by
  simp [addStores]

theorem subStores_zero (warpId : Nat) (books : LdstBooks) : books.subStores warpId 0 = books := by
  simp [subStores]

theorem storeAck_ok {warpId : Nat} {books next : LdstBooks} (done : books.storeAck warpId = .ok next) :
    0 < books.storesOutstanding warpId ∧ next = books.subStores warpId 1 := by
  unfold storeAck at done
  split at done
  · cases done
    exact ⟨by assumption, rfl⟩
  · cases done

end LdstBooks

namespace LdstUnit

variable {cfg : LdstConfig} {unit next : LdstUnit} {mf : MfId} {warpId n bank stage : Nat} {events : List LdstEvent}

theorem incStoreReqs_eq : incStoreReqs mf warpId n unit =
    ({ unit with books := unit.books.addStores warpId n }, List.replicate n (.storeReq mf warpId)) := by
  induction n generalizing unit with
  | zero => simp [incStoreReqs, LdstBooks.addStores_zero]
  | succ n ih =>
      simp only [incStoreReqs, ih, List.replicate_succ, LdstBooks.addStores, LdstBooks.incStoreReq,
        Function.update_self, Function.update_idem, Nat.add_assoc, Nat.add_comm 1 n]

theorem storeAcks_ok (done : storeAcks mf warpId n unit = .ok (next, events)) :
    n ≤ unit.books.storesOutstanding warpId ∧ next = { unit with books := unit.books.subStores warpId n } ∧
      events = List.replicate n (.storeAck mf warpId) := by
  induction n generalizing unit next events with
  | zero =>
      cases done
      exact ⟨Nat.zero_le _, by rw [LdstBooks.subStores_zero], rfl⟩
  | succ n ih =>
      obtain ⟨books, acked, done⟩ := bind_ok.mp done
      obtain ⟨⟨last, more⟩, rest, done⟩ := bind_ok.mp done
      obtain ⟨positive, rfl⟩ := LdstBooks.storeAck_ok acked
      obtain ⟨enough, rfl, rfl⟩ := ih rest
      cases done
      simp only [LdstBooks.subStores, Function.update_self] at enough ⊢
      refine ⟨by omega, ?_, rfl⟩
      rw [Function.update_idem, Nat.sub_sub, Nat.add_comm 1 n]

/-- A hit changes the counts only, and acknowledges a store that is kept. -/
theorem finishHit_ok {inst : WarpInst} {writeSent : Bool}
    (done : unit.finishHit cfg inst mf writeSent = .ok (next, events)) :
    ∃ books completions acks, unit.books.hitQueued inst = .ok (books, completions) ∧
      acks = (if inst.isStore && !writeSent then cfg.incAck (unit.pool.get mf).dataSize else 0) ∧
      acks ≤ books.storesOutstanding inst.warpId ∧ next = { unit with books := books.subStores inst.warpId acks } ∧
      events = List.replicate acks (.storeAck mf inst.warpId) := by
  obtain ⟨⟨books, completions⟩, hit, acked⟩ := bind_ok.mp done
  dsimp only [ackKept] at acked
  split at acked
  next kept => exact ⟨books, completions, _, hit, rfl, (if_pos kept).symm ▸ storeAcks_ok acked⟩
  next sent =>
    cases acked
    refine ⟨books, completions, 0, hit, (if_neg sent).symm, Nat.zero_le _, ?_, rfl⟩
    rw [LdstBooks.subStores_zero]

/-- How a request of an instruction is served: it is refused and stays, hits, or misses. -/
theorem serveQueued_ok {c : DataCacheConfig} {time : Nat} {inst : WarpInst} (whose : unit.inst mf = some inst)
    (done : unit.serveQueued c cfg bank mf time = .ok (next, events)) :
    ∃ result served, DataCache.ReadWrite.access c unit.l1d unit.pool (unit.pool.get mf).addr mf time = .ok result ∧
      served = { unit with l1d := result.cache, pool := result.pool } ∧
      (result.status = .reservationFail ∧ wasWriteSent result.events = false ∧ next = served ∧ events = [] ∨
        result.status = .hit ∧ (∃ books completions acks, unit.books.hitQueued inst = .ok (books, completions) ∧
          acks = (if inst.isStore && !wasWriteSent result.events then cfg.incAck (result.pool.get mf).dataSize else 0) ∧
          acks ≤ books.storesOutstanding inst.warpId ∧
          next = { served.setQueued bank 0 none with books := books.subStores inst.warpId acks } ∧
          events = .left mf :: List.replicate acks (.storeAck mf inst.warpId)) ∨
        (result.status = .miss ∨ result.status = .hitReserved) ∧ next = served.setQueued bank 0 none ∧
          events = [.left mf]) := by
  unfold serveQueued at done
  split at done
  · cases done
  next result accessed =>
    refine ⟨result, _, accessed, rfl, ?_⟩
    dsimp only at done
    split at done
    next hit =>
      split at done
      · cases done
      · split at done
        next unknown =>
          rw [whose] at unknown
          cases unknown
        next inst' known =>
          obtain rfl : inst' = inst := Option.some.inj (known.symm.trans whose)
          obtain ⟨⟨reached, acked⟩, finished, done⟩ := bind_ok.mp done
          obtain ⟨books, completions, acks, hits, size, enough, rfl, rfl⟩ := finishHit_ok finished
          cases done
          exact .inr (.inl ⟨hit, books, completions, acks, hits, size, enough, rfl, rfl⟩)
    next refused =>
      split at done
      · cases done
      next unsent =>
        cases done
        simp only [Bool.or_eq_true, not_or, Bool.not_eq_true] at unsent
        exact .inl ⟨refused, unsent.2, rfl, rfl⟩
    next miss =>
      cases done
      exact .inr (.inr ⟨.inl miss, rfl, rfl⟩)
    next reserved =>
      cases done
      exact .inr (.inr ⟨.inr reserved, rfl, rfl⟩)
    next => cases done

@[simp] theorem latencyQueue_setQueued (request : Option MfId) (b s : Nat) :
    (unit.setQueued bank stage request).latencyQueue b s =
      if b = bank ∧ s = stage then request else unit.latencyQueue b s := by
  simp only [setQueued]
  by_cases same_bank : b = bank
  · subst same_bank
    by_cases same_stage : s = stage <;> simp [same_stage]
  · simp [same_bank]

@[simp] theorem l1d_setQueued (request : Option MfId) : (unit.setQueued bank stage request).l1d = unit.l1d := rfl

@[simp] theorem pool_setQueued (request : Option MfId) : (unit.setQueued bank stage request).pool = unit.pool := rfl

@[simp] theorem inst_setQueued (request : Option MfId) : (unit.setQueued bank stage request).inst = unit.inst := rfl

variable {c : DataCacheConfig} {time : Nat}

/-- `L1_latency_queue_cycle` is a run of its banks. -/
theorem latencyQueueCycle_run {start : LdstUnit} {trace : List LdstEvent} {banks : List Nat}
    (run : Reaches (LdstStep cfg) start trace unit) (present : cfg.l1d = some c)
    (inside : ∀ bank ∈ banks, bank < cfg.l1Banks)
    (done : unit.latencyQueueCycle c cfg time banks = .ok (next, events)) :
    Reaches (LdstStep cfg) start (trace ++ events) next := by
  induction banks generalizing unit trace events with
  | nil =>
      cases done
      rwa [List.append_nil]
  | cons bank rest ih =>
      obtain ⟨⟨reached, early⟩, first, done⟩ := bind_ok.mp done
      obtain ⟨⟨last, late⟩, others, done⟩ := bind_ok.mp done
      cases done
      rw [← List.append_assoc]
      exact ih (run.next (.latencyQueue present (inside bank List.mem_cons_self) first))
        (fun b member => inside b (List.mem_cons_of_mem _ member)) others

end LdstUnit

/-! ## Runs on given inputs -/

/-- What is asked of the unit; an answer or a waiting access is named by its place. -/
inductive LdstOp
  | issue (inst : WarpInst) (accessq : List MemFetch)
  | memory (icntFull : Bool)
  | latencyQueue (time : Nat)
  | l1d (memportFull : Bool)
  | reply (place : Nat)
  | response (portFree : Bool) (time : Nat)
  | takeGlobal
  | takeL1d
  | writeback

namespace LdstUnit

variable {cfg : LdstConfig} {unit next : LdstUnit} {trace events : List LdstEvent} {op : LdstOp}

def perform (cfg : LdstConfig) (unit : LdstUnit) : LdstOp → Option (LdstUnit × List LdstEvent)
  | .issue inst accessq =>
      if unit.dispatchReg.isNone && decide (inst.space ≠ .sharedSpace) &&
          accessq.all fun access => inst.accessType == some access.accessType then
        match
          if inst.isLoad then LdstBooks.issueLoad inst accessq.length inst.outputs unit.books else .ok unit.books
        with
        | .ok books => some ({ unit with books, dispatchReg := some (inst, accessq) }, [])
        | .error _ => none
      else none
  | .memory icntFull =>
      match unit.dispatchReg with
      | none => none
      | some (inst, accessq) =>
          if inst.inMemoryCycle then
            match unit.memoryCycle cfg inst accessq icntFull with
            | .ok (rest, next, events) => some (next.leaveDispatch inst rest, events)
            | .error _ => none
          else none
  | .latencyQueue time =>
      match cfg.l1d with
      | none => none
      | some c => (unit.latencyQueueCycle c cfg time (List.range cfg.l1Banks)).toOption
  | .l1d memportFull => some (unit.l1dCycle cfg memportFull)
  | .reply place =>
      match unit.owed.drop place with
      | [] => none
      | answer :: after =>
          some ({ unit with owed := unit.owed.take place ++ after, responseFifo := unit.responseFifo ++ [answer] }, [])
  | .response portFree time => (unit.responseCycle cfg portFree time).toOption
  | .takeGlobal =>
      match unit.nextWb, unit.nextGlobal with
      | none, some mf => some ({ unit with nextGlobal := none, nextWb := unit.inst mf }, [])
      | _, _ => none
  | .takeL1d =>
      match unit.nextWb, unit.l1d.nextAccess with
      | none, .ok (mf, l1d) => some ({ unit with l1d, nextWb := unit.inst mf }, [])
      | _, _ => none
  | .writeback =>
      match unit.nextWb with
      | none => none
      | some inst =>
          match unit.books.writeback inst with
          | .ok (books, _) => some ({ unit with books, nextWb := none }, [])
          | .error _ => none

theorem ok_of_toOption {α : Type} {result : Except LdstFault α} {a : α} (found : result.toOption = some a) :
    result = .ok a := by
  cases result with
  | error fault => cases found
  | ok b =>
      cases found
      rfl

theorem perform_run {start : LdstUnit} (run : Reaches (LdstStep cfg) start trace unit)
    (done : unit.perform cfg op = some (next, events)) : Reaches (LdstStep cfg) start (trace ++ events) next := by
  cases op with
  | issue inst accessq =>
      simp only [perform, Bool.and_eq_true, Option.isNone_iff_eq_none, decide_eq_true_eq, List.all_eq_true,
        beq_iff_eq] at done
      split at done
      next ready =>
        split at done
        next books counted =>
          cases done
          exact run.next (.issue ready.1.1 ready.1.2 ready.2 counted)
        next => cases done
      next => cases done
  | memory icntFull =>
      simp only [perform] at done
      split at done
      · cases done
      next inst accessq held =>
        split at done
        next served =>
          split at done
          next rest reached more cycled =>
            cases done
            exact run.next (.memory held served cycled)
          next => cases done
        next => cases done
  | latencyQueue time =>
      simp only [perform] at done
      split at done
      · cases done
      next c present => exact latencyQueueCycle_run run present (fun bank => List.mem_range.mp) (ok_of_toOption done)
  | l1d memportFull =>
      have step := run.next (@LdstStep.l1d cfg unit memportFull)
      rwa [Option.some.inj done] at step
  | reply place =>
      simp only [perform] at done
      split at done
      · cases done
      next answer after found =>
        cases done
        refine run.next (.reply ?_)
        rw [← found, List.take_append_drop]
  | response portFree time => exact run.next (.response (ok_of_toOption done))
  | takeGlobal =>
      simp only [perform] at done
      split at done
      next mf free held =>
        cases done
        exact run.next (.takeGlobal free held)
      next => cases done
  | takeL1d =>
      simp only [perform] at done
      split at done
      next mf l1d free popped =>
        cases done
        exact run.next (.takeL1d free popped)
      next => cases done
  | writeback =>
      simp only [perform] at done
      split at done
      · cases done
      next inst held =>
        split at done
        next books completions written =>
          cases done
          exact run.next (.writeback held written)
        next => cases done

def performAll (cfg : LdstConfig) : List LdstOp → LdstUnit → Option (LdstUnit × List LdstEvent)
  | [], unit => some (unit, [])
  | op :: rest, unit => do
      let (unit, events) ← unit.perform cfg op
      let (unit, more) ← performAll cfg rest unit
      return (unit, events ++ more)

theorem performAll_run {start : LdstUnit} {ops : List LdstOp} (run : Reaches (LdstStep cfg) start trace unit)
    (done : performAll cfg ops unit = some (next, events)) : Reaches (LdstStep cfg) start (trace ++ events) next := by
  induction ops generalizing unit trace events with
  | nil =>
      cases done
      rwa [List.append_nil]
  | cons op rest ih =>
      simp only [performAll, Option.bind_eq_bind, Option.bind_eq_some_iff] at done
      obtain ⟨⟨reached, early⟩, first, ⟨last, late⟩, others, done⟩ := done
      cases done
      rw [← List.append_assoc]
      exact ih (perform_run run first) others

/-- A run that passes a test. -/
theorem exists_run {start : LdstUnit} {ops : List LdstOp} {test : LdstUnit → List LdstEvent → Bool}
    (passed : (performAll cfg ops start).any (fun outcome => test outcome.1 outcome.2) = true) :
    ∃ trace unit, Reaches (LdstStep cfg) start trace unit ∧ test unit trace = true := by
  cases outcome : performAll cfg ops start with
  | none =>
      rw [outcome] at passed
      cases passed
  | some reached =>
      obtain ⟨unit, trace⟩ := reached
      rw [outcome] at passed
      exact ⟨trace, unit, by simpa using performAll_run Reaches.refl outcome, passed⟩

end LdstUnit

end GpgpuSim.Shader
