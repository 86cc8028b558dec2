import GpgpuSim.Cache.MshrTable

/-! The read side of a data cache, as the metadata cache uses it: misses, fills,
the miss queue towards memory and the ports. -/
namespace GpgpuSim.Cache
open GpgpuSim.Memory Transition

inductive CacheEventType
  | writeBackRequestSent
  | readRequestSent
  | writeRequestSent
  | writeAllocateSent
  deriving DecidableEq, Repr

structure CacheEvent where
  type : CacheEventType
  evictedBlock : EvictedBlockInfo := {}
  deriving DecidableEq, Repr

def wasWriteSent (events : List CacheEvent) : Bool :=
  events.any fun event => event.type == .writeRequestSent

/-- Only the first event is looked at. -/
def wasWritebackSent (events : List CacheEvent) (wbEvent : CacheEvent) : Option CacheEvent :=
  match events with
  | [] => none
  | event :: _ => some (if event.type = .writeBackRequestSent then event else wbEvent)

structure ExtraMfFields where
  blockAddr : Nat
  addr : Nat
  cacheIndex : Option Nat
  dataSize : Nat
  pendingRead : Nat
  deriving DecidableEq, Repr

structure DataCache where
  tagArray : TagArray
  mshrs : MshrTable
  missQueue : List MfId
  extraMfFields : MfId → Option ExtraMfFields
  dataPortOccupiedCycles : Nat
  fillPortOccupiedCycles : Nat

/-- A sent read request: the block it evicted, if that has to be written back, and the
line that was accessed. -/
structure SentRead where
  evicted : Option EvictedBlockInfo
  events : List CacheEvent
  cache : DataCache
  pool : MfPool
  index : Option Nat

structure AccessResult where
  status : CacheRequestStatus
  events : List CacheEvent
  cache : DataCache
  pool : MfPool

namespace DataCache

def create (cfg : CacheConfig) : DataCache where
  tagArray := .create cfg
  mshrs := .empty
  missQueue := []
  extraMfFields _ := none
  dataPortOccupiedCycles := 0
  fillPortOccupiedCycles := 0

def dataPortFree (cache : DataCache) : Bool := cache.dataPortOccupiedCycles == 0

def missQueueFull (cfg : CacheConfig) (cache : DataCache) (numMiss : Nat) : Bool :=
  decide (cache.missQueue.length + numMiss ≥ cfg.missQueueSize)

def waitingForFill (cache : DataCache) (mf : MfId) : Bool := (cache.extraMfFields mf).isSome

/-- Nothing is sent when the registers have no room for the request. -/
def sendReadRequest (cfg : CacheConfig) (cache : DataCache) (pool : MfPool) (blockAddr : Nat)
    (cacheIndex : Option Nat) (mf : MfId) (time : Nat) : Except CacheFault (Option SentRead) := do
  let request := pool.get mf
  let mshrAddr := cfg.mshrAddr request.addr
  let mshrHit := cache.mshrs.probe mshrAddr
  let mshrAvail := !cache.mshrs.full cfg mshrAddr
  if mshrHit && mshrAvail then
    let (_, index, tagArray, evicted) ← cache.tagArray.access cfg blockAddr time cacheIndex request
    let mshrs ← cache.mshrs.add cfg mshrAddr mf request.isAtomic
    return some ⟨evicted, [], { cache with tagArray, mshrs }, pool, index⟩
  else if !mshrHit && mshrAvail && decide (cache.missQueue.length < cfg.missQueueSize) then
    let (_, index, tagArray, evicted) ← cache.tagArray.access cfg blockAddr time cacheIndex request
    let mshrs ← cache.mshrs.add cfg mshrAddr mf request.isAtomic
    let pending :=
      if cfg.isStreaming && cfg.cacheType == .sector then tagArray.addPendingLine cfg request else tagArray
    let pendingRead := if cfg.mshrType = .sectorAssoc then cfg.lineSize / sectorSize else 0
    let extra : ExtraMfFields := ⟨mshrAddr, request.addr, index, request.dataSize, pendingRead⟩
    let cache := { cache with
      tagArray := pending
      mshrs
      extraMfFields := Function.update cache.extraMfFields mf (some extra)
      missQueue := cache.missQueue ++ [mf] }
    let pool := pool.modify mf fun request => (request.setDataSize cfg.atomSize).setAddr mshrAddr
    return some ⟨evicted, [{ type := .readRequestSent }], cache, pool, index⟩
  else if !mshrAvail then return none
  else throw .deadBranch

/-- The write-back request for an evicted block, routed as the request that evicts it. -/
def writeBackRequest (evicted : EvictedBlockInfo) (mf : MemFetch) (wrbkType : MemAccessType := .l2WrbkAcc) :
    MemFetch where
  accessType := wrbkType
  addr := evicted.blockAddr
  dataSize := evicted.modifiedSize
  subPartitionId := mf.subPartitionId
  chip := mf.chip

def rdHitBase (cfg : CacheConfig) (cache : DataCache) (pool : MfPool) (addr : Nat)
    (cacheIndex : Option Nat) (mf : MfId) (time : Nat) : Except CacheFault AccessResult := do
  let request := pool.get mf
  let (_, index, tagArray, evicted) ←
    cache.tagArray.access cfg (cfg.blockAddr addr) time cacheIndex request
  if evicted.isSome then throw .assertion
  if request.isAtomic then
    if request.accessType ≠ .globalAccR then throw .assertion
    match index with
    | none => throw .abort
    | some i =>
        let block ← (tagArray.lines i).setStatus .modified request.sectorMask
        return ⟨.hit, [], { cache with tagArray := tagArray.setLine i block }, pool⟩
  else return ⟨.hit, [], { cache with tagArray }, pool⟩

def rdMissBase (cfg : CacheConfig) (cache : DataCache) (pool : MfPool) (addr : Nat)
    (cacheIndex : Option Nat) (mf : MfId) (time : Nat) (wrbkType : MemAccessType := .l2WrbkAcc) :
    Except CacheFault AccessResult := do
  if cache.missQueueFull cfg 1 then return ⟨.reservationFail, [], cache, pool⟩
  match ← cache.sendReadRequest cfg pool (cfg.blockAddr addr) cacheIndex mf time with
  | none => return ⟨.reservationFail, [], cache, pool⟩
  | some sent =>
      match sent.evicted with
      | some evicted =>
          if cfg.writePolicy ≠ .writeThrough then
            let (wb, pool) := sent.pool.alloc (writeBackRequest evicted (sent.pool.get mf) wrbkType)
            let cache := { sent.cache with missQueue := sent.cache.missQueue ++ [wb] }
            return ⟨.miss, sent.events ++ [{ type := .writeBackRequestSent }], cache, pool⟩
          else return ⟨.miss, sent.events, sent.cache, sent.pool⟩
      | none => return ⟨.miss, sent.events, sent.cache, sent.pool⟩

def useDataPort (cfg : CacheConfig) (result : AccessResult) (dataSize : Nat) : DataCache :=
  let portWidth := cfg.dataPortWidth
  let busy :=
    match result.status with
    | .hit => dataSize / portWidth + if dataSize % portWidth > 0 then 1 else 0
    | .hitReserved | .miss =>
        match wasWritebackSent result.events { type := .writeBackRequestSent } with
        | some event => event.evictedBlock.modifiedSize / portWidth
        | none => 0
    | .sectorMiss | .reservationFail => 0
  { result.cache with dataPortOccupiedCycles := result.cache.dataPortOccupiedCycles + busy }

def processTagProbe (cfg : CacheConfig) (cache : DataCache) (pool : MfPool)
    (probeStatus : CacheRequestStatus) (addr : Nat) (cacheIndex : Option Nat) (mf : MfId) (time : Nat) :
    Except CacheFault AccessResult :=
  match probeStatus with
  | .hit => cache.rdHitBase cfg pool addr cacheIndex mf time
  | .reservationFail => .ok ⟨.reservationFail, [], cache, pool⟩
  | _ => cache.rdMissBase cfg pool addr cacheIndex mf time

def access (cfg : CacheConfig) (cache : DataCache) (pool : MfPool) (addr : Nat) (mf : MfId)
    (time : Nat) : Except CacheFault AccessResult := do
  let request := pool.get mf
  if cfg.atomSize < request.dataSize then throw .assertion
  if request.isWrite then throw .writeAccess
  let (probeStatus, cacheIndex) ← cache.tagArray.probe cfg (cfg.blockAddr addr) request true
  let result ← cache.processTagProbe cfg pool probeStatus addr cacheIndex mf time
  return { result with cache := useDataPort cfg result (result.pool.get mf).dataSize }

/-- The tag array once the data of a pending request has come back. -/
def fillTags (cfg : CacheConfig) (tagArray : TagArray) (extra : ExtraMfFields) (request : MemFetch)
    (time : Nat) : Except CacheFault TagArray :=
  match cfg.allocPolicy, extra.cacheIndex with
  | .onMiss, some index => tagArray.fillIndex cfg index request
  | .onMiss, none => .error .abort
  | .onFill, _ => do
      let filled ← tagArray.fillAddr cfg extra.blockAddr time request
      return (if cfg.isStreaming then filled.removePendingLine cfg request else filled)

/-- An atomic operation among the requests marks the line dirty. -/
def markAtomic (cfg : CacheConfig) (tagArray : TagArray) (extra : ExtraMfFields) (request : MemFetch)
    (hasAtomic : Bool) : Except CacheFault TagArray :=
  if hasAtomic then
    match cfg.allocPolicy, extra.cacheIndex with
    | .onMiss, some index => do
        let block ← (tagArray.lines index).setStatus .modified request.sectorMask
        return tagArray.setLine index block
    | _, _ => .error .assertion
  else .ok tagArray

/-- The part of `fill` after a split request has been put together. -/
def completeFill (cfg : CacheConfig) (cache : DataCache) (pool : MfPool) (mf : MfId) (time : Nat) :
    Except CacheFault (DataCache × MfPool) :=
  match cache.extraMfFields mf with
  | none => .error .assertion
  | some extra => do
      let pool := pool.modify mf fun request => (request.setDataSize extra.dataSize).setAddr extra.addr
      let filled ← fillTags cfg cache.tagArray extra (pool.get mf) time
      let (hasAtomic, mshrs) ← cache.mshrs.markReady extra.blockAddr
      let tagArray ← markAtomic cfg filled extra (pool.get mf) hasAtomic
      return ({ cache with
        tagArray
        mshrs
        extraMfFields := Function.update cache.extraMfFields mf none
        fillPortOccupiedCycles := cache.fillPortOccupiedCycles + cfg.atomSize / cfg.dataPortWidth }, pool)

/-- With sector registers the answer is credited to the request it was split from. -/
def fill (cfg : CacheConfig) (cache : DataCache) (pool : MfPool) (mf : MfId) (time : Nat) :
    Except CacheFault (DataCache × MfPool) :=
  match cfg.mshrType with
  | .assoc => cache.completeFill cfg pool mf time
  | .sectorAssoc =>
      match (pool.get mf).originalMf with
      | none => .error .assertion
      | some original =>
          match cache.extraMfFields (.original original) with
          | none => .error .assertion
          | some extra =>
              let pendingRead := (extra.pendingRead + 2 ^ 32 - 1) % 2 ^ 32
              let counted := { cache with
                extraMfFields := Function.update cache.extraMfFields (.original original)
                  (some { extra with pendingRead }) }
              if pendingRead > 0 then .ok (counted, pool)
              else counted.completeFill cfg pool (.original original) time

def accessReady (cache : DataCache) : Bool := cache.mshrs.accessReady

def nextAccess (cache : DataCache) : Except CacheFault (MfId × DataCache) := do
  let (mf, mshrs) ← cache.mshrs.nextAccess
  return (mf, { cache with mshrs })

def replenishPortBandwidth (cache : DataCache) : DataCache :=
  { cache with
    dataPortOccupiedCycles := cache.dataPortOccupiedCycles - 1
    fillPortOccupiedCycles := cache.fillPortOccupiedCycles - 1 }

end DataCache

end GpgpuSim.Cache
