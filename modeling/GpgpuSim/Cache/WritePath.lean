import GpgpuSim.Cache.DataCache

/-! Caches that take writes, and read-only caches. What a write does to a line it hits
is chosen by the write policy, what it does on a miss by the write-allocate policy. -/
namespace GpgpuSim.Cache
open GpgpuSim.Memory Transition

inductive WriteAllocatePolicy
  | noWriteAllocate
  | writeAllocate
  | fetchOnWrite
  | lazyFetchOnRead
  deriving DecidableEq, Repr

/-- The configuration of a `data_cache`, with the types of the requests it makes itself,
which are arguments of its constructor, and the chip and sub partition of an address. -/
structure DataCacheConfig extends CacheConfig where
  writeAllocPolicy : WriteAllocatePolicy
  wrAllocType : MemAccessType
  wrbkType : MemAccessType
  addrdecTlx : Nat → Nat × Nat := fun _ => (0, 0)

/-- The configurations that `cache_config::init` accepts; of the data port it only says
that its width divides the line. -/
structure DataCacheConfig.Accepted (cfg : DataCacheConfig) : Prop where
  writeBack : cfg.writePolicy = .writeBack → cfg.allocPolicy = .onMiss
  fetch : cfg.writeAllocPolicy = .fetchOnWrite ∨ cfg.writeAllocPolicy = .lazyFetchOnRead →
    cfg.allocPolicy = .onMiss
  streaming : cfg.isStreaming → cfg.allocPolicy = .onFill
  sector : cfg.cacheType = .sector → cfg.lineSize = sectorChunckSize * sectorSize
  port : cfg.lineSize % cfg.dataPortWidth = 0

/-- `count` of a bit mask. -/
def maskCount {n : Nat} (mask : BitVec n) : Nat := (List.range n).countP fun i => mask.getLsbD i

namespace TagArray

/-- The `access` that asserts that nothing is written back. -/
def accessNoWriteBack (cfg : CacheConfig) (tags : TagArray) (addr time : Nat) (index : Option Nat) (mf : MemFetch) :
    Except CacheFault (CacheRequestStatus × Option Nat × TagArray) := do
  let (status, index, tags, evicted) ← tags.access cfg addr time index mf
  if evicted.isSome then throw .assertion
  return (status, index, tags)

/-- Changes the block that `get_block` gives; an unset index is outside the array. -/
def modifyBlock (tags : TagArray) (index : Option Nat) (change : CacheBlock → Except CacheFault CacheBlock) :
    Except CacheFault TagArray :=
  match index with
  | none => .error .abort
  | some i => do
      let block ← change (tags.lines i)
      return tags.setLine i block

end TagArray

namespace MshrTable

/-- `is_read_after_write_pending`: a read waits behind a write. -/
def isReadAfterWritePending (table : MshrTable) (pool : MfPool) (blockAddr : Nat) : Bool :=
  ((table.list blockAddr).dropWhile fun mf => !(pool.get mf).isWrite).any fun mf => !(pool.get mf).isWrite

end MshrTable

namespace DataCache

/-- `send_write_request`, of a write or a write-back. -/
def sendWriteRequest (mf : MfId) (event : CacheEvent) (result : AccessResult) : AccessResult :=
  { result with
    events := result.events ++ [event]
    cache := { result.cache with missQueue := result.cache.missQueue ++ [mf] } }

/-- The write-back of an evicted block that was not written through, routed as `request`. -/
def sendWriteBack (cfg : DataCacheConfig) (evicted : Option EvictedBlockInfo) (request : MemFetch)
    (result : AccessResult) : AccessResult :=
  match evicted with
  | none => result
  | some evicted =>
      if cfg.writePolicy ≠ .writeThrough then
        let (wb, pool) := result.pool.alloc (writeBackRequest evicted request cfg.wrbkType)
        sendWriteRequest wb { type := .writeBackRequestSent, evictedBlock := evicted } { result with pool }
      else result

/-- The read request for a written block, with the masks of the write. -/
def writeAllocateRequest (cfg : DataCacheConfig) (mf : MemFetch) : MemFetch where
  accessType := cfg.wrAllocType
  addr := mf.addr
  dataSize := cfg.atomSize
  subPartitionId := (cfg.addrdecTlx mf.addr).2
  chip := (cfg.addrdecTlx mf.addr).1
  sectorMask := mf.sectorMask
  byteMask := mf.byteMask
  warpMask := mf.warpMask

/-- A new read request; one that will come back in parts is named as an original. -/
def allocRead (cfg : CacheConfig) (pool : MfPool) (fields : MemFetch) : MfId × MfPool :=
  let mf : MfId :=
    match cfg.mshrType with
    | .assoc => .request pool.nextSerial
    | .sectorAssoc => .original pool.nextSerial
  (mf, { get := Function.update pool.get mf fields, nextSerial := pool.nextSerial + 1 })

/-! ## Write hits -/

def wrHitWb (cfg : DataCacheConfig) (cache : DataCache) (pool : MfPool) (addr : Nat) (cacheIndex : Option Nat)
    (mf : MfId) (time : Nat) : Except CacheFault AccessResult := do
  let request := pool.get mf
  let (_, index, tagArray) ←
    cache.tagArray.accessNoWriteBack cfg.toCacheConfig (cfg.blockAddr addr) time cacheIndex request
  let tagArray ← tagArray.modifyBlock index fun block => block.setStatus .modified request.sectorMask
  return ⟨.hit, [], { cache with tagArray }, pool⟩

def wrHitWt (cfg : DataCacheConfig) (cache : DataCache) (pool : MfPool) (addr : Nat) (cacheIndex : Option Nat)
    (mf : MfId) (time : Nat) : Except CacheFault AccessResult :=
  if cache.missQueueFull cfg.toCacheConfig 0 then .ok ⟨.reservationFail, [], cache, pool⟩
  else do
    let request := pool.get mf
    let (_, index, tagArray) ←
      cache.tagArray.accessNoWriteBack cfg.toCacheConfig (cfg.blockAddr addr) time cacheIndex request
    let tagArray ← tagArray.modifyBlock index fun block => block.setStatus .modified request.sectorMask
    return sendWriteRequest mf { type := .writeRequestSent } ⟨.hit, [], { cache with tagArray }, pool⟩

def wrHitWe (cfg : DataCacheConfig) (cache : DataCache) (pool : MfPool) (cacheIndex : Option Nat) (mf : MfId) :
    Except CacheFault AccessResult :=
  if cache.missQueueFull cfg.toCacheConfig 0 then .ok ⟨.reservationFail, [], cache, pool⟩
  else do
    let tagArray ← cache.tagArray.modifyBlock cacheIndex fun block =>
      block.setStatus .invalid (pool.get mf).sectorMask
    return sendWriteRequest mf { type := .writeRequestSent } ⟨.hit, [], { cache with tagArray }, pool⟩

/-- `wr_hit_global_we_local_wb`. -/
def wrHitGlobalWeLocalWb (cfg : DataCacheConfig) (cache : DataCache) (pool : MfPool) (addr : Nat)
    (cacheIndex : Option Nat) (mf : MfId) (time : Nat) : Except CacheFault AccessResult :=
  if (pool.get mf).accessType = .globalAccW then cache.wrHitWe cfg pool cacheIndex mf
  else cache.wrHitWb cfg pool addr cacheIndex mf time

/-- The function that `init` stores in `m_wr_hit`. -/
def wrHit (cfg : DataCacheConfig) (cache : DataCache) (pool : MfPool) (addr : Nat) (cacheIndex : Option Nat)
    (mf : MfId) (time : Nat) : Except CacheFault AccessResult :=
  match cfg.writePolicy with
  | .readOnly => .error .assertion
  | .writeBack => cache.wrHitWb cfg pool addr cacheIndex mf time
  | .writeThrough => cache.wrHitWt cfg pool addr cacheIndex mf time
  | .writeEvict => cache.wrHitWe cfg pool cacheIndex mf
  | .localWbGlobalWt => cache.wrHitGlobalWeLocalWb cfg pool addr cacheIndex mf time

/-! ## Write misses -/

def wrMissNoWa (cfg : DataCacheConfig) (cache : DataCache) (pool : MfPool) (mf : MfId) :
    Except CacheFault AccessResult :=
  if cache.missQueueFull cfg.toCacheConfig 0 then .ok ⟨.reservationFail, [], cache, pool⟩
  else .ok (sendWriteRequest mf { type := .writeRequestSent } ⟨.miss, [], cache, pool⟩)

/-- Whether the registers or the miss queue have no room for a read of the block. -/
def readRefused (cfg : CacheConfig) (cache : DataCache) (mshrAddr numMiss : Nat) : Bool :=
  let mshrHit := cache.mshrs.probe mshrAddr
  let mshrAvail := !cache.mshrs.full cfg mshrAddr
  cache.missQueueFull cfg numMiss ||
    (!(mshrHit && mshrAvail) && !(!mshrHit && mshrAvail && decide (cache.missQueue.length < cfg.missQueueSize)))

/-- A refusal, for one of the reasons the code distinguishes. -/
def refuseRead (cfg : CacheConfig) (cache : DataCache) (pool : MfPool) (mshrAddr numMiss : Nat) :
    Except CacheFault AccessResult :=
  if cache.missQueueFull cfg numMiss || cache.mshrs.full cfg mshrAddr then .ok ⟨.reservationFail, [], cache, pool⟩
  else .error .deadBranch

/-- `wr_miss_wa_naive`: sends the write and a read request for its block. -/
def wrMissWaNaive (cfg : DataCacheConfig) (cache : DataCache) (pool : MfPool) (addr : Nat) (cacheIndex : Option Nat)
    (mf : MfId) (time : Nat) (status : CacheRequestStatus) : Except CacheFault AccessResult :=
  let request := pool.get mf
  let mshrAddr := cfg.mshrAddr request.addr
  if cache.readRefused cfg.toCacheConfig mshrAddr 2 then cache.refuseRead cfg.toCacheConfig pool mshrAddr 2
  else do
    let written := sendWriteRequest mf { type := .writeRequestSent } ⟨.miss, [], cache, pool⟩
    let (newMf, pool) := allocRead cfg.toCacheConfig written.pool (writeAllocateRequest cfg request)
    let events := written.events ++ [{ type := .writeAllocateSent }]
    match ← written.cache.sendReadRequest cfg.toCacheConfig pool (cfg.blockAddr addr) cacheIndex newMf time with
    | none => return ⟨.reservationFail, events, written.cache, pool⟩
    | some sent =>
        if sent.evicted.isSome && cfg.writePolicy != .writeThrough && status != .miss then throw .assertion
        return sendWriteBack cfg sent.evicted request ⟨.miss, events, sent.cache, sent.pool⟩

/-- Whether a write covers the whole line or sector. -/
def isFullWrite (cfg : CacheConfig) (request : MemFetch) : Bool := maskCount request.byteMask == cfg.atomSize

/-- The branch of `wr_miss_wa_fetch_on_write` for a write of a whole line or sector. -/
def writeWhole (cfg : DataCacheConfig) (cache : DataCache) (pool : MfPool) (addr : Nat) (cacheIndex : Option Nat)
    (mf : MfId) (time : Nat) : Except CacheFault AccessResult :=
  let request := pool.get mf
  if cache.missQueueFull cfg.toCacheConfig 0 then .ok ⟨.reservationFail, [], cache, pool⟩
  else do
    let (status, index, tagArray, evicted) ←
      cache.tagArray.access cfg.toCacheConfig (cfg.blockAddr addr) time cacheIndex request
    if status = .hit then throw .assertion
    let tagArray ← tagArray.modifyBlock index fun block => block.setStatus .modified request.sectorMask
    if status ≠ .reservationFail then
      return sendWriteBack cfg evicted request ⟨.miss, [], { cache with tagArray }, pool⟩
    else return ⟨.reservationFail, [], { cache with tagArray }, pool⟩

/-- The branch of `wr_miss_wa_fetch_on_write` for a partial write, which fetches the rest. -/
def writePart (cfg : DataCacheConfig) (cache : DataCache) (pool : MfPool) (addr : Nat) (cacheIndex : Option Nat)
    (mf : MfId) (time : Nat) : Except CacheFault AccessResult :=
  let request := pool.get mf
  let mshrAddr := cfg.mshrAddr request.addr
  if cache.readRefused cfg.toCacheConfig mshrAddr 1 then cache.refuseRead cfg.toCacheConfig pool mshrAddr 1
  else if cache.mshrs.probe mshrAddr && cache.mshrs.isReadAfterWritePending pool mshrAddr && request.isWrite then
    .ok ⟨.reservationFail, [], cache, pool⟩
  else do
    let (newMf, pool) := allocRead cfg.toCacheConfig pool (writeAllocateRequest cfg request)
    match ← cache.sendReadRequest cfg.toCacheConfig pool (cfg.blockAddr addr) cacheIndex newMf time with
    | none =>
        let tagArray ← cache.tagArray.modifyBlock cacheIndex fun block =>
          block.setModifiedOnFill true request.sectorMask
        return ⟨.reservationFail, [{ type := .writeAllocateSent }], { cache with tagArray }, pool⟩
    | some sent =>
        let tagArray ← sent.cache.tagArray.modifyBlock sent.index fun block =>
          block.setModifiedOnFill true request.sectorMask
        return sendWriteBack cfg sent.evicted request
          ⟨.miss, [{ type := .writeAllocateSent }], { sent.cache with tagArray }, sent.pool⟩

/-- `wr_miss_wa_fetch_on_write`. -/
def wrMissWaFetchOnWrite (cfg : DataCacheConfig) (cache : DataCache) (pool : MfPool) (addr : Nat)
    (cacheIndex : Option Nat) (mf : MfId) (time : Nat) : Except CacheFault AccessResult :=
  if isFullWrite cfg.toCacheConfig (pool.get mf) then cache.writeWhole cfg pool addr cacheIndex mf time
  else cache.writePart cfg pool addr cacheIndex mf time

/-- What a lazy write does to its block: a later read fetches what it left out. -/
def writeLazily (cfg : CacheConfig) (status : CacheRequestStatus) (request : MemFetch) (block : CacheBlock) :
    Except CacheFault CacheBlock := do
  let block ← block.setStatus .modified request.sectorMask
  let block ← if status = .hitReserved then block.setModifiedOnFill true request.sectorMask else pure block
  block.setReadable (isFullWrite cfg request) request.sectorMask

/-- `wr_miss_wa_lazy_fetch_on_read`. -/
def wrMissWaLazyFetchOnRead (cfg : DataCacheConfig) (cache : DataCache) (pool : MfPool) (addr : Nat)
    (cacheIndex : Option Nat) (mf : MfId) (time : Nat) : Except CacheFault AccessResult :=
  let request := pool.get mf
  if cache.missQueueFull cfg.toCacheConfig 0 then .ok ⟨.reservationFail, [], cache, pool⟩
  else do
    let (status, index, tagArray, evicted) ←
      cache.tagArray.access cfg.toCacheConfig (cfg.blockAddr addr) time cacheIndex request
    if status = .hit then throw .assertion
    let tagArray ← tagArray.modifyBlock index (writeLazily cfg.toCacheConfig status request)
    if status ≠ .reservationFail then
      return sendWriteBack cfg evicted request ⟨.miss, [], { cache with tagArray }, pool⟩
    else return ⟨.reservationFail, [], { cache with tagArray }, pool⟩

/-- The function that `init` stores in `m_wr_miss`. -/
def wrMiss (cfg : DataCacheConfig) (cache : DataCache) (pool : MfPool) (addr : Nat) (cacheIndex : Option Nat)
    (mf : MfId) (time : Nat) (status : CacheRequestStatus) : Except CacheFault AccessResult :=
  match cfg.writeAllocPolicy with
  | .noWriteAllocate => cache.wrMissNoWa cfg pool mf
  | .writeAllocate => cache.wrMissWaNaive cfg pool addr cacheIndex mf time status
  | .fetchOnWrite => cache.wrMissWaFetchOnWrite cfg pool addr cacheIndex mf time
  | .lazyFetchOnRead => cache.wrMissWaLazyFetchOnRead cfg pool addr cacheIndex mf time

/-! ## Accesses -/

namespace ReadWrite

/-- `process_tag_probe`, but for the use of the data port. -/
def processTagProbe (cfg : DataCacheConfig) (cache : DataCache) (pool : MfPool) (probeStatus : CacheRequestStatus)
    (addr : Nat) (cacheIndex : Option Nat) (mf : MfId) (time : Nat) : Except CacheFault AccessResult :=
  if (pool.get mf).isWrite then
    if probeStatus = .hit then cache.wrHit cfg pool addr cacheIndex mf time
    else if probeStatus ≠ .reservationFail ∨ cfg.writeAllocPolicy = .noWriteAllocate then
      cache.wrMiss cfg pool addr cacheIndex mf time probeStatus
    else .ok ⟨.reservationFail, [], cache, pool⟩
  else if probeStatus = .hit then cache.rdHitBase cfg.toCacheConfig pool addr cacheIndex mf time
  else if probeStatus ≠ .reservationFail then
    cache.rdMissBase cfg.toCacheConfig pool addr cacheIndex mf time cfg.wrbkType
  else .ok ⟨.reservationFail, [], cache, pool⟩

/-- `access` of a `data_cache`. -/
def access (cfg : DataCacheConfig) (cache : DataCache) (pool : MfPool) (addr : Nat) (mf : MfId) (time : Nat) :
    Except CacheFault AccessResult := do
  let request := pool.get mf
  if cfg.atomSize < request.dataSize then throw .assertion
  let (probeStatus, cacheIndex) ← cache.tagArray.probe cfg.toCacheConfig (cfg.blockAddr addr) request true
  let result ← processTagProbe cfg cache pool probeStatus addr cacheIndex mf time
  return { result with cache := useDataPort cfg.toCacheConfig result (result.pool.get mf).dataSize }

end ReadWrite

/-- The read of a `read_only_cache`, which never evicts a modified line. -/
def readOnlyMiss (cfg : CacheConfig) (cache : DataCache) (pool : MfPool) (addr : Nat) (cacheIndex : Option Nat)
    (mf : MfId) (time : Nat) : Except CacheFault AccessResult :=
  if cache.missQueueFull cfg 0 then .ok ⟨.reservationFail, [], cache, pool⟩
  else do
    match ← cache.sendReadRequest cfg pool (cfg.blockAddr addr) cacheIndex mf time with
    | none => return ⟨.reservationFail, [], cache, pool⟩
    | some sent =>
        if sent.evicted.isSome then throw .assertion
        return ⟨.miss, sent.events, sent.cache, sent.pool⟩

/-- `access` of a `read_only_cache`. -/
def readOnlyAccess (cfg : CacheConfig) (cache : DataCache) (pool : MfPool) (addr : Nat) (mf : MfId) (time : Nat) :
    Except CacheFault AccessResult := do
  let request := pool.get mf
  if cfg.atomSize < request.dataSize then throw .assertion
  if cfg.writePolicy ≠ .readOnly then throw .assertion
  if request.isWrite then throw .assertion
  let (status, cacheIndex) ← cache.tagArray.probe cfg (cfg.blockAddr addr) request false
  match status with
  | .hit =>
      let (status, _, tagArray) ← cache.tagArray.accessNoWriteBack cfg (cfg.blockAddr addr) time cacheIndex request
      return ⟨status, [], { cache with tagArray }, pool⟩
  | .reservationFail => return ⟨.reservationFail, [], cache, pool⟩
  | _ => cache.readOnlyMiss cfg pool addr cacheIndex mf time

end DataCache

end GpgpuSim.Cache
