import GpgpuSim.Cache.LineStates
import GpgpuSim.Cache.Requests

/-! What an access of a `data_cache` or a `read_only_cache` does: to the sectors of
one line, to the registers and to the miss queue. -/
namespace GpgpuSim.Cache
open GpgpuSim.Memory Transition

inductive CacheKind
  | data
  | readOnly
  deriving DecidableEq, Repr

/-- The `access` of either kind of cache. -/
def CacheKind.access (kind : CacheKind) (cfg : DataCacheConfig) (cache : DataCache) (pool : MfPool) (mf : MfId)
    (time : Nat) : Except CacheFault AccessResult :=
  match kind with
  | .data => DataCache.ReadWrite.access cfg cache pool (pool.get mf).addr mf time
  | .readOnly => cache.readOnlyAccess cfg.toCacheConfig pool (pool.get mf).addr mf time

/-- The writes that change their sector although it is not present. -/
def storesOnMiss (cfg : DataCacheConfig) (request : MemFetch) : Bool :=
  match cfg.writeAllocPolicy with
  | .lazyFetchOnRead => true
  | .fetchOnWrite => DataCache.isFullWrite cfg.toCacheConfig request
  | .noWriteAllocate | .writeAllocate => false

/-- Whether an access that misses gets as far as asking for its block. -/
def sendsRead (kind : CacheKind) (cfg : DataCacheConfig) (cache : DataCache) (pool : MfPool) (mf : MfId) : Bool :=
  let request := pool.get mf
  let mshrAddr := cfg.mshrAddr request.addr
  match kind with
  | .readOnly => !cache.missQueueFull cfg.toCacheConfig 0
  | .data =>
      if request.isWrite then
        match cfg.writeAllocPolicy with
        | .writeAllocate => !cache.readRefused cfg.toCacheConfig mshrAddr 2
        | .fetchOnWrite =>
            !DataCache.isFullWrite cfg.toCacheConfig request && !cache.readRefused cfg.toCacheConfig mshrAddr 1 &&
              !(cache.mshrs.probe mshrAddr && cache.mshrs.isReadAfterWritePending pool mshrAddr)
        | .noWriteAllocate | .lazyFetchOnRead => false
      else !cache.missQueueFull cfg.toCacheConfig 1

/-- A read in the registers: it joins the entry of its block, or it is sent and
remembers the line. -/
inductive Registered (cfg : CacheConfig) (cache : DataCache) (addr : Nat) (mf : MfId) (index : Option Nat)
    (next : DataCache) : Prop
  | merged (isAtomic : Bool) (known : cache.mshrs.probe (cfg.mshrAddr addr) = true)
      (room : cache.mshrs.full cfg (cfg.mshrAddr addr) = false)
      (added : cache.mshrs.add cfg (cfg.mshrAddr addr) mf isAtomic = .ok next.mshrs)
      (extras : next.extraMfFields = cache.extraMfFields)
  | primary (isAtomic : Bool) (extra : ExtraMfFields) (unknown : cache.mshrs.probe (cfg.mshrAddr addr) = false)
      (added : cache.mshrs.add cfg (cfg.mshrAddr addr) mf isAtomic = .ok next.mshrs)
      (extras : next.extraMfFields = Function.update cache.extraMfFields mf (some extra))
      (blockAddr : extra.blockAddr = cfg.mshrAddr addr) (at_addr : extra.addr = addr)
      (cacheIndex : extra.cacheIndex = index)

/-- A write-back that was not there before is the last entry of the miss queue. -/
structure WroteBack (cfg : DataCacheConfig) (cache : DataCache) (pool : MfPool) (request : MemFetch)
    (evicted : EvictedBlockInfo) (next : DataCache) (pool' : MfPool) (wb : MfId) : Prop where
  queued : ∃ front, next.missQueue = cache.missQueue ++ front ++ [wb]
  fresh : pool.nextSerial ≤ wb.serial
  fields : pool'.get wb = DataCache.writeBackRequest evicted request cfg.wrbkType


/-- A write-back is sent for a block that is not written through. -/
def Disposed (cfg : DataCacheConfig) (cache : DataCache) (pool : MfPool) (request : MemFetch) (result : AccessResult) :
    Option EvictedBlockInfo → Prop
  | none => True
  | some evicted => cfg.writePolicy ≠ .writeThrough →
      ∃ wb, WroteBack cfg cache pool request evicted result.cache result.pool wb

structure SameRegisters (cache before : DataCache) : Prop where
  mshrs : cache.mshrs = before.mshrs
  extraMfFields : cache.extraMfFields = before.extraMfFields

/-- The outcomes of an access to sector `c`. -/
inductive Effect (kind : CacheKind) (cfg : DataCacheConfig) (cache : DataCache) (pool : MfPool) (mf : MfId) (c : Nat)
    (result : AccessResult) : Prop
  /-- No line changes; a write that is accepted goes on. -/
  | unchanged (view : result.cache.tagArray.view = cache.tagArray.view) (same : SameRegisters result.cache cache)
      (still : result.cache.tagArray = cache.tagArray ∨ ∃ line,
        cache.tagArray.probe cfg.toCacheConfig (cfg.blockAddr (pool.get mf).addr) (pool.get mf) false =
          .ok (.hit, line))
      (sent : (pool.get mf).isWrite → result.status ≠ .reservationFail → wasWriteSent result.events)
  /-- A write or an atomic operation hits. -/
  | written (i : Nat)
      (found : cache.tagArray.probe cfg.toCacheConfig (cfg.blockAddr (pool.get mf).addr) (pool.get mf) false =
        .ok (.hit, some i))
      (probed : TagArray.Probed cfg.toCacheConfig cache.tagArray.view (cfg.blockAddr (pool.get mf).addr) c .hit
        (some i))
      (view : result.cache.tagArray.view =
        Function.update cache.tagArray.view i ((cache.tagArray.view i).setStatus c .modified))
      (same : SameRegisters result.cache cache)
  /-- A write hits, goes on and takes the sector out. -/
  | writeEvicted (i : Nat)
      (found : cache.tagArray.probe cfg.toCacheConfig (cfg.blockAddr (pool.get mf).addr) (pool.get mf) false =
        .ok (.hit, some i))
      (probed : TagArray.Probed cfg.toCacheConfig cache.tagArray.view (cfg.blockAddr (pool.get mf).addr) c .hit
        (some i))
      (policy : cfg.writePolicy = .writeEvict ∨
        cfg.writePolicy = .localWbGlobalWt ∧ (pool.get mf).accessType = .globalAccW)
      (sent : wasWriteSent result.events)
      (view : result.cache.tagArray.view =
        Function.update cache.tagArray.view i ((cache.tagArray.view i).setStatus c .invalid))
      (same : SameRegisters result.cache cache)
  /-- A read is sent, or waits for one that is; a partial write will be put into its data. -/
  | fetched (r : MfId) (i : Nat) (status : CacheRequestStatus) (middle : Nat → Sectors)
      (evicted : Option EvictedBlockInfo)
      (reader : r = mf ∨ pool.nextSerial ≤ r.serial ∧ r.serial < result.pool.nextSerial)
      (sends : sendsRead kind cfg cache pool mf)
      (probed : cache.tagArray.probe cfg.toCacheConfig (cfg.blockAddr (pool.get mf).addr) (pool.get mf) false =
        .ok (status, some i))
      (no_hit : status ≠ .hit) (room : status ≠ .reservationFail)
      (touched : TagArray.Touched cfg.toCacheConfig cache.tagArray (cfg.blockAddr (pool.get mf).addr) c status (some i)
        middle evicted)
      (view : result.cache.tagArray.view = middle ∧ ((pool.get mf).isWrite → wasWriteSent result.events) ∨
        cfg.writeAllocPolicy = .fetchOnWrite ∧
          result.cache.tagArray.view = Function.update middle i ((middle i).setOnFill c true))
      (registered : Registered cfg.toCacheConfig cache (pool.get mf).addr r (some i) result.cache)
      (sectorMask : (result.pool.get r).sectorMask = (pool.get mf).sectorMask)
      (disposed : Disposed cfg cache pool (pool.get mf) result evicted)
  /-- A write is stored in a sector that was not present. -/
  | stored (i : Nat) (status : CacheRequestStatus) (middle : Nat → Sectors) (evicted : Option EvictedBlockInfo)
      (write : (pool.get mf).isWrite) (stores : storesOnMiss cfg (pool.get mf))
      (queue_room : cache.missQueueFull cfg.toCacheConfig 0 = false)
      (probed : cache.tagArray.probe cfg.toCacheConfig (cfg.blockAddr (pool.get mf).addr) (pool.get mf) false =
        .ok (status, some i))
      (no_hit : status ≠ .hit) (room : status ≠ .reservationFail)
      (touched : TagArray.Touched cfg.toCacheConfig cache.tagArray (cfg.blockAddr (pool.get mf).addr) c status (some i)
        middle evicted)
      (view : result.cache.tagArray.view = Function.update middle i ((middle i).setStatus c .modified) ∨
        result.cache.tagArray.view =
          Function.update middle i (((middle i).setStatus c .modified).setOnFill c true))
      (same : SameRegisters result.cache cache)
      (disposed : Disposed cfg cache pool (pool.get mf) result evicted)

/-! ## Parts of an access -/

namespace TagArray

variable {cfg : CacheConfig} {tags : TagArray} {addr : Nat} {mf : MemFetch}

/-- An access looks at the sectors of its request only. -/
theorem probe_sectorMask {other : MemFetch} (same : other.sectorMask = mf.sectorMask) :
    tags.probe cfg addr other false = tags.probe cfg addr mf false := by
  simp only [probe, same, Bool.false_and, Bool.false_eq_true, if_false]

theorem view_addPendingLine : (tags.addPendingLine cfg mf).view = tags.view := by
  unfold addPendingLine
  dsimp only
  split <;> rfl

theorem Typed.addPendingLine (typed : tags.Typed cfg) : (tags.addPendingLine cfg mf).Typed cfg := by
  unfold TagArray.addPendingLine
  dsimp only
  split <;> exact typed

end TagArray

theorem CacheConfig.tag_blockAddr (cfg : CacheConfig) (addr : Nat) :
    cfg.tag (cfg.blockAddr addr) = cfg.blockAddr addr := by
  simp only [CacheConfig.tag, CacheConfig.blockAddr, CacheConfig.align, Nat.and_assoc, Nat.and_self]

namespace DataCache

variable {cfg : CacheConfig} {cache : DataCache} {pool : MfPool} {mf : MfId} {time addr c : Nat}
  {index line : Option Nat} {status : CacheRequestStatus}

/-- Nothing is sent for want of room in the registers only. -/
theorem full_of_sendReadRequest (done : cache.sendReadRequest cfg pool addr index mf time = .ok none) :
    cache.mshrs.full cfg (cfg.mshrAddr (pool.get mf).addr) = true := by
  simp only [sendReadRequest] at done
  split at done
  · obtain ⟨_, -, done⟩ := bind_ok.mp done
    obtain ⟨_, -, done⟩ := bind_ok.mp done
    cases done
  · split at done
    · obtain ⟨_, -, done⟩ := bind_ok.mp done
      obtain ⟨_, -, done⟩ := bind_ok.mp done
      cases done
    · split at done
      next full => simpa using full
      next => cases done

/-- A sent read, by what it does to the lines and to the registers. -/
structure Sent (cfg : CacheConfig) (cache : DataCache) (pool : MfPool) (addr c : Nat) (mf : MfId)
    (status : CacheRequestStatus) (i : Nat) (sent : SentRead) : Prop where
  index : sent.index = some i
  typed : sent.cache.tagArray.Typed cfg
  touched : TagArray.Touched cfg cache.tagArray addr c status (some i) sent.cache.tagArray.view sent.evicted
  registered : Registered cfg cache (pool.get mf).addr mf (some i) sent.cache
  extends_pool : sent.pool.Extends pool
  sectorMask : (sent.pool.get mf).sectorMask = (pool.get mf).sectorMask
  queued : ∃ front, sent.cache.missQueue = cache.missQueue ++ front
  routed : ∀ evicted wrbkType,
    writeBackRequest evicted (sent.pool.get mf) wrbkType = writeBackRequest evicted (pool.get mf) wrbkType

theorem sendReadRequest_sent {sent : SentRead}
    (done : cache.sendReadRequest cfg pool addr index mf time = .ok (some sent))
    (typed : cache.tagArray.Typed cfg) (cell : cfg.cell (pool.get mf).sectorMask = .ok c)
    (probed : cache.tagArray.probe cfg addr (pool.get mf) false = .ok (status, line))
    (room : status ≠ .reservationFail) :
    ∃ i, line = some i ∧ Sent cfg cache pool addr c mf status i sent := by
  have line_of : ∀ {status' found tags evicted},
      cache.tagArray.access cfg addr time index (pool.get mf) = .ok (status', found, tags, evicted) →
      ∃ i, line = some i ∧ found = some i ∧ tags.Typed cfg ∧
        TagArray.Touched cfg cache.tagArray addr c status (some i) tags.view evicted := by
    intro status' found tags evicted accessed
    obtain ⟨line', again, same⟩ := TagArray.access_probe accessed
    rw [probed] at again
    cases again
    obtain ⟨is_typed, touched⟩ := TagArray.access_ok typed cell accessed
    obtain ⟨i, rfl⟩ := touched.exists_line room
    exact ⟨i, (same room).symm, rfl, is_typed, touched⟩
  simp only [sendReadRequest] at done
  split at done
  next merge =>
    simp only [Bool.and_eq_true, Bool.not_eq_true'] at merge
    obtain ⟨⟨_, _, tags, evicted⟩, accessed, done⟩ := bind_ok.mp done
    obtain ⟨mshrs, added, done⟩ := bind_ok.mp done
    cases done
    obtain ⟨i, is_line, rfl, is_typed, touched⟩ := line_of accessed
    exact ⟨i, is_line, rfl, is_typed, touched, .merged _ merge.1 merge.2 added rfl, .refl _, rfl,
      ⟨[], by simp⟩, fun _ _ => rfl⟩
  next =>
    split at done
    next primary =>
      simp only [Bool.and_eq_true, Bool.not_eq_true'] at primary
      obtain ⟨⟨_, _, tags, evicted⟩, accessed, done⟩ := bind_ok.mp done
      obtain ⟨mshrs, added, done⟩ := bind_ok.mp done
      cases done
      obtain ⟨i, is_line, rfl, is_typed, touched⟩ := line_of accessed
      refine ⟨i, is_line, rfl, ?_, ?_, .primary _ _ primary.1.1 added rfl rfl rfl rfl,
        ?_, ?_, ⟨[mf], rfl⟩, ?_⟩
      · dsimp only
        split
        · exact is_typed.addPendingLine
        · exact is_typed
      · dsimp only
        split
        · rw [TagArray.view_addPendingLine]
          exact touched
        · exact touched
      · dsimp only
        refine .modify pool mf ?_
        exact fun _ => rfl
      · dsimp only
        rw [MfPool.get_modify_self]
        rfl
      · intro evicted wrbkType
        dsimp only
        rw [MfPool.get_modify_self]
        rfl
    next => split at done <;> cases done

end DataCache


/-! ## The handlers -/

/-- The cache after a handler, and what it has done. -/
structure Handled (kind : CacheKind) (cfg : DataCacheConfig) (cache : DataCache) (pool : MfPool) (mf : MfId) (c : Nat)
    (result : AccessResult) : Prop where
  typed : result.cache.tagArray.Typed cfg.toCacheConfig
  extends_pool : result.pool.Extends pool
  effect : Effect kind cfg cache pool mf c result

theorem SameRegisters.refl (cache : DataCache) : SameRegisters cache cache := ⟨rfl, rfl⟩

theorem Handled.refused {kind : CacheKind} {cfg : DataCacheConfig} {cache : DataCache} {pool : MfPool} {mf : MfId}
    {c : Nat} (typed : cache.tagArray.Typed cfg.toCacheConfig) :
    Handled kind cfg cache pool mf c ⟨.reservationFail, [], cache, pool⟩ where
  typed := typed
  extends_pool := .refl pool
  effect := .unchanged rfl (.refl cache) (.inl rfl) fun _ accepted => absurd rfl accepted

/-- Only the registers of the two caches matter. -/
theorem Registered.congr {cfg : CacheConfig} {cache cache' next next' : DataCache} {addr : Nat} {mf : MfId}
    {index : Option Nat} (registered : Registered cfg cache addr mf index next)
    (before : SameRegisters cache' cache) (after : SameRegisters next' next) :
    Registered cfg cache' addr mf index next' := by
  cases registered with
  | merged isAtomic known room added extras =>
      refine .merged isAtomic ?_ ?_ ?_ ?_
      · rw [before.mshrs, known]
      · rw [before.mshrs, room]
      · rw [before.mshrs, after.mshrs, added]
      · rw [before.extraMfFields, after.extraMfFields, extras]
  | primary isAtomic extra unknown added extras blockAddr at_addr cacheIndex =>
      refine .primary isAtomic extra ?_ ?_ ?_ blockAddr at_addr cacheIndex
      · rw [before.mshrs, unknown]
      · rw [before.mshrs, after.mshrs, added]
      · rw [before.extraMfFields, after.extraMfFields, extras]

namespace DataCache

variable {cfg : DataCacheConfig} {cache : DataCache} {pool : MfPool} {mf : MfId} {time c : Nat}
  {index line : Option Nat} {status : CacheRequestStatus} {kind : CacheKind} {result : AccessResult}

/-- The result that a write-back may follow. -/
structure SentBack (cfg : DataCacheConfig) (evicted : Option EvictedBlockInfo) (request : MemFetch)
    (base result : AccessResult) : Prop where
  tagArray : result.cache.tagArray = base.cache.tagArray
  same : SameRegisters result.cache base.cache
  status : result.status = base.status
  events : wasWriteSent result.events = wasWriteSent base.events
  extends_pool : result.pool.Extends base.pool
  disposed : ∀ {cache pool front}, base.cache.missQueue = DataCache.missQueue cache ++ front →
    pool.nextSerial ≤ base.pool.nextSerial → Disposed cfg cache pool request result evicted

theorem disposed_alloc {evicted : EvictedBlockInfo} {request : MemFetch} {base : MfPool} (front : List MfId)
    (old : pool.nextSerial ≤ base.nextSerial)
    (pool_eq : result.pool = (base.alloc (writeBackRequest evicted request cfg.wrbkType)).2)
    (queue : result.cache.missQueue = cache.missQueue ++ front ++ [.request base.nextSerial]) :
    Disposed cfg cache pool request result (some evicted) := by
  intro _
  refine ⟨_, ⟨front, queue⟩, old, ?_⟩
  rw [pool_eq, ← MfPool.fst_alloc base (writeBackRequest evicted request cfg.wrbkType), MfPool.get_alloc_self]

theorem sendWriteBack_ok (evicted : Option EvictedBlockInfo) (request : MemFetch) (base : AccessResult) :
    SentBack cfg evicted request base (sendWriteBack cfg evicted request base) := by
  unfold sendWriteBack
  cases evicted with
  | none => exact ⟨rfl, .refl _, rfl, rfl, .refl _, fun _ _ => trivial⟩
  | some evicted =>
      dsimp only
      split
      next =>
        refine ⟨rfl, ⟨rfl, rfl⟩, rfl, ?_, .alloc _ _, ?_⟩
        · simp [sendWriteRequest, wasWriteSent]
        · intro cache pool front queue old
          refine disposed_alloc front old rfl ?_
          simp only [sendWriteRequest, queue, MfPool.fst_alloc]
      next through =>
        refine ⟨rfl, .refl _, rfl, rfl, .refl _, ?_⟩
        intro cache pool front _ _ back
        exact absurd back through

/-- An access to a line that the probe hit finds the line. -/
theorem accessNoWriteBack_hit {found : Option Nat} {tags : TagArray} {status : CacheRequestStatus} {addr : Nat}
    (typed : cache.tagArray.Typed cfg.toCacheConfig) (cell : cfg.cell (pool.get mf).sectorMask = .ok c)
    (probed : cache.tagArray.probe cfg.toCacheConfig addr (pool.get mf) false = .ok (.hit, line))
    (done : cache.tagArray.accessNoWriteBack cfg.toCacheConfig addr time index (pool.get mf) =
      .ok (status, found, tags)) :
    tags.Typed cfg.toCacheConfig ∧ tags.view = cache.tagArray.view ∧ status = .hit ∧
      ∃ i, line = some i ∧ found = some i ∧
        TagArray.Probed cfg.toCacheConfig cache.tagArray.view (cfg.tag addr) c .hit (some i) := by
  obtain ⟨⟨status', found', tags', evicted⟩, accessed, done⟩ := bind_ok.mp done
  obtain ⟨line', again, same⟩ := TagArray.access_probe accessed
  rw [probed] at again
  cases again
  cases evicted with
  | some evicted => cases done
  | none =>
      cases done
      obtain ⟨is_typed, touched⟩ := TagArray.access_ok typed cell accessed
      generalize tags.view = lines at touched
      cases touched with
      | @present _ i probed is_hit => exact ⟨is_typed, rfl, rfl, i, (same (by decide)).symm, rfl, probed⟩
      | unallocated onFill is_miss => rcases is_miss with absurd | absurd <;> cases absurd

section Hits

theorem setStatus_block (status : CacheBlockState) {tags next : TagArray} {found : Option Nat}
    (is_typed : tags.Typed cfg.toCacheConfig) (cell : cfg.cell (pool.get mf).sectorMask = .ok c)
    (done : (tags.modifyBlock found fun block => block.setStatus status (pool.get mf).sectorMask) = .ok next) :
    ∃ i, found = some i ∧ next.Typed cfg.toCacheConfig ∧
      next.view = Function.update tags.view i ((tags.view i).setStatus c status) :=
  TagArray.modifyBlock_ok is_typed (fun block block_typed => block.setStatus_ok block_typed cell status) done

variable (typed : cache.tagArray.Typed cfg.toCacheConfig) (cell : cfg.cell (pool.get mf).sectorMask = .ok c)
include typed cell

theorem wrHitWb_handled
    (probed : cache.tagArray.probe cfg.toCacheConfig (cfg.blockAddr (pool.get mf).addr) (pool.get mf) false =
      .ok (.hit, line))
    (done : cache.wrHitWb cfg pool (pool.get mf).addr index mf time = .ok result) :
    Handled kind cfg cache pool mf c result := by
  obtain ⟨⟨_, found, tags⟩, accessed, done⟩ := bind_ok.mp done
  obtain ⟨next, written, done⟩ := bind_ok.mp done
  cases done
  obtain ⟨is_typed, same_view, -, i, rfl, rfl, sound⟩ := accessNoWriteBack_hit typed cell probed accessed
  obtain ⟨_, ⟨⟩, next_typed, view⟩ := setStatus_block .modified is_typed cell written
  rw [CacheConfig.tag_blockAddr] at sound
  rw [same_view] at view
  exact ⟨next_typed, .refl pool, .written i probed sound view ⟨rfl, rfl⟩⟩

theorem wrHitWt_handled
    (probed : cache.tagArray.probe cfg.toCacheConfig (cfg.blockAddr (pool.get mf).addr) (pool.get mf) false =
      .ok (.hit, line))
    (done : cache.wrHitWt cfg pool (pool.get mf).addr index mf time = .ok result) :
    Handled kind cfg cache pool mf c result := by
  unfold wrHitWt at done
  split at done
  · cases done
    exact .refused typed
  · obtain ⟨⟨_, found, tags⟩, accessed, done⟩ := bind_ok.mp done
    obtain ⟨next, written, done⟩ := bind_ok.mp done
    cases done
    obtain ⟨is_typed, same_view, -, i, rfl, rfl, sound⟩ := accessNoWriteBack_hit typed cell probed accessed
    obtain ⟨_, ⟨⟩, next_typed, view⟩ := setStatus_block .modified is_typed cell written
    rw [CacheConfig.tag_blockAddr] at sound
    rw [same_view] at view
    exact ⟨next_typed, .refl pool, .written i probed sound view ⟨rfl, rfl⟩⟩

theorem wrHitWe_handled (policy : cfg.writePolicy = .writeEvict ∨
      cfg.writePolicy = .localWbGlobalWt ∧ (pool.get mf).accessType = .globalAccW)
    (probed : cache.tagArray.probe cfg.toCacheConfig (cfg.blockAddr (pool.get mf).addr) (pool.get mf) false =
      .ok (.hit, line))
    (sound : TagArray.Probed cfg.toCacheConfig cache.tagArray.view (cfg.blockAddr (pool.get mf).addr) c .hit line)
    (done : cache.wrHitWe cfg pool line mf = .ok result) : Handled kind cfg cache pool mf c result := by
  unfold wrHitWe at done
  split at done
  · cases done
    exact .refused typed
  · obtain ⟨next, written, done⟩ := bind_ok.mp done
    cases done
    obtain ⟨i, rfl, next_typed, view⟩ := setStatus_block .invalid typed cell written
    exact ⟨next_typed, .refl pool, .writeEvicted i probed sound policy rfl view ⟨rfl, rfl⟩⟩

theorem wrHit_handled
    (probed : cache.tagArray.probe cfg.toCacheConfig (cfg.blockAddr (pool.get mf).addr) (pool.get mf) false =
      .ok (.hit, line))
    (done : cache.wrHit cfg pool (pool.get mf).addr line mf time = .ok result) :
    Handled kind cfg cache pool mf c result := by
  have sound : TagArray.Probed cfg.toCacheConfig cache.tagArray.view (cfg.blockAddr (pool.get mf).addr) c .hit
      line := by
    obtain ⟨scanned, sound, rfl | ⟨-, -, not_mode, -⟩⟩ := TagArray.probe_ok typed cell probed
    · rwa [CacheConfig.tag_blockAddr] at sound
    · cases not_mode
  unfold wrHit at done
  split at done
  next => cases done
  next => exact wrHitWb_handled typed cell probed done
  next => exact wrHitWt_handled typed cell probed done
  next evict => exact wrHitWe_handled typed cell (.inl evict) probed sound done
  next mixed =>
    unfold wrHitGlobalWeLocalWb at done
    split at done
    next global => exact wrHitWe_handled typed cell (.inr ⟨mixed, global⟩) probed sound done
    next => exact wrHitWb_handled typed cell probed done

theorem rdHitBase_handled (read : (pool.get mf).isWrite = false)
    (probed : cache.tagArray.probe cfg.toCacheConfig (cfg.blockAddr (pool.get mf).addr) (pool.get mf) false =
      .ok (.hit, line))
    (done : cache.rdHitBase cfg.toCacheConfig pool (pool.get mf).addr index mf time = .ok result) :
    Handled kind cfg cache pool mf c result := by
  obtain ⟨⟨status, found, tags, evicted⟩, accessed, done⟩ := bind_ok.mp done
  dsimp only at done
  cases evicted with
  | some evicted => simp [bind_ok, throw_ok] at done
  | none =>
      have unbacked : cache.tagArray.accessNoWriteBack cfg.toCacheConfig (cfg.blockAddr (pool.get mf).addr) time index
          (pool.get mf) = .ok (status, found, tags) := by
        unfold TagArray.accessNoWriteBack
        rw [accessed]
        rfl
      obtain ⟨is_typed, same_view, -, i, rfl, rfl, sound⟩ := accessNoWriteBack_hit typed cell probed unbacked
      simp only [Option.isSome_none, Bool.false_eq_true, if_false] at done
      split at done
      · split at done
        · simp only [bind_ok, throw_ok, false_and, exists_const] at done
        · obtain ⟨block, made, done⟩ := bind_ok.mp done
          cases done
          obtain ⟨_, ok, block_typed, view⟩ := (tags.lines i).setStatus_ok (is_typed i) cell .modified
          obtain rfl := Except.ok.inj (made.symm.trans ok)
          refine ⟨is_typed.setLine block_typed, .refl pool, .written i probed ?_ ?_ ⟨rfl, rfl⟩⟩
          · rwa [CacheConfig.tag_blockAddr] at sound
          · dsimp only
            rw [TagArray.view_setLine, view, ← same_view]
            rfl
      · cases done
        refine ⟨is_typed, .refl pool, .unchanged same_view ⟨rfl, rfl⟩ (.inr ⟨_, probed⟩) ?_⟩
        intro write
        rw [read] at write
        contradiction

end Hits

/-- A new read request has a number of its own. -/
theorem allocRead_ok (cfg : CacheConfig) (pool : MfPool) (fields : MemFetch) :
    (allocRead cfg pool fields).1.serial = pool.nextSerial ∧
      (allocRead cfg pool fields).2.get (allocRead cfg pool fields).1 = fields ∧
      (allocRead cfg pool fields).2.Extends pool ∧
      (allocRead cfg pool fields).2.nextSerial = pool.nextSerial + 1 := by
  have number : (allocRead cfg pool fields).1.serial = pool.nextSerial := by
    simp only [allocRead]
    cases cfg.mshrType <;> rfl
  refine ⟨number, ?_, ⟨Nat.le_succ _, ?_⟩, rfl⟩
  · simp [allocRead]
  · intro other old
    have apart : other ≠ (allocRead cfg pool fields).1 := by
      rintro rfl
      rw [number] at old
      exact Nat.lt_irrefl _ old
    change (Function.update pool.get (allocRead cfg pool fields).1 fields other).sectorMask = _
    rw [Function.update_of_ne apart]

/-- A read that is sent, whatever is done with the evicted block. -/
theorem Sent.handled {kind : CacheKind} {sender : DataCache} {before : MfPool} {r : MfId} {i : Nat} {sent : SentRead}
    (sent_ok : Sent cfg.toCacheConfig sender before (cfg.blockAddr (pool.get mf).addr) c r status i sent)
    (tags : sender.tagArray = cache.tagArray) (same : SameRegisters cache sender)
    (before_extends : before.Extends pool) (addr : (before.get r).addr = (pool.get mf).addr)
    (mask : (before.get r).sectorMask = (pool.get mf).sectorMask)
    (reader : r = mf ∨ pool.nextSerial ≤ r.serial) (in_use : r.serial < before.nextSerial)
    (sends : sendsRead kind cfg cache pool mf)
    (probed : cache.tagArray.probe cfg.toCacheConfig (cfg.blockAddr (pool.get mf).addr) (pool.get mf) false =
      .ok (status, some i))
    (no_hit : status ≠ .hit) (room : status ≠ .reservationFail)
    (typed : result.cache.tagArray.Typed cfg.toCacheConfig)
    (view : result.cache.tagArray.view = sent.cache.tagArray.view ∧
        ((pool.get mf).isWrite → wasWriteSent result.events) ∨
      cfg.writeAllocPolicy = .fetchOnWrite ∧ result.cache.tagArray.view =
        Function.update sent.cache.tagArray.view i ((sent.cache.tagArray.view i).setOnFill c true))
    (registers : SameRegisters result.cache sent.cache) (after_extends : result.pool.Extends sent.pool)
    (disposed : Disposed cfg cache pool (pool.get mf) result sent.evicted) :
    Handled kind cfg cache pool mf c result := by
  have sent_in_use := Nat.lt_of_lt_of_le in_use sent_ok.extends_pool.nextSerial
  have still_in_use := Nat.lt_of_lt_of_le sent_in_use after_extends.nextSerial
  refine ⟨typed, after_extends.trans (sent_ok.extends_pool.trans before_extends),
    .fetched r i status _ sent.evicted (reader.imp_right (⟨·, still_in_use⟩)) sends probed no_hit room ?_ view ?_ ?_
      disposed⟩
  · rw [← tags]
    exact sent_ok.touched
  · rw [← addr]
    exact sent_ok.registered.congr same registers
  · rw [after_extends.sectorMask r sent_in_use, sent_ok.sectorMask, mask]

section Misses

variable (typed : cache.tagArray.Typed cfg.toCacheConfig) (cell : cfg.cell (pool.get mf).sectorMask = .ok c)
  (probed : cache.tagArray.probe cfg.toCacheConfig (cfg.blockAddr (pool.get mf).addr) (pool.get mf) false =
    .ok (status, line))
  (no_hit : status ≠ .hit) (room : status ≠ .reservationFail) (in_use : mf.serial < pool.nextSerial)
include typed cell probed no_hit room in_use

theorem rdMissBase_handled (read : (pool.get mf).isWrite = false)
    (done : cache.rdMissBase cfg.toCacheConfig pool (pool.get mf).addr index mf time cfg.wrbkType = .ok result) :
    Handled .data cfg cache pool mf c result := by
  simp only [rdMissBase] at done
  split at done
  · cases done
    exact .refused typed
  next queue =>
    obtain ⟨outcome, sending, done⟩ := bind_ok.mp done
    cases outcome with
    | none =>
        cases done
        exact .refused typed
    | some sent =>
        obtain ⟨i, rfl, sent_ok⟩ := sendReadRequest_sent sending typed cell probed room
        have sends : sendsRead .data cfg cache pool mf := by
          simp only [sendsRead, read]
          simpa using queue
        have silent : ∀ events, (pool.get mf).isWrite → wasWriteSent events := by
          intro events write
          rw [read] at write
          contradiction
        have plain : sent.evicted = none ∨ cfg.writePolicy = .writeThrough →
            Handled .data cfg cache pool mf c ⟨.miss, sent.events, sent.cache, sent.pool⟩ := by
          intro unsent
          refine sent_ok.handled rfl (.refl _) (.refl _) rfl rfl (.inl rfl) in_use sends probed no_hit room
            sent_ok.typed (.inl ⟨rfl, silent _⟩) (.refl _) (.refl _) ?_
          rcases unsent with nothing | through
          · rw [nothing]
            trivial
          · cases sent.evicted with
            | none => trivial
            | some evicted => exact fun back => absurd through back
        dsimp only at done
        split at done
        next evicted dirty =>
          split at done
          next =>
            cases done
            refine sent_ok.handled rfl (.refl _) (.refl _) rfl rfl (.inl rfl) in_use sends probed no_hit room
              sent_ok.typed (.inl ⟨rfl, silent _⟩) ⟨rfl, rfl⟩ (.alloc _ _) ?_
            rw [dirty]
            obtain ⟨front, queue⟩ := sent_ok.queued
            refine disposed_alloc front sent_ok.extends_pool.nextSerial ?_ ?_
            · dsimp only
              rw [sent_ok.routed]
            · dsimp only
              rw [queue]
              rfl
          next through =>
            cases done
            exact plain (.inr (not_not.mp through))
        next clean =>
          cases done
          exact plain (.inl clean)

end Misses

variable {mshrAddr numMiss : Nat}

theorem refuseRead_handled {kind : CacheKind} (typed : cache.tagArray.Typed cfg.toCacheConfig)
    (done : cache.refuseRead cfg.toCacheConfig pool mshrAddr numMiss = .ok result) :
    Handled kind cfg cache pool mf c result := by
  unfold refuseRead at done
  split at done
  · cases done
    exact .refused typed
  · cases done

theorem room_of_readRefused (accepted : ¬ cache.readRefused cfg.toCacheConfig mshrAddr numMiss = true) :
    cache.mshrs.full cfg.toCacheConfig mshrAddr = false := by
  simp only [readRefused, Bool.or_eq_true, not_or] at accepted
  cases full : cache.mshrs.full cfg.toCacheConfig mshrAddr with
  | false => rfl
  | true => simp [full] at accepted

theorem writeLazily_ok (cell : cfg.cell (pool.get mf).sectorMask = .ok c) (block : CacheBlock)
    (block_typed : block.Typed cfg.toCacheConfig) :
    ∃ next, writeLazily cfg.toCacheConfig status (pool.get mf) block = .ok next ∧ next.Typed cfg.toCacheConfig ∧
      next.view = (if status = .hitReserved then (block.view.setStatus c .modified).setOnFill c true
        else block.view.setStatus c .modified) := by
  obtain ⟨first, stored, first_typed, first_view⟩ := block.setStatus_ok block_typed cell .modified
  unfold writeLazily
  rw [stored]
  by_cases pending : status = .hitReserved
  · obtain ⟨second, marked, second_typed, second_view⟩ := first.setModifiedOnFill_ok first_typed cell true
    obtain ⟨next, read, next_typed, next_view⟩ :=
      second.setReadable_ok second_typed cell (isFullWrite cfg.toCacheConfig (pool.get mf))
    refine ⟨next, ?_, next_typed, ?_⟩
    · simp only [if_pos pending]
      exact bind_ok.mpr ⟨first, rfl, bind_ok.mpr ⟨second, marked, read⟩⟩
    · rw [next_view, second_view, first_view, if_pos pending]
  · obtain ⟨next, read, next_typed, next_view⟩ :=
      first.setReadable_ok first_typed cell (isFullWrite cfg.toCacheConfig (pool.get mf))
    refine ⟨next, ?_, next_typed, ?_⟩
    · simp only [if_neg pending]
      exact bind_ok.mpr ⟨first, rfl, bind_ok.mpr ⟨first, rfl, read⟩⟩
    · rw [next_view, first_view, if_neg pending]

section WriteMisses

variable (typed : cache.tagArray.Typed cfg.toCacheConfig) (cell : cfg.cell (pool.get mf).sectorMask = .ok c)
  (probed : cache.tagArray.probe cfg.toCacheConfig (cfg.blockAddr (pool.get mf).addr) (pool.get mf) false =
    .ok (status, line))
  (no_hit : status ≠ .hit) (room : status ≠ .reservationFail) (write : (pool.get mf).isWrite = true)
include typed cell probed no_hit room write

theorem wrMissWaNaive_handled {probe_status : CacheRequestStatus} (policy : cfg.writeAllocPolicy = .writeAllocate)
    (done : cache.wrMissWaNaive cfg pool (pool.get mf).addr index mf time probe_status = .ok result) :
    Handled .data cfg cache pool mf c result := by
  simp only [wrMissWaNaive] at done
  split at done
  · exact refuseRead_handled typed done
  next accepted =>
    obtain ⟨outcome, sending, done⟩ := bind_ok.mp done
    obtain ⟨number, fields, read_extends, next_serial⟩ :=
      allocRead_ok cfg.toCacheConfig pool (writeAllocateRequest cfg (pool.get mf))
    simp only [sendWriteRequest] at sending done
    generalize allocRead cfg.toCacheConfig pool (writeAllocateRequest cfg (pool.get mf)) = read at *
    obtain ⟨r, before⟩ := read
    dsimp only at number fields read_extends next_serial sending done
    have mask : (before.get r).sectorMask = (pool.get mf).sectorMask := by
      rw [fields]
      rfl
    have addr : (before.get r).addr = (pool.get mf).addr := by
      rw [fields]
      rfl
    cases outcome with
    | none =>
        have full := full_of_sendReadRequest sending
        rw [addr] at full
        rw [room_of_readRefused accepted] at full
        contradiction
    | some sent =>
        obtain ⟨i, rfl, sent_ok⟩ := sendReadRequest_sent sending typed (by rwa [mask])
          (by rwa [TagArray.probe_sectorMask mask]) room
        have sends : sendsRead .data cfg cache pool mf := by
          simp only [sendsRead, write, policy, if_true]
          simpa using accepted
        dsimp only at done
        split at done
        · simp only [bind_ok, throw_ok, false_and, exists_const] at done
        · obtain rfl := pure_ok.mp done
          have back := @sendWriteBack_ok cfg sent.evicted (pool.get mf)
            ⟨.miss, [] ++ [{ type := .writeRequestSent }] ++ [{ type := .writeAllocateSent }], sent.cache, sent.pool⟩
          obtain ⟨front, queue⟩ := sent_ok.queued
          refine sent_ok.handled rfl ⟨rfl, rfl⟩ read_extends addr mask (.inr (Nat.le_of_eq number.symm)) ?_ sends probed
            no_hit room ?_ (.inl ⟨?_, ?_⟩) back.same back.extends_pool ?_
          · omega
          · rw [back.tagArray]
            exact sent_ok.typed
          · rw [back.tagArray]
          · intro _
            rw [back.events]
            rfl
          · refine @SentBack.disposed _ _ _ _ _ back cache pool ([mf] ++ front) ?_ ?_
            · rw [queue, List.append_assoc]
            · exact (sent_ok.extends_pool.trans read_extends).nextSerial

theorem writePart_handled (policy : cfg.writeAllocPolicy = .fetchOnWrite)
    (part : isFullWrite cfg.toCacheConfig (pool.get mf) = false)
    (done : cache.writePart cfg pool (pool.get mf).addr index mf time = .ok result) :
    Handled .data cfg cache pool mf c result := by
  simp only [writePart] at done
  split at done
  · exact refuseRead_handled typed done
  next accepted =>
    split at done
    · cases done
      exact .refused typed
    next unwritten =>
      obtain ⟨outcome, sending, done⟩ := bind_ok.mp done
      obtain ⟨number, fields, read_extends, next_serial⟩ :=
        allocRead_ok cfg.toCacheConfig pool (writeAllocateRequest cfg (pool.get mf))
      generalize allocRead cfg.toCacheConfig pool (writeAllocateRequest cfg (pool.get mf)) = read at *
      obtain ⟨r, before⟩ := read
      dsimp only at number fields read_extends next_serial sending done
      have mask : (before.get r).sectorMask = (pool.get mf).sectorMask := by
        rw [fields]
        rfl
      have addr : (before.get r).addr = (pool.get mf).addr := by
        rw [fields]
        rfl
      cases outcome with
      | none =>
          have full := full_of_sendReadRequest sending
          rw [addr, room_of_readRefused accepted] at full
          contradiction
      | some sent =>
          obtain ⟨i, rfl, sent_ok⟩ := sendReadRequest_sent sending typed (by rwa [mask])
            (by rwa [TagArray.probe_sectorMask mask]) room
          have sends : sendsRead .data cfg cache pool mf := by
            simp only [write, Bool.and_true] at unwritten
            simp only [sendsRead, write, policy, part, if_true]
            simp [accepted, unwritten]
          obtain ⟨tags, marked, done⟩ := bind_ok.mp done
          obtain rfl := pure_ok.mp done
          obtain ⟨j, found, tags_typed, view⟩ := TagArray.modifyBlock_ok sent_ok.typed
            (fun block block_typed => block.setModifiedOnFill_ok block_typed cell true) marked
          rw [sent_ok.index] at found
          cases found
          have back := @sendWriteBack_ok cfg sent.evicted (pool.get mf)
            ⟨.miss, [{ type := .writeAllocateSent }], { sent.cache with tagArray := tags }, sent.pool⟩
          obtain ⟨front, queue⟩ := sent_ok.queued
          refine sent_ok.handled rfl (.refl _) read_extends addr mask (.inr (Nat.le_of_eq number.symm)) ?_ sends probed
            no_hit room ?_ (.inr ⟨policy, ?_⟩) ⟨back.same.mshrs, back.same.extraMfFields⟩ back.extends_pool ?_
          · omega
          · rw [back.tagArray]
            exact tags_typed
          · rw [back.tagArray]
            exact view
          · refine @SentBack.disposed _ _ _ _ _ back cache pool front queue ?_
            exact (sent_ok.extends_pool.trans read_extends).nextSerial

omit typed cell in
/-- A store after an access that was not refused. -/
theorem Stored.handled {i : Nat} {tags next : TagArray} {evicted : Option EvictedBlockInfo} (change : Sectors → Sectors)
    (is_line : line = some i) (stores : storesOnMiss cfg (pool.get mf))
    (queue_room : cache.missQueueFull cfg.toCacheConfig 0 = false)
    (touched : TagArray.Touched cfg.toCacheConfig cache.tagArray (cfg.blockAddr (pool.get mf).addr) c status (some i)
      tags.view evicted)
    (next_typed : next.Typed cfg.toCacheConfig)
    (view : next.view = Function.update tags.view i (change (tags.view i)))
    (is_change : change = Sectors.setStatus c .modified ∨
      change = fun sectors => (sectors.setStatus c .modified).setOnFill c true) :
    Handled .data cfg cache pool mf c
      (sendWriteBack cfg evicted (pool.get mf) ⟨.miss, [], { cache with tagArray := next }, pool⟩) := by
  have back := @sendWriteBack_ok cfg evicted (pool.get mf) ⟨.miss, [], { cache with tagArray := next }, pool⟩
  subst is_line
  refine ⟨?_, back.extends_pool, .stored i status _ evicted write stores queue_room probed no_hit room touched ?_
    ⟨back.same.mshrs, back.same.extraMfFields⟩ ?_⟩
  · rw [back.tagArray]
    exact next_typed
  · rw [back.tagArray, view]
    rcases is_change with rfl | rfl
    · exact .inl rfl
    · exact .inr rfl
  · refine @SentBack.disposed _ _ _ _ _ back cache pool [] ?_ (Nat.le_refl _)
    rw [List.append_nil]

omit no_hit write in
/-- An access that was not refused is to the line of the probe. -/
theorem access_missed {status' : CacheRequestStatus} {found : Option Nat} {tags : TagArray}
    {evicted : Option EvictedBlockInfo}
    (done : cache.tagArray.access cfg.toCacheConfig (cfg.blockAddr (pool.get mf).addr) time index (pool.get mf) =
      .ok (status', found, tags, evicted)) :
    ∃ i, line = some i ∧ found = some i ∧ status' = status ∧ tags.Typed cfg.toCacheConfig ∧
      TagArray.Touched cfg.toCacheConfig cache.tagArray (cfg.blockAddr (pool.get mf).addr) c status (some i) tags.view
        evicted := by
  obtain ⟨line', again, same⟩ := TagArray.access_probe done
  rw [probed] at again
  cases again
  obtain ⟨is_typed, touched⟩ := TagArray.access_ok typed cell done
  obtain ⟨i, rfl⟩ := touched.exists_line room
  exact ⟨i, (same room).symm, rfl, rfl, is_typed, touched⟩

theorem writeWhole_handled (policy : cfg.writeAllocPolicy = .fetchOnWrite)
    (whole : isFullWrite cfg.toCacheConfig (pool.get mf) = true)
    (done : cache.writeWhole cfg pool (pool.get mf).addr index mf time = .ok result) :
    Handled .data cfg cache pool mf c result := by
  simp only [writeWhole] at done
  split at done
  · cases done
    exact .refused typed
  next queue =>
    obtain ⟨⟨status', found, tags, evicted⟩, accessed, done⟩ := bind_ok.mp done
    obtain ⟨i, is_line, rfl, rfl, tags_typed, touched⟩ :=
      access_missed typed cell probed room accessed
    dsimp only at done
    rw [if_neg no_hit] at done
    obtain ⟨next, stored, done⟩ := bind_ok.mp done
    rw [if_pos room] at done
    obtain rfl := pure_ok.mp done
    obtain ⟨_, ⟨⟩, next_typed, view⟩ := setStatus_block .modified tags_typed cell stored
    have stores : storesOnMiss cfg (pool.get mf) := by
      simp only [storesOnMiss, policy, whole]
    exact Stored.handled probed no_hit room write _ is_line stores (by simpa using queue) touched next_typed view
      (.inl rfl)

theorem wrMissWaLazyFetchOnRead_handled (policy : cfg.writeAllocPolicy = .lazyFetchOnRead)
    (done : cache.wrMissWaLazyFetchOnRead cfg pool (pool.get mf).addr index mf time = .ok result) :
    Handled .data cfg cache pool mf c result := by
  simp only [wrMissWaLazyFetchOnRead] at done
  split at done
  · cases done
    exact .refused typed
  next queue =>
    obtain ⟨⟨status', found, tags, evicted⟩, accessed, done⟩ := bind_ok.mp done
    obtain ⟨i, is_line, rfl, rfl, tags_typed, touched⟩ := access_missed typed cell probed room accessed
    dsimp only at done
    rw [if_neg no_hit] at done
    obtain ⟨next, stored, done⟩ := bind_ok.mp done
    rw [if_pos room] at done
    obtain rfl := pure_ok.mp done
    obtain ⟨_, ⟨⟩, next_typed, view⟩ := @TagArray.modifyBlock_ok _ _ _ _ _
      (fun sectors => if status' = .hitReserved then (sectors.setStatus c .modified).setOnFill c true
        else sectors.setStatus c .modified) tags_typed (writeLazily_ok cell) stored
    have stores : storesOnMiss cfg (pool.get mf) := by
      simp only [storesOnMiss, policy]
    refine Stored.handled probed no_hit room write
      (fun sectors => if status' = .hitReserved then (sectors.setStatus c .modified).setOnFill c true
        else sectors.setStatus c .modified) is_line stores (by simpa using queue) touched next_typed view ?_
    by_cases pending : status' = .hitReserved
    · exact .inr (by simp only [if_pos pending])
    · exact .inl (by simp only [if_neg pending])

end WriteMisses

theorem wrMissNoWa_handled (typed : cache.tagArray.Typed cfg.toCacheConfig)
    (done : cache.wrMissNoWa cfg pool mf = .ok result) : Handled .data cfg cache pool mf c result := by
  unfold wrMissNoWa at done
  split at done
  · cases done
    exact .refused typed
  · cases done
    exact ⟨typed, .refl pool, .unchanged rfl ⟨rfl, rfl⟩ (.inl rfl) fun _ _ => rfl⟩

/-- A write that finds no line goes on or is refused, unless it is allocated. -/
theorem wrMiss_handled {probe_status : CacheRequestStatus} (typed : cache.tagArray.Typed cfg.toCacheConfig)
    (cell : cfg.cell (pool.get mf).sectorMask = .ok c)
    (probed : cache.tagArray.probe cfg.toCacheConfig (cfg.blockAddr (pool.get mf).addr) (pool.get mf) false =
      .ok (status, line))
    (no_hit : status ≠ .hit) (room : cfg.writeAllocPolicy ≠ .noWriteAllocate → status ≠ .reservationFail)
    (write : (pool.get mf).isWrite = true)
    (done : cache.wrMiss cfg pool (pool.get mf).addr index mf time probe_status = .ok result) :
    Handled .data cfg cache pool mf c result := by
  unfold wrMiss at done
  split at done
  next => exact wrMissNoWa_handled typed done
  next policy =>
    have room := room (by rw [policy]; decide)
    exact wrMissWaNaive_handled typed cell probed no_hit room write policy done
  next policy =>
    have room := room (by rw [policy]; decide)
    unfold wrMissWaFetchOnWrite at done
    split at done
    next whole => exact writeWhole_handled typed cell probed no_hit room write policy whole done
    next part =>
      exact writePart_handled typed cell probed no_hit room write policy (by simpa using part) done
  next policy =>
    have room := room (by rw [policy]; decide)
    exact wrMissWaLazyFetchOnRead_handled typed cell probed no_hit room write policy done

theorem presentMiss_ne (cfg : CacheConfig) : cfg.presentMiss ≠ .hit ∧ cfg.presentMiss ≠ .reservationFail := by
  unfold CacheConfig.presentMiss
  cases cfg.cacheType <;> decide

/-- An access to a `data_cache` has one of the effects. -/
theorem ReadWrite.access_handled (typed : cache.tagArray.Typed cfg.toCacheConfig)
    (cell : cfg.cell (pool.get mf).sectorMask = .ok c) (in_use : mf.serial < pool.nextSerial)
    (done : ReadWrite.access cfg cache pool (pool.get mf).addr mf time = .ok result) :
    Handled .data cfg cache pool mf c result := by
  simp only [ReadWrite.access] at done
  split at done
  · simp only [bind_ok, throw_ok, false_and, exists_const] at done
  · obtain ⟨⟨probe_status, line⟩, probing, done⟩ := bind_ok.mp done
    obtain ⟨inner, processed, done⟩ := bind_ok.mp done
    obtain rfl := pure_ok.mp done
    obtain ⟨plain, probed, kind⟩ := TagArray.probe_mode probing
    -- the probe and the access can only disagree on the kind of a miss
    have same_hit : probe_status = .hit ↔ plain = .hit := by
      rcases kind with rfl | ⟨rfl, rfl, -⟩
      · rfl
      · simpa using (presentMiss_ne cfg.toCacheConfig).1
    have same_fail : probe_status = .reservationFail ↔ plain = .reservationFail := by
      rcases kind with rfl | ⟨rfl, rfl, -⟩
      · rfl
      · simpa using (presentMiss_ne cfg.toCacheConfig).2
    have handled : Handled .data cfg cache pool mf c inner := by
      unfold ReadWrite.processTagProbe at processed
      split at processed
      next write =>
        split at processed
        next hit =>
          obtain rfl := same_hit.mp hit
          exact wrHit_handled typed cell probed processed
        next no_hit =>
          split at processed
          next room =>
            refine wrMiss_handled typed cell probed (mt same_hit.mpr no_hit) ?_ write processed
            intro allocates
            exact mt same_fail.mpr (room.resolve_right allocates)
          next =>
            cases processed
            exact .refused typed
      next read =>
        rw [Bool.not_eq_true] at read
        split at processed
        next hit =>
          obtain rfl := same_hit.mp hit
          exact rdHitBase_handled typed cell read probed processed
        next no_hit =>
          split at processed
          next room =>
            exact rdMissBase_handled typed cell probed (mt same_hit.mpr no_hit) (mt same_fail.mpr room) in_use read
              processed
          next =>
            cases processed
            exact .refused typed
    refine ⟨handled.typed, handled.extends_pool, ?_⟩
    cases handled.effect with
    | unchanged view same still sent => exact .unchanged view ⟨same.1, same.2⟩ still sent
    | written i found probed view same => exact .written i found probed view ⟨same.1, same.2⟩
    | writeEvicted i found probed policy sent view same =>
        exact .writeEvicted i found probed policy sent view ⟨same.1, same.2⟩
    | fetched r i status middle evicted reader sends probed no_hit room touched view registered sectorMask disposed =>
        refine .fetched r i status middle evicted reader sends probed no_hit room touched view
          (registered.congr (.refl _) ⟨rfl, rfl⟩) sectorMask ?_
        cases evicted with
        | none => trivial
        | some evicted =>
            intro back
            obtain ⟨wb, queued, fresh, fields⟩ := disposed back
            exact ⟨wb, queued, fresh, fields⟩
    | stored i status middle evicted write stores queue_room probed no_hit room touched view same disposed =>
        refine .stored i status middle evicted write stores queue_room probed no_hit room touched view
          ⟨same.1, same.2⟩ ?_
        cases evicted with
        | none => trivial
        | some evicted =>
            intro back
            obtain ⟨wb, queued, fresh, fields⟩ := disposed back
            exact ⟨wb, queued, fresh, fields⟩

/-- So has an access to a `read_only_cache`. -/
theorem readOnlyAccess_handled (typed : cache.tagArray.Typed cfg.toCacheConfig)
    (cell : cfg.cell (pool.get mf).sectorMask = .ok c) (in_use : mf.serial < pool.nextSerial)
    (done : cache.readOnlyAccess cfg.toCacheConfig pool (pool.get mf).addr mf time = .ok result) :
    Handled .readOnly cfg cache pool mf c result := by
  simp only [readOnlyAccess] at done
  split at done
  · simp only [bind_ok, throw_ok, false_and, exists_const] at done
  split at done
  · simp only [bind_ok, throw_ok, false_and, exists_const] at done
  split at done
  · simp only [bind_ok, throw_ok, false_and, exists_const] at done
  next read =>
    rw [Bool.not_eq_true] at read
    have unsent : ∀ events, (pool.get mf).isWrite → wasWriteSent events := by
      intro events write
      rw [read] at write
      contradiction
    obtain ⟨⟨status, line⟩, probed, done⟩ := bind_ok.mp done
    have miss : ∀ (no_hit : status ≠ .hit) (room : status ≠ .reservationFail),
        cache.readOnlyMiss cfg.toCacheConfig pool (pool.get mf).addr line mf time = .ok result →
        Handled .readOnly cfg cache pool mf c result := by
      intro no_hit room done
      unfold readOnlyMiss at done
      split at done
      · cases done
        exact .refused typed
      next queue =>
        obtain ⟨outcome, sending, done⟩ := bind_ok.mp done
        cases outcome with
        | none =>
            cases done
            exact .refused typed
        | some sent =>
            dsimp only at done
            split at done
            · simp only [bind_ok, throw_ok, false_and, exists_const] at done
            next clean =>
              cases done
              obtain ⟨i, rfl, sent_ok⟩ := sendReadRequest_sent sending typed cell probed room
              refine sent_ok.handled rfl (.refl _) (.refl _) rfl rfl (.inl rfl) in_use ?_ probed no_hit room
                sent_ok.typed (.inl ⟨rfl, unsent _⟩) (.refl _) (.refl _) ?_
              · simpa [sendsRead] using queue
              · cases dirty : sent.evicted with
                | none => trivial
                | some evicted =>
                    rw [dirty] at clean
                    exact absurd rfl clean
    cases status with
    | hit =>
        obtain ⟨⟨status, found, tags⟩, accessed, done⟩ := bind_ok.mp done
        cases done
        obtain ⟨is_typed, same_view, -, -⟩ := accessNoWriteBack_hit typed cell probed accessed
        exact ⟨is_typed, .refl pool, .unchanged same_view ⟨rfl, rfl⟩ (.inr ⟨_, probed⟩) fun write _ => unsent _ write⟩
    | reservationFail =>
        cases done
        exact .refused typed
    | hitReserved => exact miss (by decide) (by decide) done
    | miss => exact miss (by decide) (by decide) done
    | sectorMiss => exact miss (by decide) (by decide) done

end DataCache

theorem CacheKind.access_handled {kind : CacheKind} {cfg : DataCacheConfig} {cache : DataCache} {pool : MfPool}
    {mf : MfId} {time c : Nat} {result : AccessResult} (typed : cache.tagArray.Typed cfg.toCacheConfig)
    (cell : cfg.cell (pool.get mf).sectorMask = .ok c) (in_use : mf.serial < pool.nextSerial)
    (done : kind.access cfg cache pool mf time = .ok result) : Handled kind cfg cache pool mf c result := by
  cases kind with
  | data => exact DataCache.ReadWrite.access_handled typed cell in_use done
  | readOnly => exact DataCache.readOnlyAccess_handled typed cell in_use done

end GpgpuSim.Cache
