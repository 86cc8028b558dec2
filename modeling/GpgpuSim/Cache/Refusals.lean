import GpgpuSim.Cache.Pinning

/-! Refused requests. Every handler looks for room for all that it may send before it
starts, so it never stops halfway, and the miss queue keeps its bound. -/
namespace GpgpuSim.Cache
open GpgpuSim.Memory Transition

/-- No `assert(0)` behind the reasons for a refusal is reached. -/
abbrev Live {α : Type} (ran : Except CacheFault α) : Prop := Never .deadBranch ran

/-! ## Parts that do not have such a branch -/

theorem getSectorIndex_live (mask : BitVec 4) : Live (getSectorIndex mask) := by
  unfold getSectorIndex
  split
  · exact .ok _
  · exact .error (by decide)

namespace CacheBlock

variable (block : CacheBlock) (mask : BitVec 4)

theorem getStatus_live : Live (block.getStatus mask) := by
  cases block with
  | line block => exact .ok _
  | sector block => exact .map (getSectorIndex_live mask)

theorem isReadable_live : Live (block.isReadable mask) := by
  cases block with
  | line block => exact .ok _
  | sector block => exact .map (getSectorIndex_live mask)

theorem setStatus_live (status : CacheBlockState) : Live (block.setStatus status mask) := by
  cases block with
  | line block => exact .ok _
  | sector block => exact .bind (getSectorIndex_live mask) fun _ _ => .ok _

theorem setModifiedOnFill_live (modified : Bool) : Live (block.setModifiedOnFill modified mask) := by
  cases block with
  | line block => exact .ok _
  | sector block => exact .bind (getSectorIndex_live mask) fun _ _ => .ok _

theorem setReadable_live (readable : Bool) : Live (block.setReadable readable mask) := by
  cases block with
  | line block => exact .ok _
  | sector block => exact .bind (getSectorIndex_live mask) fun _ _ => .ok _

theorem setLastAccessTime_live (time : Nat) : Live (block.setLastAccessTime time mask) := by
  cases block with
  | line block => exact .ok _
  | sector block => exact .bind (getSectorIndex_live mask) fun _ _ => .ok _

theorem allocate_live (tag blockAddr time : Nat) : Live (block.allocate tag blockAddr time mask) := by
  cases block with
  | line block => exact .ok _
  | sector block => exact .bind (getSectorIndex_live mask) fun _ _ => .ok _

theorem allocateSector_live (time : Nat) : Live (block.allocateSector time mask) := by
  cases block with
  | line block => exact .error (by decide)
  | sector block =>
      simp only [allocateSector]
      split
      · exact .throw (by decide)
      · exact .bind (getSectorIndex_live mask) fun _ _ => .ok _

end CacheBlock

namespace TagArray

variable (cfg : CacheConfig) (tags : TagArray) (mf : MemFetch)

theorem scanWays_live (tag : Nat) (mask : BitVec 4) (ways : List Nat) (scan : ProbeScan) :
    Live (tags.scanWays cfg tag mask ways scan) := by
  induction ways generalizing scan with
  | nil => exact .ok _
  | cons index rest ih =>
      rw [scanWays]
      split
      · refine .bind (CacheBlock.getStatus_live _ _) fun status _ => ?_
        cases status with
        | reserved => exact .ok _
        | valid => exact .ok _
        | modified =>
            refine .bind (CacheBlock.isReadable_live _ _) fun readable _ => ?_
            cases readable <;> exact .ok _
        | invalid =>
            dsimp only
            split
            · exact .ok _
            · exact ih _
      · exact ih _

theorem probe_live (addr : Nat) (probeMode : Bool) : Live (tags.probe cfg addr mf probeMode) := by
  unfold probe
  dsimp only
  split
  · exact .throw (by decide)
  · refine .bind (scanWays_live ..) fun result _ => ?_
    cases result with
    | inl found => exact .ok _
    | inr scan =>
        dsimp only
        split
        · split
          · exact .ok _
          · exact .throw (by decide)
        · split
          · exact .error (by decide)
          · split
            · split <;> exact .ok _
            · exact .ok _

theorem access_live (addr time : Nat) (index : Option Nat) : Live (tags.access cfg addr time index mf) := by
  refine .bind (probe_live ..) fun ⟨status, found⟩ _ => ?_
  dsimp only
  split
  · exact .bind (CacheBlock.setLastAccessTime_live ..) fun _ _ => .ok _
  · exact .bind (CacheBlock.setLastAccessTime_live ..) fun _ _ => .ok _
  · split
    · exact .bind (CacheBlock.allocate_live ..) fun _ _ => .ok _
    · exact .ok _
  · split
    · exact .bind (CacheBlock.allocateSector_live ..) fun _ _ => .ok _
    · exact .ok _
  · exact .ok _
  · exact .error (by decide)

theorem accessNoWriteBack_live (addr time : Nat) (index : Option Nat) :
    Live (tags.accessNoWriteBack cfg addr time index mf) := by
  refine .bind (access_live ..) fun ⟨status, found, next, evicted⟩ _ => ?_
  dsimp only
  split
  · exact .throw (by decide)
  · exact .ok _

theorem modifyBlock_live (index : Option Nat) {change : CacheBlock → Except CacheFault CacheBlock}
    (live : ∀ block, Live (change block)) : Live (tags.modifyBlock index change) := by
  cases index with
  | none => exact .error (by decide)
  | some i => exact .bind (live _) fun _ _ => .ok _

end TagArray

theorem MshrTable.add_live (cfg : CacheConfig) (table : MshrTable) (b : Nat) (mf : MfId) (isAtomic : Bool) :
    Live (table.add cfg b mf isAtomic) := by
  unfold MshrTable.add
  dsimp only
  split
  · exact .ok _
  · exact .error (by decide)

/-! ## Handlers -/

/-- A refusal leaves everything as it was; whatever else is done, the miss queue keeps its bound. -/
structure Orderly (cfg : CacheConfig) (cache : DataCache) (pool : MfPool) (result : AccessResult) : Prop where
  refused : result.status = .reservationFail → result = ⟨.reservationFail, [], cache, pool⟩
  queue : cache.missQueue.length ≤ cfg.missQueueSize → result.cache.missQueue.length ≤ cfg.missQueueSize

/-- The handler is orderly and never gets to an `assert(0)`. -/
abbrev Handles (cfg : CacheConfig) (cache : DataCache) (pool : MfPool) (ran : Except CacheFault AccessResult) : Prop :=
  Ensures .deadBranch ran (Orderly cfg cache pool)

namespace Orderly

variable {cfg : CacheConfig} {cache : DataCache} {pool : MfPool} {result : AccessResult}

theorem refuse : Orderly cfg cache pool ⟨.reservationFail, [], cache, pool⟩ where
  refused _ := rfl
  queue bound := bound

theorem kept (accepted : result.status ≠ .reservationFail) (same : result.cache.missQueue = cache.missQueue) :
    Orderly cfg cache pool result where
  refused refused := absurd refused accepted
  queue bound := same ▸ bound

theorem within (accepted : result.status ≠ .reservationFail)
    (bound : result.cache.missQueue.length ≤ cfg.missQueueSize) : Orderly cfg cache pool result where
  refused refused := absurd refused accepted
  queue _ := bound

end Orderly

namespace DataCache

variable {cfg : DataCacheConfig} {cache : DataCache} {pool : MfPool} {mf : MfId} {addr time mshrAddr numMiss : Nat}
  {index : Option Nat}

theorem lt_of_missQueueFull {config : CacheConfig} (room : ¬cache.missQueueFull config numMiss = true) :
    cache.missQueue.length + numMiss < config.missQueueSize := by
  simpa [missQueueFull] using room

/-- With room in the miss queue a read is refused by the registers only. -/
theorem sendReadRequest_ensures {config : CacheConfig} (room : cache.missQueue.length < config.missQueueSize) :
    Ensures .deadBranch (cache.sendReadRequest config pool addr index mf time) fun sent? =>
      ∀ sent, sent? = some sent → sent.cache.missQueue.length ≤ cache.missQueue.length + 1 := by
  simp only [sendReadRequest]
  split
  · refine .bind (TagArray.access_live ..) fun _ _ => ?_
    refine .bind (MshrTable.add_live ..) fun _ _ => .ok ?_
    rintro _ ⟨⟩
    exact Nat.le_succ _
  next no_merge =>
    split
    · refine .bind (TagArray.access_live ..) fun _ _ => ?_
      refine .bind (MshrTable.add_live ..) fun _ _ => .ok ?_
      rintro _ ⟨⟩
      simp
    next no_primary =>
      split
      · refine .ok ?_
        rintro _ ⟨⟩
      next available =>
        -- the registers have room, so one of the two kinds of misses is possible
        simp only [Bool.not_eq_true', Bool.not_eq_false] at available
        cases known : cache.mshrs.probe (config.mshrAddr (pool.get mf).addr) <;>
          simp_all

theorem sendWriteBack_length (evicted : Option EvictedBlockInfo) (request : MemFetch) (base : AccessResult) :
    (sendWriteBack cfg evicted request base).cache.missQueue.length ≤ base.cache.missQueue.length + 1 := by
  unfold sendWriteBack
  split
  · exact Nat.le_succ _
  · split
    · simp [sendWriteRequest]
    · exact Nat.le_succ _

theorem sendWriteBack_accepted {evicted : Option EvictedBlockInfo} {request : MemFetch} {base : AccessResult}
    (miss : base.status = .miss) : (sendWriteBack cfg evicted request base).status ≠ .reservationFail := by
  rw [(sendWriteBack_ok evicted request base).status, miss]
  decide

/-! ### Hits -/

theorem wrHitWb_handles : Handles cfg.toCacheConfig cache pool (cache.wrHitWb cfg pool addr index mf time) := by
  refine .bind (TagArray.accessNoWriteBack_live ..) fun _ _ => ?_
  refine .bind (TagArray.modifyBlock_live _ _ fun _ => CacheBlock.setStatus_live ..) fun _ _ => .ok ?_
  exact .kept nofun rfl

theorem wrHitWt_handles : Handles cfg.toCacheConfig cache pool (cache.wrHitWt cfg pool addr index mf time) := by
  unfold wrHitWt
  split
  · exact .ok .refuse
  next room =>
    have room := lt_of_missQueueFull room
    refine .bind (TagArray.accessNoWriteBack_live ..) fun _ _ => ?_
    refine .bind (TagArray.modifyBlock_live _ _ fun _ => CacheBlock.setStatus_live ..) fun _ _ => .ok ?_
    exact .within nofun (by simp only [sendWriteRequest, List.length_append, List.length_singleton]; omega)

theorem wrHitWe_handles : Handles cfg.toCacheConfig cache pool (cache.wrHitWe cfg pool index mf) := by
  unfold wrHitWe
  split
  · exact .ok .refuse
  next room =>
    have room := lt_of_missQueueFull room
    refine .bind (TagArray.modifyBlock_live _ _ fun _ => CacheBlock.setStatus_live ..) fun _ _ => .ok ?_
    exact .within nofun (by simp only [sendWriteRequest, List.length_append, List.length_singleton]; omega)

theorem wrHit_handles : Handles cfg.toCacheConfig cache pool (cache.wrHit cfg pool addr index mf time) := by
  unfold wrHit
  split
  · exact .error (by decide)
  · exact wrHitWb_handles
  · exact wrHitWt_handles
  · exact wrHitWe_handles
  · unfold wrHitGlobalWeLocalWb
    split
    · exact wrHitWe_handles
    · exact wrHitWb_handles

theorem rdHitBase_handles :
    Handles cfg.toCacheConfig cache pool (cache.rdHitBase cfg.toCacheConfig pool addr index mf time) := by
  refine .bind (TagArray.access_live ..) fun _ _ => ?_
  dsimp only
  split
  · exact .throw (by decide)
  · split
    · split
      · exact .throw (by decide)
      · split
        · exact .error (by decide)
        · refine .bind (CacheBlock.setStatus_live ..) fun _ _ => .ok ?_
          exact .kept nofun rfl
    · refine .ok ?_
      exact .kept nofun rfl

/-! ### Misses -/

theorem rdMissBase_handles {wrbkType : MemAccessType} :
    Handles cfg.toCacheConfig cache pool (cache.rdMissBase cfg.toCacheConfig pool addr index mf time wrbkType) := by
  unfold rdMissBase
  split
  · exact .ok .refuse
  next room =>
    have room := lt_of_missQueueFull room
    have sending := @sendReadRequest_ensures cache pool mf (cfg.blockAddr addr) time index cfg.toCacheConfig (by omega)
    refine .bind sending.toNever fun sent? done => ?_
    cases sent? with
    | none => exact .ok .refuse
    | some sent =>
        have grown := sending.result _ done sent rfl
        dsimp only
        split
        · split
          · refine .ok (.within nofun ?_)
            simp only [List.length_append, List.length_singleton]
            omega
          · exact .ok (.within nofun (by dsimp only; omega))
        · exact .ok (.within nofun (by dsimp only; omega))

theorem readOnlyMiss_handles :
    Handles cfg.toCacheConfig cache pool (cache.readOnlyMiss cfg.toCacheConfig pool addr index mf time) := by
  unfold readOnlyMiss
  split
  · exact .ok .refuse
  next room =>
    have room := lt_of_missQueueFull room
    have sending := @sendReadRequest_ensures cache pool mf (cfg.blockAddr addr) time index cfg.toCacheConfig (by omega)
    refine .bind sending.toNever fun sent? done => ?_
    cases sent? with
    | none => exact .ok .refuse
    | some sent =>
        have grown := sending.result _ done sent rfl
        dsimp only
        split
        · exact .throw (by decide)
        · exact .ok (.within nofun (by dsimp only; omega))

variable {line : Option Nat} {status probeStatus : CacheRequestStatus}

/-! ### Write misses -/

theorem refuseRead_handles (refused : cache.readRefused cfg.toCacheConfig mshrAddr numMiss = true) :
    Handles cfg.toCacheConfig cache pool (cache.refuseRead cfg.toCacheConfig pool mshrAddr numMiss) := by
  unfold refuseRead
  split
  · exact .ok .refuse
  next room =>
    -- with room in the queue and in the registers one of the two kinds of misses is possible
    simp only [Bool.or_eq_true, not_or, Bool.not_eq_true] at room
    have queue := lt_of_missQueueFull (Bool.eq_false_iff.mp room.1)
    have short : cache.missQueue.length < cfg.missQueueSize := by omega
    simp only [readRefused, room.1, room.2] at refused
    cases known : cache.mshrs.probe mshrAddr <;> simp [known, short] at refused

/-- An accepted read of a block for a write is sent. -/
theorem sent_of_readRefused {sent? : Option SentRead} {sender : DataCache} {addr : Nat}
    (accepted : ¬cache.readRefused cfg.toCacheConfig (cfg.mshrAddr (pool.get mf).addr) numMiss = true)
    (done : sender.sendReadRequest cfg.toCacheConfig
      (allocRead cfg.toCacheConfig pool (writeAllocateRequest cfg (pool.get mf))).2 addr index
      (allocRead cfg.toCacheConfig pool (writeAllocateRequest cfg (pool.get mf))).1 time = .ok sent?)
    (same : sender.mshrs = cache.mshrs) : sent? ≠ none := by
  rintro rfl
  have full := full_of_sendReadRequest done
  rw [(allocRead_ok ..).2.1, same] at full
  have room := room_of_readRefused accepted
  have clash := full.symm.trans room
  contradiction

theorem queue_of_readRefused (accepted : ¬cache.readRefused cfg.toCacheConfig mshrAddr numMiss = true) :
    cache.missQueue.length + numMiss < cfg.missQueueSize := by
  simp only [readRefused, Bool.or_eq_true, not_or] at accepted
  exact lt_of_missQueueFull accepted.1

theorem wrMissWaNaive_handles : Handles cfg.toCacheConfig cache pool
    (cache.wrMissWaNaive cfg pool (pool.get mf).addr index mf time probeStatus) := by
  simp only [wrMissWaNaive]
  split
  next refused => exact refuseRead_handles refused
  next accepted =>
    have room := queue_of_readRefused accepted
    have written : (cache.missQueue ++ [mf]).length = cache.missQueue.length + 1 := by simp
    simp only [sendWriteRequest]
    refine .bind (sendReadRequest_ensures (by dsimp only; omega)).toNever fun sent? done => ?_
    obtain ⟨sent, rfl⟩ := Option.ne_none_iff_exists'.mp (sent_of_readRefused accepted done rfl)
    have grown := (sendReadRequest_ensures (by dsimp only; omega)).result _ done sent rfl
    dsimp only at grown ⊢
    split
    · exact .throw (by decide)
    · refine .ok (.within (sendWriteBack_accepted rfl) ((sendWriteBack_length _ _ _).trans ?_))
      dsimp only
      omega

theorem writePart_handles : Handles cfg.toCacheConfig cache pool
    (cache.writePart cfg pool (pool.get mf).addr index mf time) := by
  simp only [writePart]
  split
  next refused => exact refuseRead_handles refused
  next accepted =>
    split
    · exact .ok .refuse
    · have room := queue_of_readRefused accepted
      refine .bind (sendReadRequest_ensures (by omega)).toNever fun sent? done => ?_
      obtain ⟨sent, rfl⟩ := Option.ne_none_iff_exists'.mp (sent_of_readRefused accepted done rfl)
      have grown := (sendReadRequest_ensures (by omega)).result _ done sent rfl
      refine .bind (TagArray.modifyBlock_live _ _ fun _ => CacheBlock.setModifiedOnFill_live ..) fun _ _ => .ok ?_
      refine .within (sendWriteBack_accepted rfl) ((sendWriteBack_length _ _ _).trans ?_)
      dsimp only
      omega

theorem writeLazily_live (request : MemFetch) (block : CacheBlock) :
    Live (writeLazily cfg.toCacheConfig status request block) := by
  unfold writeLazily
  refine .bind (CacheBlock.setStatus_live ..) fun stored _ => ?_
  split
  · refine .bind (CacheBlock.setModifiedOnFill_live ..) fun _ _ => ?_
    exact CacheBlock.setReadable_live ..
  · exact .bind (.ok _) fun _ _ => CacheBlock.setReadable_live ..

/-- An access has the status of the probe. -/
theorem room_of_probe {status' : CacheRequestStatus} {addr : Nat} {found : Option Nat} {tags : TagArray}
    {evicted : Option EvictedBlockInfo} {request : MemFetch}
    (probed : cache.tagArray.probe cfg.toCacheConfig addr request false = .ok (status, line))
    (room : status ≠ .reservationFail) (accessed : cache.tagArray.access cfg.toCacheConfig addr time index request =
      .ok (status', found, tags, evicted)) : status' ≠ .reservationFail := by
  obtain ⟨line', again, -⟩ := TagArray.access_probe accessed
  obtain ⟨rfl, -⟩ := Prod.mk.inj (Except.ok.inj (again.symm.trans probed))
  exact room

/-- A write stored in a line that the probe has found. -/
theorem stored_handles {tags : TagArray} {found : Option Nat} {evicted : Option EvictedBlockInfo}
    {change : CacheBlock → Except CacheFault CacheBlock} {request : MemFetch}
    (live : ∀ block, Live (change block)) (queue : cache.missQueue.length < cfg.missQueueSize) :
    Handles cfg.toCacheConfig cache pool (do
      let tagArray ← tags.modifyBlock found change
      return sendWriteBack cfg evicted request ⟨.miss, [], { cache with tagArray }, pool⟩) := by
  refine .bind (TagArray.modifyBlock_live _ _ live) fun tags _ => ?_
  refine .ok (.within (sendWriteBack_accepted rfl) ((sendWriteBack_length _ _ _).trans ?_))
  exact queue

theorem writeWhole_handles
    (probed : cache.tagArray.probe cfg.toCacheConfig (cfg.blockAddr (pool.get mf).addr) (pool.get mf) false =
      .ok (status, line)) (room : status ≠ .reservationFail) :
    Handles cfg.toCacheConfig cache pool (cache.writeWhole cfg pool (pool.get mf).addr index mf time) := by
  unfold writeWhole
  split
  · exact .ok .refuse
  next queue =>
    refine .bind (TagArray.access_live ..) fun ⟨status', found, tags, evicted⟩ accessed => ?_
    have room := room_of_probe probed room accessed
    dsimp only
    split
    · exact .throw (by decide)
    · exact stored_handles (fun _ => CacheBlock.setStatus_live ..) (lt_of_missQueueFull queue)

theorem wrMissWaLazyFetchOnRead_handles
    (probed : cache.tagArray.probe cfg.toCacheConfig (cfg.blockAddr (pool.get mf).addr) (pool.get mf) false =
      .ok (status, line)) (room : status ≠ .reservationFail) :
    Handles cfg.toCacheConfig cache pool (cache.wrMissWaLazyFetchOnRead cfg pool (pool.get mf).addr index mf time) := by
  unfold wrMissWaLazyFetchOnRead
  split
  · exact .ok .refuse
  next queue =>
    refine .bind (TagArray.access_live ..) fun ⟨status', found, tags, evicted⟩ accessed => ?_
    have room := room_of_probe probed room accessed
    dsimp only
    split
    · exact .throw (by decide)
    · exact stored_handles (fun _ => writeLazily_live ..) (lt_of_missQueueFull queue)

theorem wrMissNoWa_handles : Handles cfg.toCacheConfig cache pool (cache.wrMissNoWa cfg pool mf) := by
  unfold wrMissNoWa
  split
  · exact .ok .refuse
  next room =>
    have room := lt_of_missQueueFull room
    exact .ok (.within nofun (by simp only [sendWriteRequest, List.length_append, List.length_singleton]; omega))

theorem wrMiss_handles
    (probed : cache.tagArray.probe cfg.toCacheConfig (cfg.blockAddr (pool.get mf).addr) (pool.get mf) false =
      .ok (status, line))
    (room : cfg.writeAllocPolicy ≠ .noWriteAllocate → status ≠ .reservationFail) :
    Handles cfg.toCacheConfig cache pool (cache.wrMiss cfg pool (pool.get mf).addr index mf time probeStatus) := by
  unfold wrMiss
  split
  · exact wrMissNoWa_handles
  · exact wrMissWaNaive_handles
  next policy =>
    have room := room (by rw [policy]; decide)
    unfold wrMissWaFetchOnWrite
    split
    · exact writeWhole_handles probed room
    · exact writePart_handles
  next policy =>
    have room := room (by rw [policy]; decide)
    exact wrMissWaLazyFetchOnRead_handles probed room

/-! ### Accesses -/

/-- A refusal does not take the data port either. -/
theorem useDataPort_orderly {config : CacheConfig} {result : AccessResult} {dataSize : Nat}
    (orderly : Orderly config cache pool result) :
    Orderly config cache pool { result with cache := useDataPort config result dataSize } where
  refused refused := by
    rw [orderly.refused refused]
    rfl
  queue := orderly.queue

theorem ReadWrite.processTagProbe_handles
    (probed : cache.tagArray.probe cfg.toCacheConfig (cfg.blockAddr (pool.get mf).addr) (pool.get mf) true =
      .ok (probeStatus, line)) :
    Handles cfg.toCacheConfig cache pool
      (ReadWrite.processTagProbe cfg cache pool probeStatus (pool.get mf).addr line mf time) := by
  obtain ⟨plain, again, kind⟩ := TagArray.probe_mode probed
  -- the two probes only differ in the kind of a miss
  have same_fail : plain = .reservationFail → probeStatus = .reservationFail := by
    rcases kind with rfl | ⟨rfl, -, -⟩
    · exact id
    · exact nofun
  unfold ReadWrite.processTagProbe
  split
  · split
    · exact wrHit_handles
    · split
      next room =>
        exact wrMiss_handles again fun allocates fail => (room.resolve_right allocates) (same_fail fail)
      · exact .ok .refuse
  · split
    · exact rdHitBase_handles
    · split
      · exact rdMissBase_handles
      · exact .ok .refuse

theorem ReadWrite.access_handles :
    Handles cfg.toCacheConfig cache pool (ReadWrite.access cfg cache pool (pool.get mf).addr mf time) := by
  unfold ReadWrite.access
  dsimp only
  split
  · exact .throw (by decide)
  · refine .bind (TagArray.probe_live ..) fun ⟨probeStatus, line⟩ probing => ?_
    have probed : cache.tagArray.probe cfg.toCacheConfig (cfg.blockAddr (pool.get mf).addr) (pool.get mf) true =
        .ok (probeStatus, line) := probing
    have processed := @processTagProbe_handles cfg cache pool mf time line probeStatus probed
    exact .bind processed.toNever fun result done => .ok (useDataPort_orderly (processed.result result done))

theorem readOnlyAccess_handles :
    Handles cfg.toCacheConfig cache pool (cache.readOnlyAccess cfg.toCacheConfig pool (pool.get mf).addr mf time) := by
  unfold readOnlyAccess
  dsimp only
  split
  · exact .throw (by decide)
  split
  · exact .throw (by decide)
  split
  · exact .throw (by decide)
  refine .bind (TagArray.probe_live ..) fun ⟨status, line⟩ probed => ?_
  cases status with
  | hit =>
      refine .bind (TagArray.accessNoWriteBack_live ..) fun ⟨status, found, tags⟩ done => .ok ?_
      obtain ⟨⟨status', found', tags', evicted⟩, accessed, done⟩ := bind_ok.mp done
      obtain ⟨line', again, -⟩ := TagArray.access_probe accessed
      obtain ⟨rfl, -⟩ := Prod.mk.inj (Except.ok.inj (again.symm.trans probed))
      dsimp only at done
      split at done
      · simp only [bind_ok, throw_ok, false_and, exists_const] at done
      · cases done
        exact .kept nofun rfl
  | reservationFail => exact .ok .refuse
  | hitReserved => exact readOnlyMiss_handles
  | miss => exact readOnlyMiss_handles
  | sectorMiss => exact readOnlyMiss_handles

end DataCache

theorem CacheKind.access_handles (kind : CacheKind) (cfg : DataCacheConfig) (cache : DataCache) (pool : MfPool)
    (mf : MfId) (time : Nat) : Handles cfg.toCacheConfig cache pool (kind.access cfg cache pool mf time) := by
  cases kind with
  | data => exact DataCache.ReadWrite.access_handles
  | readOnly => exact DataCache.readOnlyAccess_handles

/-! ## Runs -/

namespace CacheSystem

variable {kind : CacheKind} {cfg : DataCacheConfig} {s t : CacheSystem} {action : CacheAction} {pool : MfPool}
  {history : List CacheMove}

theorem fill_missQueue {cache : DataCache} {mf : MfId} {time : Nat}
    (done : s.cache.fill cfg.toCacheConfig s.pool mf time = .ok (cache, pool)) :
    cache.missQueue = s.cache.missQueue := by
  obtain ⟨r, extra, counted | completed⟩ := DataCache.fill_cases done
  · obtain ⟨pendingRead, rest⟩ := counted.rest
    rw [rest]
  · exact completed.missQueue

/-- Only accesses lengthen the miss queue. -/
theorem Step.missQueue_le (step : Step kind cfg s action t)
    (bound : s.cache.missQueue.length ≤ cfg.missQueueSize) : t.cache.missQueue.length ≤ cfg.missQueueSize := by
  cases step with
  | access presented done =>
      exact ((CacheKind.access_handles kind cfg s.cache s.pool _ _).result _ done).queue bound
  | fill done => exact (fill_missQueue done).symm ▸ bound
  | nextAccess done =>
      obtain ⟨_, -, done⟩ := bind_ok.mp done
      cases done
      exact bound
  | cycle memportFull =>
      dsimp only [DataCache.cycle]
      split
      · exact bound
      next front rest queue =>
        rw [queue, List.length_cons] at bound
        cases memportFull with
        | true => simpa [DataCache.replenishPortBandwidth, queue] using bound
        | false =>
            simp only [DataCache.replenishPortBandwidth, Bool.false_eq_true, if_false]
            omega
  | elsewhere serial kept => exact bound

theorem run_missQueue_le (run : Run kind cfg pool history s) : s.cache.missQueue.length ≤ cfg.missQueueSize := by
  induction run with
  | refl => exact Nat.zero_le _
  | next _ stepped ih =>
      obtain ⟨action, -, step⟩ := stepped
      exact step.missQueue_le ih

/-- In every reachable state: the miss queue keeps its bound, a request never runs into an `assert(0)` behind
the reasons for a refusal, and one that is refused leaves the cache and the requests as they were. -/
theorem refused_access_changes_nothing (run : Run kind cfg pool history s) (mf : MfId) (time : Nat) :
    s.cache.missQueue.length ≤ cfg.missQueueSize ∧
    kind.access cfg s.cache s.pool mf time ≠ .error .deadBranch ∧
    ∀ result, kind.access cfg s.cache s.pool mf time = .ok result →
      result.cache.missQueue.length ≤ cfg.missQueueSize ∧
      (result.status = .reservationFail →
        result.cache = s.cache ∧ result.pool = s.pool ∧ result.events = []) := by
  have handles := CacheKind.access_handles kind cfg s.cache s.pool mf time
  have bound := run_missQueue_le run
  refine ⟨bound, handles.ne, fun result done => ?_⟩
  have orderly := handles.result result done
  refine ⟨orderly.queue bound, fun refused => ?_⟩
  rw [orderly.refused refused]
  exact ⟨rfl, rfl, rfl⟩

/-- The only line waits for its data, so a read of another block is refused. -/
theorem refused_access_changes_nothing_reserved :
    ∃ history s result,
      Run .data (oneLine .writeBack .lazyFetchOnRead)
        (poolOf [requestTo .globalAccR 0, requestTo .globalAccR 128]) history s ∧
      CacheKind.access .data (oneLine .writeBack .lazyFetchOnRead) s.cache s.pool (.request 1) 1 = .ok result ∧
      result.status = .reservationFail ∧ result.cache = s.cache ∧ result.pool = s.pool ∧ result.events = [] := by
  have passed : testRun .data (oneLine .writeBack .lazyFetchOnRead)
      (poolOf [requestTo .globalAccR 0, requestTo .globalAccR 128]) [.access (.request 0) 0] (fun _ s =>
        succeedsWith (CacheKind.access .data (oneLine .writeBack .lazyFetchOnRead) s.cache s.pool (.request 1) 1)
          fun result => result.status == .reservationFail) = true := rfl
  obtain ⟨history, s, run, test⟩ := exists_run passed
  obtain ⟨result, done, test⟩ := exists_of_succeedsWith test
  have refused := eq_of_beq test
  have unchanged := (refused_access_changes_nothing run (.request 1) 1).2.2 result done
  exact ⟨history, s, result, run, done, refused, unchanged.2 refused⟩

end CacheSystem

end GpgpuSim.Cache
