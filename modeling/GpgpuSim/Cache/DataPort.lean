import GpgpuSim.Cache.DirtyData

/-! What a miss of a `data_cache` makes the data port busy for. Only a write-back that is the first event of the
access, and carries its block, is ever charged. -/
namespace GpgpuSim.Cache
open GpgpuSim.Memory Transition

namespace TagArray

variable {cfg : CacheConfig} {tags next : TagArray} {addr time : Nat} {index found : Option Nat} {mf : MemFetch}
  {status : CacheRequestStatus} {evicted : Option EvictedBlockInfo}

/-- The modified block in the line that a request replaces. -/
def evictedBy (cfg : CacheConfig) (tags : TagArray) (addr : Nat) (mf : MemFetch) : Option EvictedBlockInfo :=
  match tags.probe cfg addr mf false with
  | .ok (.miss, some i) => if cfg.allocPolicy = .onMiss then tags.evictedFrom i else none
  | _ => none

theorem evictedBy_sectorMask {other : MemFetch} (same : other.sectorMask = mf.sectorMask) :
    tags.evictedBy cfg addr other = tags.evictedBy cfg addr mf := by
  rw [evictedBy, probe_sectorMask same, evictedBy]

theorem access_evicted (done : tags.access cfg addr time index mf = .ok (status, found, next, evicted)) :
    evicted = tags.evictedBy cfg addr mf := by
  obtain ⟨⟨probed, line⟩, ok, done⟩ := bind_ok.mp done
  rw [evictedBy, ok]
  cases probed with
  | reservationFail =>
      cases line with
      | none => cases done; rfl
      | some i => cases done; rfl
  | hit =>
      cases line with
      | none => cases done
      | some i =>
          obtain ⟨_, -, done⟩ := bind_ok.mp done
          cases done
          rfl
  | hitReserved =>
      cases line with
      | none => cases done
      | some i =>
          obtain ⟨_, -, done⟩ := bind_ok.mp done
          cases done
          rfl
  | miss =>
      cases line with
      | none => cases done
      | some i =>
          dsimp only at done
          split at done
          next onMiss =>
            obtain ⟨_, -, done⟩ := bind_ok.mp done
            cases done
            simp only [if_pos onMiss, evictedFrom]
          next onFill =>
            cases done
            simp only [if_neg onFill]
  | sectorMiss =>
      cases line with
      | none => cases done
      | some i =>
          dsimp only at done
          split at done
          · obtain ⟨_, -, done⟩ := bind_ok.mp done
            cases done
            rfl
          · cases done
            rfl

end TagArray

/-- A write-back is among the events. -/
def WriteBackSent (events : List CacheEvent) : Prop := ∃ event ∈ events, event.type = .writeBackRequestSent

def modifiedSize (evicted : Option EvictedBlockInfo) : Nat := evicted.elim 0 EvictedBlockInfo.modifiedSize

namespace DataCache

/-- What `use_data_port` charges for the events of a miss. -/
def eventCharge (cfg : CacheConfig) (events : List CacheEvent) : Nat :=
  match wasWritebackSent events { type := .writeBackRequestSent } with
  | some event => event.evictedBlock.modifiedSize / cfg.dataPortWidth
  | none => 0

theorem useDataPort_missed {cfg : CacheConfig} {result : AccessResult} (dataSize : Nat)
    (missed : result.status = .miss ∨ result.status = .hitReserved) :
    (useDataPort cfg result dataSize).dataPortOccupiedCycles =
      result.cache.dataPortOccupiedCycles + eventCharge cfg result.events := by
  rcases missed with missed | missed
  · simp only [useDataPort, missed]
    rfl
  · simp only [useDataPort, missed]
    rfl

variable {cfg : DataCacheConfig} {cache : DataCache} {pool : MfPool} {mf : MfId} {time addr : Nat}
  {index : Option Nat} {status : CacheRequestStatus} {result : AccessResult} {evicted : Option EvictedBlockInfo}

/-- The block that an access writes back: the modified block that it evicts, unless every write went through
or the access allocates no line. -/
def writtenBack (cfg : DataCacheConfig) (cache : DataCache) (pool : MfPool) (addr : Nat) (mf : MfId) :
    Option EvictedBlockInfo :=
  if cfg.writePolicy = .writeThrough ∨ (pool.get mf).isWrite ∧ cfg.writeAllocPolicy = .noWriteAllocate then none
  else cache.tagArray.evictedBy cfg.toCacheConfig (cfg.blockAddr addr) (pool.get mf)

/-- The events of a miss: whether a write-back is one of them, and what they charge. -/
structure Traced (cfg : DataCacheConfig) (cache : DataCache) (back : Option EvictedBlockInfo) (reported : Prop)
    [Decidable reported] (result : AccessResult) : Prop where
  port : result.cache.dataPortOccupiedCycles = cache.dataPortOccupiedCycles
  sent : WriteBackSent result.events ↔ back.isSome
  charge : eventCharge cfg.toCacheConfig result.events =
    if reported then modifiedSize back / cfg.dataPortWidth else 0

/-- The events of `sendWriteBack`. -/
def writeBackEvents (cfg : DataCacheConfig) (evicted : Option EvictedBlockInfo) : List CacheEvent :=
  match evicted with
  | none => []
  | some evicted =>
      if cfg.writePolicy = .writeThrough then [] else [{ type := .writeBackRequestSent, evictedBlock := evicted }]

theorem sendWriteBack_events (evicted : Option EvictedBlockInfo) (request : MemFetch) (base : AccessResult) :
    (sendWriteBack cfg evicted request base).events = base.events ++ writeBackEvents cfg evicted := by
  cases evicted with
  | none => exact (List.append_nil _).symm
  | some evicted =>
      by_cases through : cfg.writePolicy = .writeThrough <;>
        simp [sendWriteBack, writeBackEvents, sendWriteRequest, through]

theorem sendWriteBack_port (evicted : Option EvictedBlockInfo) (request : MemFetch) (base : AccessResult) :
    (sendWriteBack cfg evicted request base).cache.dataPortOccupiedCycles = base.cache.dataPortOccupiedCycles := by
  cases evicted with
  | none => rfl
  | some evicted =>
      by_cases through : cfg.writePolicy = .writeThrough <;> simp [sendWriteBack, sendWriteRequest, through]

theorem sendReadRequest_evicted {config : CacheConfig} {sent : SentRead}
    (done : cache.sendReadRequest config pool addr index mf time = .ok (some sent)) :
    sent.evicted = cache.tagArray.evictedBy config addr (pool.get mf) ∧
      sent.cache.dataPortOccupiedCycles = cache.dataPortOccupiedCycles ∧
      ∀ event ∈ sent.events, event.type = .readRequestSent := by
  simp only [sendReadRequest] at done
  split at done
  next =>
    obtain ⟨⟨_, _, tags, evicted⟩, accessed, done⟩ := bind_ok.mp done
    obtain ⟨mshrs, -, done⟩ := bind_ok.mp done
    cases done
    exact ⟨TagArray.access_evicted accessed, rfl, by simp⟩
  next =>
    split at done
    next =>
      obtain ⟨⟨_, _, tags, evicted⟩, accessed, done⟩ := bind_ok.mp done
      obtain ⟨mshrs, -, done⟩ := bind_ok.mp done
      cases done
      exact ⟨TagArray.access_evicted accessed, rfl, by simp⟩
    next => split at done <;> cases done

theorem eventCharge_cons (config : CacheConfig) (event : CacheEvent) (events : List CacheEvent) :
    eventCharge config (event :: events) =
      if event.type = .writeBackRequestSent then event.evictedBlock.modifiedSize / config.dataPortWidth else 0 := by
  by_cases back : event.type = .writeBackRequestSent
  · simp only [eventCharge, wasWritebackSent, if_pos back]
  · simp only [eventCharge, wasWritebackSent, if_neg back]
    exact Nat.zero_div _

theorem eventCharge_eq_zero (config : CacheConfig) {events : List CacheEvent}
    (empty : ∀ event ∈ events, event.type = .writeBackRequestSent → event.evictedBlock.modifiedSize = 0) :
    eventCharge config events = 0 := by
  cases events with
  | nil => rfl
  | cons event events =>
    rw [eventCharge_cons]
    split
    next back => rw [empty event List.mem_cons_self back, Nat.zero_div]
    next => rfl

theorem not_writeBackSent {events : List CacheEvent}
    (none_back : ∀ event ∈ events, event.type ≠ .writeBackRequestSent) : ¬ WriteBackSent events := by
  rintro ⟨event, member, back⟩
  exact none_back event member back

theorem writeBackSent_append {front back : List CacheEvent}
    (others : ∀ event ∈ front, event.type ≠ .writeBackRequestSent) :
    WriteBackSent (front ++ back) ↔ WriteBackSent back := by
  constructor
  · rintro ⟨event, member, sent⟩
    exact ⟨event, (List.mem_append.mp member).resolve_left fun early => others event early sent, sent⟩
  · rintro ⟨event, member, sent⟩
    exact ⟨event, List.mem_append_right _ member, sent⟩

theorem writeBackSent_writeBackEvents :
    WriteBackSent (writeBackEvents cfg evicted) ↔
      (if cfg.writePolicy = .writeThrough then none else evicted).isSome := by
  by_cases through : cfg.writePolicy = .writeThrough <;> cases evicted <;>
    simp [WriteBackSent, writeBackEvents, through]

theorem eventCharge_writeBackEvents :
    eventCharge cfg.toCacheConfig (writeBackEvents cfg evicted) =
      modifiedSize (if cfg.writePolicy = .writeThrough then none else evicted) / cfg.dataPortWidth := by
  by_cases through : cfg.writePolicy = .writeThrough <;> cases evicted <;>
    simp [writeBackEvents, through, modifiedSize, eventCharge, wasWritebackSent]

/-- A write-back that follows another event is not charged. -/
theorem Traced.later {request : MemFetch} {base : AccessResult} {first : CacheEvent} {rest : List CacheEvent}
    (events : base.events = first :: rest) (others : ∀ event ∈ first :: rest, event.type ≠ .writeBackRequestSent)
    (port : base.cache.dataPortOccupiedCycles = cache.dataPortOccupiedCycles) :
    Traced cfg cache (if cfg.writePolicy = .writeThrough then none else evicted) False
      (sendWriteBack cfg evicted request base) where
  port := (sendWriteBack_port evicted request base).trans port
  sent := by rw [sendWriteBack_events, events, writeBackSent_append others, writeBackSent_writeBackEvents]
  charge := by
    rw [sendWriteBack_events, events, List.cons_append, eventCharge_cons,
      if_neg (others first List.mem_cons_self), if_neg not_false]

/-- One that is the first event is. -/
theorem Traced.first {request : MemFetch} {base : AccessResult} (events : base.events = [])
    (port : base.cache.dataPortOccupiedCycles = cache.dataPortOccupiedCycles) :
    Traced cfg cache (if cfg.writePolicy = .writeThrough then none else evicted) True
      (sendWriteBack cfg evicted request base) where
  port := (sendWriteBack_port evicted request base).trans port
  sent := by rw [sendWriteBack_events, events, List.nil_append, writeBackSent_writeBackEvents]
  charge := by rw [sendWriteBack_events, events, List.nil_append, eventCharge_writeBackEvents, if_pos trivial]

theorem Traced.of_back {back back' : Option EvictedBlockInfo} {reported reported' : Prop} [Decidable reported]
    [Decidable reported'] (traced : Traced cfg cache back reported result) (same : back = back')
    (iff : reported ↔ reported') : Traced cfg cache back' reported' result where
  port := traced.port
  sent := same ▸ traced.sent
  charge := by simpa only [same, iff] using traced.charge

/-- The read that a write sends evicts what the write itself would. -/
theorem evicted_allocRead {sender : DataCache} {sent : SentRead} (done : sender.sendReadRequest cfg.toCacheConfig
      (allocRead cfg.toCacheConfig pool (writeAllocateRequest cfg (pool.get mf))).2 addr index
      (allocRead cfg.toCacheConfig pool (writeAllocateRequest cfg (pool.get mf))).1 time = .ok (some sent)) :
    sent.evicted = sender.tagArray.evictedBy cfg.toCacheConfig addr (pool.get mf) := by
  obtain ⟨-, fields, -, -⟩ := allocRead_ok cfg.toCacheConfig pool (writeAllocateRequest cfg (pool.get mf))
  refine (sendReadRequest_evicted done).1.trans (TagArray.evictedBy_sectorMask ?_)
  rw [fields]
  rfl

theorem refuseRead_status {mshrAddr numMiss : Nat}
    (done : cache.refuseRead cfg.toCacheConfig pool mshrAddr numMiss = .ok result) :
    result.status = .reservationFail := by
  unfold refuseRead at done
  split at done
  · cases done
    rfl
  · cases done

section Handlers

variable (accepted : result.status ≠ .reservationFail)
include accepted

theorem rdMissBase_traced (read : (pool.get mf).isWrite = false)
    (done : cache.rdMissBase cfg.toCacheConfig pool addr index mf time cfg.wrbkType = .ok result) :
    Traced cfg cache (writtenBack cfg cache pool addr mf) False result := by
  simp only [rdMissBase] at done
  split at done
  · cases done
    exact absurd rfl accepted
  obtain ⟨outcome, sending, done⟩ := bind_ok.mp done
  cases outcome with
  | none =>
      cases done
      exact absurd rfl accepted
  | some sent =>
      obtain ⟨evicted, port, reads⟩ := sendReadRequest_evicted sending
      have none_back : ∀ event ∈ sent.events, event.type ≠ .writeBackRequestSent := by
        intro event member
        rw [reads event member]
        decide
      have is_back : writtenBack cfg cache pool addr mf =
          if cfg.writePolicy = .writeThrough then none else sent.evicted := by
        simp only [writtenBack, read, Bool.false_eq_true, false_and, or_false, evicted]
      dsimp only at done
      split at done
      next block dirty =>
        split at done
        next around =>
          cases done
          rw [is_back, if_neg around, dirty]
          refine ⟨port, ?_, ?_⟩
          · rw [writeBackSent_append none_back]
            exact ⟨fun _ => rfl, fun _ => ⟨_, List.mem_singleton_self _, rfl⟩⟩
          · rw [if_neg not_false]
            refine eventCharge_eq_zero _ fun event member back => ?_
            rcases List.mem_append.mp member with early | last
            · exact absurd back (none_back event early)
            · rw [List.mem_singleton.mp last]
        next through =>
          cases done
          rw [is_back, if_pos (not_not.mp through)]
          refine ⟨port, ?_, ?_⟩
          · exact iff_of_false (not_writeBackSent none_back) Bool.false_ne_true
          · rw [if_neg not_false]
            exact eventCharge_eq_zero _ fun event member back => absurd back (none_back event member)
      next clean =>
        cases done
        rw [is_back, clean, ite_self]
        refine ⟨port, ?_, ?_⟩
        · exact iff_of_false (not_writeBackSent none_back) Bool.false_ne_true
        · rw [if_neg not_false]
          exact eventCharge_eq_zero _ fun event member back => absurd back (none_back event member)

theorem wrMissNoWa_traced (write : (pool.get mf).isWrite = true) (policy : cfg.writeAllocPolicy = .noWriteAllocate)
    (done : cache.wrMissNoWa cfg pool mf = .ok result) :
    Traced cfg cache (writtenBack cfg cache pool addr mf) False result := by
  unfold wrMissNoWa at done
  split at done
  · cases done
    exact absurd rfl accepted
  · cases done
    rw [writtenBack, if_pos (.inr ⟨write, policy⟩)]
    refine ⟨rfl, ?_, ?_⟩
    · simp [WriteBackSent, sendWriteRequest]
    · rw [if_neg not_false]
      exact eventCharge_cons _ _ []

section Allocating

variable (allocates : cfg.writeAllocPolicy ≠ .noWriteAllocate)
include allocates

omit accepted in
theorem writtenBack_of_allocates : writtenBack cfg cache pool addr mf = if cfg.writePolicy = .writeThrough then none
    else cache.tagArray.evictedBy cfg.toCacheConfig (cfg.blockAddr addr) (pool.get mf) := by
  simp only [writtenBack, allocates, and_false, or_false]

theorem wrMissWaNaive_traced {status : CacheRequestStatus}
    (done : cache.wrMissWaNaive cfg pool addr index mf time status = .ok result) :
    Traced cfg cache (writtenBack cfg cache pool addr mf) False result := by
  simp only [wrMissWaNaive] at done
  split at done
  · exact absurd (refuseRead_status done) accepted
  obtain ⟨outcome, sending, done⟩ := bind_ok.mp done
  cases outcome with
  | none =>
      cases done
      exact absurd rfl accepted
  | some sent =>
      have port := (sendReadRequest_evicted sending).2.1
      dsimp only at done
      split at done
      · simp only [bind_ok, throw_ok, false_and, exists_const] at done
      · obtain rfl := pure_ok.mp done
        have evicted := evicted_allocRead sending
        have same : sent.evicted = cache.tagArray.evictedBy cfg.toCacheConfig (cfg.blockAddr addr) (pool.get mf) :=
          evicted
        rw [writtenBack_of_allocates allocates, ← same]
        exact .later rfl (by simp) port

theorem writePart_traced (done : cache.writePart cfg pool addr index mf time = .ok result) :
    Traced cfg cache (writtenBack cfg cache pool addr mf) False result := by
  simp only [writePart] at done
  split at done
  · exact absurd (refuseRead_status done) accepted
  split at done
  · cases done
    exact absurd rfl accepted
  obtain ⟨outcome, sending, done⟩ := bind_ok.mp done
  cases outcome with
  | none =>
      obtain ⟨_, -, done⟩ := bind_ok.mp done
      cases done
      exact absurd rfl accepted
  | some sent =>
      have port := (sendReadRequest_evicted sending).2.1
      obtain ⟨tags, -, done⟩ := bind_ok.mp done
      obtain rfl := pure_ok.mp done
      rw [writtenBack_of_allocates allocates, ← evicted_allocRead sending]
      exact .later rfl (by simp) port

/-- A write that is stored in the line it allocates. -/
theorem store_traced (change : CacheRequestStatus → CacheBlock → Except CacheFault CacheBlock) (done : ((do
      let (status, index, tagArray, evicted) ←
        cache.tagArray.access cfg.toCacheConfig (cfg.blockAddr addr) time index (pool.get mf)
      if status = .hit then throw .assertion
      let tagArray ← tagArray.modifyBlock index (change status)
      if status ≠ .reservationFail then
        return sendWriteBack cfg evicted (pool.get mf) ⟨.miss, [], { cache with tagArray }, pool⟩
      else return ⟨.reservationFail, [], { cache with tagArray }, pool⟩) : Except CacheFault AccessResult) =
        .ok result) :
    Traced cfg cache (writtenBack cfg cache pool addr mf) True result := by
  obtain ⟨⟨status, found, tags, evicted⟩, accessed, done⟩ := bind_ok.mp done
  dsimp only at done
  split at done
  · simp only [bind_ok, throw_ok, false_and, exists_const] at done
  obtain ⟨next, -, done⟩ := bind_ok.mp done
  split at done
  · obtain rfl := pure_ok.mp done
    rw [writtenBack_of_allocates allocates, ← TagArray.access_evicted accessed]
    exact .first rfl rfl
  · cases done
    exact absurd rfl accepted

theorem writeWhole_traced (done : cache.writeWhole cfg pool addr index mf time = .ok result) :
    Traced cfg cache (writtenBack cfg cache pool addr mf) True result := by
  unfold writeWhole at done
  split at done
  · cases done
    exact absurd rfl accepted
  · exact store_traced accepted allocates (fun _ block => block.setStatus .modified (pool.get mf).sectorMask) done

theorem wrMissWaLazyFetchOnRead_traced
    (done : cache.wrMissWaLazyFetchOnRead cfg pool addr index mf time = .ok result) :
    Traced cfg cache (writtenBack cfg cache pool addr mf) True result := by
  unfold wrMissWaLazyFetchOnRead at done
  split at done
  · cases done
    exact absurd rfl accepted
  · exact store_traced accepted allocates (fun status => writeLazily cfg.toCacheConfig status (pool.get mf)) done

end Allocating

/-- Only the writes that are stored at once report their write-back first. -/
theorem wrMiss_traced {status : CacheRequestStatus} (write : (pool.get mf).isWrite = true)
    (done : cache.wrMiss cfg pool addr index mf time status = .ok result) :
    Traced cfg cache (writtenBack cfg cache pool addr mf) (storesOnMiss cfg (pool.get mf) = true) result := by
  unfold wrMiss at done
  split at done
  next policy => exact (wrMissNoWa_traced accepted write policy done).of_back rfl (by simp [storesOnMiss, policy])
  next policy =>
    exact (wrMissWaNaive_traced accepted (by rw [policy]; decide) done).of_back rfl (by simp [storesOnMiss, policy])
  next policy =>
    have allocates : cfg.writeAllocPolicy ≠ .noWriteAllocate := by
      rw [policy]
      decide
    unfold wrMissWaFetchOnWrite at done
    split at done
    next whole =>
      exact (writeWhole_traced accepted allocates done).of_back rfl (by simp [storesOnMiss, policy, whole])
    next part => exact (writePart_traced accepted allocates done).of_back rfl (by simp [storesOnMiss, policy, part])
  next policy =>
    exact (wrMissWaLazyFetchOnRead_traced accepted (by rw [policy]; decide) done).of_back rfl
      (by simp [storesOnMiss, policy])

end Handlers

theorem wrHit_status (done : cache.wrHit cfg pool addr index mf time = .ok result) :
    result.status = .hit ∨ result.status = .reservationFail := by
  have stored {wrote : AccessResult} (done : cache.wrHitWb cfg pool addr index mf time = .ok wrote) :
      wrote.status = .hit := by
    obtain ⟨_, -, done⟩ := bind_ok.mp done
    obtain ⟨_, -, done⟩ := bind_ok.mp done
    cases done
    rfl
  have evicts {wrote : AccessResult} (done : cache.wrHitWe cfg pool index mf = .ok wrote) :
      wrote.status = .hit ∨ wrote.status = .reservationFail := by
    unfold wrHitWe at done
    split at done
    · cases done
      exact .inr rfl
    · obtain ⟨_, -, done⟩ := bind_ok.mp done
      cases done
      exact .inl rfl
  unfold wrHit at done
  split at done
  next => cases done
  next => exact .inl (stored done)
  next =>
    unfold wrHitWt at done
    split at done
    · cases done
      exact .inr rfl
    · obtain ⟨_, -, done⟩ := bind_ok.mp done
      obtain ⟨_, -, done⟩ := bind_ok.mp done
      cases done
      exact .inl rfl
  next => exact evicts done
  next =>
    unfold wrHitGlobalWeLocalWb at done
    split at done
    · exact evicts done
    · exact .inl (stored done)

theorem rdHitBase_status {config : CacheConfig} (done : cache.rdHitBase config pool addr index mf time = .ok result) :
    result.status = .hit := by
  obtain ⟨⟨_, found, tags, evicted⟩, -, done⟩ := bind_ok.mp done
  dsimp only at done
  split at done
  · simp only [bind_ok, throw_ok, false_and, exists_const] at done
  split at done
  · split at done
    · simp only [bind_ok, throw_ok, false_and, exists_const] at done
    · cases found with
      | none => cases done
      | some i =>
          obtain ⟨_, -, done⟩ := bind_ok.mp done
          cases done
          rfl
  · cases done
    rfl

theorem evictedBy_of_writtenBack {block : EvictedBlockInfo} (back : writtenBack cfg cache pool addr mf = some block) :
    cache.tagArray.evictedBy cfg.toCacheConfig (cfg.blockAddr addr) (pool.get mf) = some block := by
  unfold writtenBack at back
  split at back
  · cases back
  · exact back

/-- A miss reports its write-back first when it is a write that is stored at once. -/
theorem ReadWrite.processTagProbe_traced {probed : CacheRequestStatus}
    (missed : result.status = .miss ∨ result.status = .hitReserved)
    (done : ReadWrite.processTagProbe cfg cache pool probed addr index mf time = .ok result) :
    Traced cfg cache (writtenBack cfg cache pool addr mf)
      ((pool.get mf).isWrite = true ∧ storesOnMiss cfg (pool.get mf) = true) result := by
  have accepted : result.status ≠ .reservationFail := by
    rcases missed with missed | missed <;> simp [missed]
  have no_hit : result.status ≠ .hit := by
    rcases missed with missed | missed <;> simp [missed]
  unfold ReadWrite.processTagProbe at done
  split at done
  next write =>
    split at done
    · exact absurd (wrHit_status done) (by simp [accepted, no_hit])
    split at done
    · exact (wrMiss_traced accepted write done).of_back rfl (by simp [write])
    · cases done
      exact absurd rfl accepted
  next read =>
    split at done
    · exact absurd (rdHitBase_status done) no_hit
    split at done
    · exact (rdMissBase_traced accepted (by simpa using read) done).of_back rfl (by simp [read])
    · cases done
      exact absurd rfl accepted

/-- An access that sends a write-back keeps the data port busy for the modified part of the evicted block, and any
other for nothing. -/
def PaysForWriteBack (cfg : DataCacheConfig) (cache : DataCache) (pool : MfPool) (addr : Nat) (mf : MfId)
    (result : AccessResult) : Prop :=
  (WriteBackSent result.events → ∃ evicted,
    cache.tagArray.evictedBy cfg.toCacheConfig (cfg.blockAddr addr) (pool.get mf) = some evicted ∧
    result.cache.dataPortOccupiedCycles =
      cache.dataPortOccupiedCycles + evicted.modifiedSize / cfg.dataPortWidth) ∧
  (¬ WriteBackSent result.events → result.cache.dataPortOccupiedCycles = cache.dataPortOccupiedCycles)

/-- A miss pays for its write-back exactly when it has none, or one that is smaller than the port, or is a write that
is stored at once: reads, and writes that also send the write or a read, pay nothing. -/
theorem ReadWrite.pays_for_write_back_iff (width : 0 < cfg.dataPortWidth)
    (done : ReadWrite.access cfg cache pool addr mf time = .ok result)
    (missed : result.status = .miss ∨ result.status = .hitReserved) :
    PaysForWriteBack cfg cache pool addr mf result ↔
      ∀ evicted, writtenBack cfg cache pool addr mf = some evicted →
        evicted.modifiedSize < cfg.dataPortWidth ∨
          (pool.get mf).isWrite = true ∧ storesOnMiss cfg (pool.get mf) = true := by
  simp only [ReadWrite.access] at done
  split at done
  · simp only [bind_ok, throw_ok, false_and, exists_const] at done
  obtain ⟨⟨probed, line⟩, -, done⟩ := bind_ok.mp done
  obtain ⟨inner, processed, done⟩ := bind_ok.mp done
  obtain rfl := pure_ok.mp done
  have missed : inner.status = .miss ∨ inner.status = .hitReserved := missed
  have traced := ReadWrite.processTagProbe_traced missed processed
  have paid := @useDataPort_missed cfg.toCacheConfig _ (inner.pool.get mf).dataSize missed
  rw [traced.port, traced.charge] at paid
  cases back : writtenBack cfg cache pool addr mf with
  | none =>
    have unsent : ¬ WriteBackSent inner.events := by
      rw [traced.sent, back]
      simp
    rw [back] at paid
    refine iff_of_true ⟨fun sent => absurd sent unsent, fun _ => paid.trans ?_⟩ ?_
    · simp [modifiedSize]
    · rintro evicted ⟨⟩
  | some evicted =>
    have sent : WriteBackSent inner.events := by
      rw [traced.sent, back]
      rfl
    have is_evicted := evictedBy_of_writtenBack back
    rw [back] at paid
    have pays : PaysForWriteBack cfg cache pool addr mf { inner with
        cache := useDataPort cfg.toCacheConfig inner (inner.pool.get mf).dataSize } ↔
        (useDataPort cfg.toCacheConfig inner (inner.pool.get mf).dataSize).dataPortOccupiedCycles =
          cache.dataPortOccupiedCycles + evicted.modifiedSize / cfg.dataPortWidth := by
      constructor
      · intro pays
        obtain ⟨block, is_block, cycles⟩ := pays.1 sent
        obtain rfl := Option.some.inj (is_evicted.symm.trans is_block)
        exact cycles
      · exact fun cycles => ⟨fun _ => ⟨evicted, is_evicted, cycles⟩, fun unsent => absurd sent unsent⟩
    refine pays.trans ?_
    rw [paid, Nat.add_left_cancel_iff]
    have small : evicted.modifiedSize / cfg.dataPortWidth = 0 ↔ evicted.modifiedSize < cfg.dataPortWidth :=
      Nat.div_eq_zero_iff_lt width
    by_cases stored : (pool.get mf).isWrite = true ∧ storesOnMiss cfg (pool.get mf) = true
    · rw [if_pos stored]
      refine ⟨fun _ block is_block => .inr stored, fun _ => rfl⟩
    · rw [if_neg stored, eq_comm, small]
      constructor
      · intro less block is_block
        obtain rfl := Option.some.inj is_block
        exact .inl less
      · exact fun less => (less evicted rfl).resolve_right stored

end DataCache

namespace CacheSystem

/-- A second write takes the only line: the block of 128 bytes that the first one modified is written back, and the port
of 32 bytes is charged for it. -/
theorem pays_for_write_back_iff_second_write : ∃ history s result,
    Run .data (oneLine .writeBack .lazyFetchOnRead) (poolOf [lineWrite .globalAccW 0, lineWrite .globalAccW 128])
      history s ∧
    CacheKind.access .data (oneLine .writeBack .lazyFetchOnRead) s.cache s.pool (.request 1) 1 = .ok result ∧
    result.status = .miss ∧ WriteBackSent result.events ∧
    DataCache.PaysForWriteBack (oneLine .writeBack .lazyFetchOnRead) s.cache s.pool (s.pool.get (.request 1)).addr
      (.request 1) result := by
  have passed : testRun .data (oneLine .writeBack .lazyFetchOnRead)
      (poolOf [lineWrite .globalAccW 0, lineWrite .globalAccW 128]) [.access (.request 0) 0] (fun _ s =>
        (s.pool.get (.request 1)).isWrite &&
          succeedsWith (CacheKind.access .data (oneLine .writeBack .lazyFetchOnRead) s.cache s.pool (.request 1) 1)
            fun result => result.status == .miss &&
              result.events.any fun event => event.type == .writeBackRequestSent) = true := rfl
  obtain ⟨history, s, run, test⟩ := exists_run passed
  rw [Bool.and_eq_true] at test
  obtain ⟨write, test⟩ := test
  obtain ⟨result, done, test⟩ := exists_of_succeedsWith test
  simp only [Bool.and_eq_true, beq_iff_eq, List.any_eq_true] at test
  obtain ⟨missed, sent⟩ := test
  refine ⟨history, s, result, run, done, missed, sent, ?_⟩
  exact (DataCache.ReadWrite.pays_for_write_back_iff (by decide) done (.inl missed)).mpr fun _ _ => .inr ⟨write, rfl⟩

/-- A write of the only line, and then a read of another block: the modified line of 128 bytes is written back, and the
port of 32 bytes is not charged for it. -/
theorem write_back_of_read_not_charged :
    ¬ ∀ (cfg : DataCacheConfig) (pool : MfPool) (history : List CacheMove) (s : CacheSystem) (mf : MfId) (time : Nat)
      (result : AccessResult), cfg.Accepted → Run .data cfg pool history s →
      CacheKind.access .data cfg s.cache s.pool mf time = .ok result → result.status = .miss →
      DataCache.PaysForWriteBack cfg s.cache s.pool (s.pool.get mf).addr mf result := by
  intro claim
  have passed : testRun .data (oneLine .writeBack .lazyFetchOnRead)
      (poolOf [lineWrite .globalAccW 0, requestTo .globalAccR 128]) [.access (.request 0) 0] (fun _ s =>
        succeedsWith (CacheKind.access .data (oneLine .writeBack .lazyFetchOnRead) s.cache s.pool (.request 1) 1)
          fun result => result.status == .miss &&
            result.events.any (fun event => event.type == .writeBackRequestSent) &&
            s.cache.tagArray.evictedBy (oneLine .writeBack .lazyFetchOnRead).toCacheConfig
              ((oneLine .writeBack .lazyFetchOnRead).blockAddr (s.pool.get (.request 1)).addr)
              (s.pool.get (.request 1)) ==
                some ⟨0, 128⟩ &&
            result.cache.dataPortOccupiedCycles == 0 && s.cache.dataPortOccupiedCycles == 0) = true := rfl
  obtain ⟨history, s, run, test⟩ := exists_run passed
  obtain ⟨result, done, test⟩ := exists_of_succeedsWith test
  simp only [Bool.and_eq_true, beq_iff_eq, List.any_eq_true] at test
  obtain ⟨⟨⟨⟨missed, sent⟩, block⟩, idle⟩, free⟩ := test
  obtain ⟨evicted, is_evicted, cycles⟩ :=
    (claim _ _ history s _ 1 result (oneLine_accepted _ _) run done missed).1 sent
  rw [block] at is_evicted
  cases is_evicted
  rw [idle, free] at cycles
  exact absurd cycles (by decide)

end CacheSystem

end GpgpuSim.Cache
