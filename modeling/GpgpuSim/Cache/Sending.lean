import GpgpuSim.Cache.AccessRuns

/-! What a cache sends. An access puts its own request into the miss queue at most once, a write exactly
when it says so; everything else it puts there are new requests of the cache. -/
namespace GpgpuSim.Memory.MfPool

/-- Requests in use keep their kind, and writes keep everything. -/
structure KeepsKinds (pool before : MfPool) : Prop where
  nextSerial : before.nextSerial ≤ pool.nextSerial
  accessType : ∀ mf, mf.serial < before.nextSerial → (pool.get mf).accessType = (before.get mf).accessType
  write : ∀ mf, mf.serial < before.nextSerial → (before.get mf).isWrite = true → pool.get mf = before.get mf

namespace KeepsKinds

theorem refl (pool : MfPool) : KeepsKinds pool pool := ⟨Nat.le_refl _, fun _ _ => rfl, fun _ _ _ => rfl⟩

theorem isWrite {pool before : MfPool} {mf : MfId} (kinds : KeepsKinds pool before)
    (in_use : mf.serial < before.nextSerial) : (pool.get mf).isWrite = (before.get mf).isWrite :=
  congrArg MemAccessType.isWrite (kinds.accessType mf in_use)

theorem trans {a b c : MfPool} (ab : KeepsKinds a b) (bc : KeepsKinds b c) : KeepsKinds a c where
  nextSerial := Nat.le_trans bc.nextSerial ab.nextSerial
  accessType mf in_use :=
    (ab.accessType mf (Nat.lt_of_lt_of_le in_use bc.nextSerial)).trans (bc.accessType mf in_use)
  write mf in_use write := by
    have later := Nat.lt_of_lt_of_le in_use bc.nextSerial
    rw [ab.write mf later ((bc.isWrite in_use).trans write), bc.write mf in_use write]

/-- A new request changes none that is in use. -/
theorem of_update {pool : MfPool} {mf : MfId} (fields : MemFetch) (fresh : mf.serial = pool.nextSerial) :
    KeepsKinds { get := Function.update pool.get mf fields, nextSerial := pool.nextSerial + 1 } pool := by
  have same : ∀ other : MfId, other.serial < pool.nextSerial →
      Function.update pool.get mf fields other = pool.get other := by
    intro other in_use
    refine Function.update_of_ne ?_ _ _
    rintro rfl
    omega
  refine ⟨Nat.le_succ _, ?_, ?_⟩
  · intro other in_use
    exact congrArg MemFetch.accessType (same other in_use)
  · intro other in_use _
    exact same other in_use

theorem alloc (pool : MfPool) (fields : MemFetch) : KeepsKinds (pool.alloc fields).2 pool := of_update fields rfl

/-- A read request is changed, but for its kind. -/
theorem modify {pool : MfPool} {mf : MfId} {change : MemFetch → MemFetch} (read : (pool.get mf).isWrite = false)
    (keeps : ∀ request, (change request).accessType = request.accessType) :
    KeepsKinds (pool.modify mf change) pool := by
  refine ⟨Nat.le_refl _, ?_, ?_⟩
  · intro other _
    by_cases same : other = mf
    · rw [same, get_modify_self, keeps]
    · rw [get_modify_of_ne pool change same]
  · intro other _ write
    have apart : other ≠ mf := by
      rintro rfl
      rw [read] at write
      cases write
    exact get_modify_of_ne pool change apart

end KeepsKinds

end GpgpuSim.Memory.MfPool

namespace GpgpuSim.Cache
open GpgpuSim.Memory Transition

/-- A request that the cache itself has made since `pool`. -/
structure OwnRequest (cfg : DataCacheConfig) (pool pool' : MfPool) (q : MfId) : Prop where
  fresh : pool.nextSerial ≤ q.serial
  in_use : q.serial < pool'.nextSerial
  kind : (pool'.get q).accessType = cfg.wrAllocType ∨ (pool'.get q).accessType = cfg.wrbkType

/-- The requests that go into the miss queue, `own` times `mf` among them. What is recorded as a pending
fill is a read. -/
structure Sends (cfg : DataCacheConfig) (cache : DataCache) (pool : MfPool) (mf : MfId) (next : DataCache)
    (pool' : MfPool) (own : Nat) : Prop where
  kinds : pool'.KeepsKinds pool
  queue : ∃ sent, next.missQueue = cache.missQueue ++ sent ∧ sent.count mf = own ∧
    ∀ q ∈ sent, q = mf ∨ OwnRequest cfg pool pool' q
  pending : ∀ q, (next.extraMfFields q).isSome → (cache.extraMfFields q).isSome ∨
    (pool'.get q).isWrite = false ∧ q.serial < pool'.nextSerial

namespace Sends

variable {cfg : DataCacheConfig} {cache next last : DataCache} {pool pool' pool'' : MfPool} {mf : MfId}
  {own own' time addr : Nat} {index : Option Nat}

/-- The tags and the registers may change. -/
theorem nothing (missQueue : next.missQueue = cache.missQueue) (extras : next.extraMfFields = cache.extraMfFields) :
    Sends cfg cache pool mf next pool 0 where
  kinds := .refl pool
  queue := ⟨[], by simpa using missQueue, rfl, by simp⟩
  pending q pending := .inl (extras ▸ pending)

theorem trans (first : Sends cfg cache pool mf next pool' own) (second : Sends cfg next pool' mf last pool'' own') :
    Sends cfg cache pool mf last pool'' (own + own') := by
  obtain ⟨sent, queue, count, each⟩ := first.queue
  obtain ⟨sent', queue', count', each'⟩ := second.queue
  refine ⟨second.kinds.trans first.kinds, ⟨sent ++ sent', ?_, ?_, ?_⟩, ?_⟩
  · rw [queue', queue, List.append_assoc]
  · rw [List.count_append, count, count']
  · intro q member
    rcases List.mem_append.mp member with early | late
    · refine (each q early).imp_right fun made => ?_
      refine ⟨made.fresh, Nat.lt_of_lt_of_le made.in_use second.kinds.nextSerial, ?_⟩
      rw [second.kinds.accessType q made.in_use]
      exact made.kind
    · refine (each' q late).imp_right fun made => ?_
      exact ⟨Nat.le_trans first.kinds.nextSerial made.fresh, made.in_use, made.kind⟩
  · intro q pending
    rcases second.pending q pending with before | read
    · refine (first.pending q before).imp_right fun ⟨read, in_use⟩ => ?_
      exact ⟨(second.kinds.isWrite in_use).trans read, Nat.lt_of_lt_of_le in_use second.kinds.nextSerial⟩
    · exact .inr read

end Sends

namespace Sends

variable {cfg : DataCacheConfig} {cache next : DataCache} {pool pool' : MfPool} {mf r : MfId}
  {own time addr : Nat} {index : Option Nat} {sent : SentRead}

/-- A read of the request itself. -/
theorem read (read : (pool.get mf).isWrite = false) (in_use : mf.serial < pool.nextSerial)
    (done : cache.sendReadRequest cfg.toCacheConfig pool addr index mf time = .ok (some sent)) :
    ∃ own ≤ 1, Sends cfg cache pool mf sent.cache sent.pool own := by
  rcases (DataCache.sendReadRequest_ok done).1 with merged | ⟨extra, primary⟩
  · refine ⟨0, by omega, ?_⟩
    rw [merged.pool]
    exact .nothing merged.missQueue merged.extraMfFields
  · refine ⟨1, by omega, ?_, ⟨[mf], primary.missQueue, by simp, by simp⟩, ?_⟩
    · rw [primary.pool]
      exact .modify read fun _ => rfl
    · intro q pending
      by_cases same : q = mf
      · subst same
        refine .inr ⟨?_, ?_⟩
        · rw [primary.pool, MfPool.get_modify_self]
          exact read
        · rw [primary.pool]
          exact in_use
      · rw [primary.extraMfFields, Function.update_of_ne same] at pending
        exact .inl pending

/-- A read for a written block, under a new request. -/
theorem fetch (reads : cfg.wrAllocType.isWrite = false) (in_use : mf.serial < pool.nextSerial) (request : MemFetch)
    (made : DataCache.allocRead cfg.toCacheConfig pool (DataCache.writeAllocateRequest cfg request) = (r, pool'))
    (done : cache.sendReadRequest cfg.toCacheConfig pool' addr index r time = .ok (some sent)) :
    Sends cfg cache pool mf sent.cache sent.pool 0 := by
  obtain ⟨number, fields, -, next_serial⟩ :=
    DataCache.allocRead_ok cfg.toCacheConfig pool (DataCache.writeAllocateRequest cfg request)
  have new_kinds : pool'.KeepsKinds pool := by
    have kinds := MfPool.KeepsKinds.of_update (DataCache.writeAllocateRequest cfg request) number
    have same : (DataCache.allocRead cfg.toCacheConfig pool (DataCache.writeAllocateRequest cfg request)).2 = pool' :=
      congrArg Prod.snd made
    rw [← same]
    exact kinds
  rw [made] at number fields next_serial
  dsimp only at number fields next_serial
  have kind : (pool'.get r).accessType = cfg.wrAllocType := by
    rw [fields]
    rfl
  have read : (pool'.get r).isWrite = false := (congrArg MemAccessType.isWrite kind).trans reads
  have other : r ≠ mf := by
    rintro rfl
    omega
  rcases (DataCache.sendReadRequest_ok done).1 with merged | ⟨extra, primary⟩
  · rw [merged.pool]
    exact ⟨new_kinds, ⟨[], by rw [merged.missQueue, List.append_nil], rfl, by simp⟩,
      fun q pending => .inl (merged.extraMfFields ▸ pending)⟩
  · have kinds : sent.pool.KeepsKinds pool' := by
      rw [primary.pool]
      exact .modify read fun _ => rfl
    have r_in_use : r.serial < pool'.nextSerial := by omega
    refine ⟨kinds.trans new_kinds, ⟨[r], primary.missQueue, by simp [other], ?_⟩, ?_⟩
    · intro q member
      obtain rfl := List.mem_singleton.mp member
      exact .inr ⟨by omega, Nat.lt_of_lt_of_le r_in_use kinds.nextSerial,
        .inl ((kinds.accessType q r_in_use).trans kind)⟩
    · intro q pending
      by_cases same : q = r
      · subst same
        exact .inr ⟨(kinds.isWrite r_in_use).trans read, Nat.lt_of_lt_of_le r_in_use kinds.nextSerial⟩
      · rw [primary.extraMfFields, Function.update_of_ne same] at pending
        exact .inl pending

/-- The write-back of an evicted block. -/
theorem writeBack (in_use : mf.serial < pool.nextSerial) (evicted : Option EvictedBlockInfo) (request : MemFetch)
    (status : CacheRequestStatus) (events : List CacheEvent) :
    Sends cfg cache pool mf
      (DataCache.sendWriteBack cfg evicted request ⟨status, events, cache, pool⟩).cache
      (DataCache.sendWriteBack cfg evicted request ⟨status, events, cache, pool⟩).pool 0 := by
  unfold DataCache.sendWriteBack
  cases evicted with
  | none => exact .nothing rfl rfl
  | some evicted =>
      dsimp only
      split
      next =>
        have other : MfId.request pool.nextSerial ≠ mf := by
          rintro rfl
          exact Nat.lt_irrefl _ in_use
        refine ⟨.alloc _ _, ⟨[.request pool.nextSerial], rfl, by simp [other], ?_⟩, fun q pending => .inl pending⟩
        intro q member
        obtain rfl := List.mem_singleton.mp member
        refine .inr ⟨Nat.le_refl _, Nat.lt_succ_self _, .inr ?_⟩
        exact congrArg MemFetch.accessType
          (MfPool.get_alloc_self pool (DataCache.writeBackRequest evicted request cfg.wrbkType))
      next => exact .nothing rfl rfl

/-- The request itself goes on. -/
theorem itself (missQueue : next.missQueue = cache.missQueue ++ [mf])
    (extras : next.extraMfFields = cache.extraMfFields) :
    Sends cfg cache pool mf next pool 1 where
  kinds := .refl pool
  queue := ⟨[mf], missQueue, by simp, by simp⟩
  pending q pending := .inl (extras ▸ pending)

end Sends

/-- Which write misses stay in the cache. -/
def WriteAllocatePolicy.absorbs : WriteAllocatePolicy → Bool
  | .fetchOnWrite | .lazyFetchOnRead => true
  | .noWriteAllocate | .writeAllocate => false

/-- An accepted or refused write. A write that misses goes on unless the policy keeps it in the cache. -/
structure WriteSends (cfg : DataCacheConfig) (cache : DataCache) (pool : MfPool) (mf : MfId) (result : AccessResult) :
    Prop where
  sends : Sends cfg cache pool mf result.cache result.pool (if wasWriteSent result.events then 1 else 0)
  refused : result.status = .reservationFail → wasWriteSent result.events = false
  missed : result.status = .miss → wasWriteSent result.events = !cfg.writeAllocPolicy.absorbs
  status : result.status = .hit ∨ result.status = .miss ∨ result.status = .reservationFail

theorem WriteSends.refuse {cfg : DataCacheConfig} {cache : DataCache} {pool : MfPool} {mf : MfId} :
    WriteSends cfg cache pool mf ⟨.reservationFail, [], cache, pool⟩ where
  sends := .nothing rfl rfl
  refused _ := rfl
  missed := by simp
  status := by simp

namespace DataCache

variable {cfg : DataCacheConfig} {cache : DataCache} {pool : MfPool} {mf : MfId} {time addr : Nat}
  {index : Option Nat} {result : AccessResult}

/-- A write that hits is kept, or goes on. -/
theorem wrHit_sends (done : cache.wrHit cfg pool addr index mf time = .ok result) :
    WriteSends cfg cache pool mf result ∧ result.status ≠ .miss := by
  have back : cache.wrHitWb cfg pool addr index mf time = .ok result →
      WriteSends cfg cache pool mf result ∧ result.status ≠ .miss := by
    intro done
    obtain ⟨⟨_, found, tags⟩, -, done⟩ := bind_ok.mp done
    obtain ⟨tags, -, done⟩ := bind_ok.mp done
    obtain rfl := pure_ok.mp done
    exact ⟨⟨.nothing rfl rfl, by simp, by simp, by simp⟩, by simp⟩
  have evict : cache.wrHitWe cfg pool index mf = .ok result →
      WriteSends cfg cache pool mf result ∧ result.status ≠ .miss := by
    intro done
    unfold wrHitWe at done
    split at done
    · cases done
      exact ⟨.refuse, by simp⟩
    · obtain ⟨tags, -, done⟩ := bind_ok.mp done
      obtain rfl := pure_ok.mp done
      exact ⟨⟨.itself rfl rfl, by simp [sendWriteRequest], by simp [sendWriteRequest], by simp [sendWriteRequest]⟩,
        by simp [sendWriteRequest]⟩
  unfold wrHit at done
  split at done
  · cases done
  · exact back done
  · unfold wrHitWt at done
    split at done
    · cases done
      exact ⟨.refuse, by simp⟩
    · obtain ⟨⟨_, found, tags⟩, -, done⟩ := bind_ok.mp done
      obtain ⟨tags, -, done⟩ := bind_ok.mp done
      obtain rfl := pure_ok.mp done
      exact ⟨⟨.itself rfl rfl, by simp [sendWriteRequest], by simp [sendWriteRequest], by simp [sendWriteRequest]⟩,
        by simp [sendWriteRequest]⟩
  · exact evict done
  · unfold wrHitGlobalWeLocalWb at done
    split at done
    · exact evict done
    · exact back done

theorem refuseRead_sends {mshrAddr numMiss : Nat}
    (done : cache.refuseRead cfg.toCacheConfig pool mshrAddr numMiss = .ok result) :
    WriteSends cfg cache pool mf result ∧ result.status ≠ .hit := by
  unfold refuseRead at done
  split at done
  · cases done
    exact ⟨.refuse, by simp⟩
  · cases done

/-- Nothing else is done to a result that a write-back follows. -/
theorem sendWriteBack_same (evicted : Option EvictedBlockInfo) (request : MemFetch) (base : AccessResult) :
    (sendWriteBack cfg evicted request base).status = base.status ∧
      wasWriteSent (sendWriteBack cfg evicted request base).events = wasWriteSent base.events :=
  have back := sendWriteBack_ok evicted request base
  ⟨back.status, back.events⟩

variable (reads : cfg.wrAllocType.isWrite = false) (in_use : mf.serial < pool.nextSerial)
include reads in_use

theorem wrMissWaNaive_sends {status : CacheRequestStatus} (policy : cfg.writeAllocPolicy = .writeAllocate)
    (done : cache.wrMissWaNaive cfg pool addr index mf time status = .ok result) :
    WriteSends cfg cache pool mf result ∧ result.status ≠ .hit := by
  simp only [wrMissWaNaive] at done
  split at done
  · exact refuseRead_sends done
  next accepted =>
    obtain ⟨outcome, sending, done⟩ := bind_ok.mp done
    obtain ⟨-, fields, -, -⟩ := allocRead_ok cfg.toCacheConfig pool (writeAllocateRequest cfg (pool.get mf))
    simp only [sendWriteRequest] at sending done
    generalize made : allocRead cfg.toCacheConfig pool (writeAllocateRequest cfg (pool.get mf)) = pair at *
    obtain ⟨r, before⟩ := pair
    dsimp only at fields sending done
    cases outcome with
    | none =>
        -- the registers have been asked for room already
        have full := full_of_sendReadRequest sending
        have addr : (before.get r).addr = (pool.get mf).addr := by
          rw [fields]
          rfl
        rw [addr] at full
        rw [room_of_readRefused accepted] at full
        contradiction
    | some sent =>
        dsimp only at done
        split at done
        · simp only [bind_ok, throw_ok, false_and, exists_const] at done
        · obtain rfl := pure_ok.mp done
          obtain ⟨status, events⟩ := @sendWriteBack_same cfg sent.evicted (pool.get mf)
            ⟨.miss, [] ++ [{ type := .writeRequestSent }] ++ [{ type := .writeAllocateSent }], sent.cache, sent.pool⟩
          have first : Sends cfg cache pool mf { cache with missQueue := cache.missQueue ++ [mf] } pool 1 :=
            .itself rfl rfl
          have fetched := first.trans (.fetch reads in_use (pool.get mf) made sending)
          have all := fetched.trans (@Sends.writeBack cfg sent.cache sent.pool mf
            (Nat.lt_of_lt_of_le in_use fetched.kinds.nextSerial) sent.evicted (pool.get mf) .miss
            ([] ++ [{ type := .writeRequestSent }] ++ [{ type := .writeAllocateSent }]))
          refine ⟨⟨?_, ?_, ?_, ?_⟩, ?_⟩
          · rw [events]
            exact all
          · rw [status]
            simp
          · rw [events, policy]
            simp [wasWriteSent, WriteAllocatePolicy.absorbs]
          · rw [status]
            simp
          · rw [status]
            simp

theorem writePart_sends (policy : cfg.writeAllocPolicy = .fetchOnWrite)
    (done : cache.writePart cfg pool addr index mf time = .ok result) :
    WriteSends cfg cache pool mf result ∧ result.status ≠ .hit := by
  simp only [writePart] at done
  split at done
  · exact refuseRead_sends done
  next accepted =>
    split at done
    · cases done
      exact ⟨.refuse, by simp⟩
    · obtain ⟨outcome, sending, done⟩ := bind_ok.mp done
      obtain ⟨-, fields, -, -⟩ := allocRead_ok cfg.toCacheConfig pool (writeAllocateRequest cfg (pool.get mf))
      generalize made : allocRead cfg.toCacheConfig pool (writeAllocateRequest cfg (pool.get mf)) = pair at *
      obtain ⟨r, before⟩ := pair
      dsimp only at fields sending done
      cases outcome with
      | none =>
          have full := full_of_sendReadRequest sending
          have addr : (before.get r).addr = (pool.get mf).addr := by
            rw [fields]
            rfl
          rw [addr, room_of_readRefused accepted] at full
          contradiction
      | some sent =>
          obtain ⟨tags, -, done⟩ := bind_ok.mp done
          obtain rfl := pure_ok.mp done
          obtain ⟨status, events⟩ := @sendWriteBack_same cfg sent.evicted (pool.get mf)
            ⟨.miss, [{ type := .writeAllocateSent }], { sent.cache with tagArray := tags }, sent.pool⟩
          have fetched : Sends cfg cache pool mf sent.cache sent.pool 0 :=
            .fetch reads in_use (pool.get mf) made sending
          have marked : Sends cfg sent.cache sent.pool mf { sent.cache with tagArray := tags } sent.pool 0 :=
            .nothing rfl rfl
          have all := (fetched.trans marked).trans
            (@Sends.writeBack cfg { sent.cache with tagArray := tags } sent.pool mf
            (Nat.lt_of_lt_of_le in_use fetched.kinds.nextSerial) sent.evicted (pool.get mf) .miss
            [{ type := .writeAllocateSent }])
          refine ⟨⟨?_, ?_, ?_, ?_⟩, ?_⟩
          · rw [events]
            exact all
          · rw [status]
            simp
          · rw [events, policy]
            simp [wasWriteSent, WriteAllocatePolicy.absorbs]
          · rw [status]
            simp
          · rw [status]
            simp

omit reads in
/-- A write that is stored in the line it allocates. -/
theorem stored_sends (absorbs : cfg.writeAllocPolicy.absorbs = true) (tags : TagArray)
    (evicted : Option EvictedBlockInfo) (request : MemFetch) :
    WriteSends cfg cache pool mf
      (sendWriteBack cfg evicted request ⟨.miss, [], { cache with tagArray := tags }, pool⟩) ∧
      (sendWriteBack cfg evicted request ⟨.miss, [], { cache with tagArray := tags }, pool⟩).status ≠ .hit := by
  obtain ⟨status, events⟩ := @sendWriteBack_same cfg evicted request ⟨.miss, [], { cache with tagArray := tags }, pool⟩
  have changed : Sends cfg cache pool mf { cache with tagArray := tags } pool 0 := .nothing rfl rfl
  refine ⟨⟨?_, ?_, ?_, ?_⟩, ?_⟩
  · rw [events]
    exact changed.trans (.writeBack in_use evicted request .miss [])
  · rw [status]
    simp
  · rw [events, absorbs]
    simp [wasWriteSent]
  · rw [status]
    simp
  · rw [status]
    simp

theorem wrMiss_sends {status : CacheRequestStatus}
    (done : cache.wrMiss cfg pool addr index mf time status = .ok result) :
    WriteSends cfg cache pool mf result ∧ result.status ≠ .hit := by
  unfold wrMiss at done
  split at done
  next policy =>
    unfold wrMissNoWa at done
    split at done
    · cases done
      exact ⟨.refuse, by simp⟩
    · cases done
      refine ⟨⟨.itself rfl rfl, by simp [sendWriteRequest], ?_, by simp [sendWriteRequest]⟩, by simp [sendWriteRequest]⟩
      simp [sendWriteRequest, wasWriteSent, policy, WriteAllocatePolicy.absorbs]
  next policy => exact wrMissWaNaive_sends reads in_use policy done
  next policy =>
    have absorbs : cfg.writeAllocPolicy.absorbs = true := by rw [policy]; rfl
    unfold wrMissWaFetchOnWrite at done
    split at done
    · simp only [writeWhole] at done
      split at done
      · cases done
        exact ⟨.refuse, by simp⟩
      · obtain ⟨⟨found, line, tags, evicted⟩, -, done⟩ := bind_ok.mp done
        dsimp only at done
        split at done
        · simp only [bind_ok, throw_ok, false_and, exists_const] at done
        · obtain ⟨tags', -, done⟩ := bind_ok.mp done
          split at done
          · obtain rfl := pure_ok.mp done
            exact stored_sends in_use absorbs tags' evicted (pool.get mf)
          · obtain rfl := pure_ok.mp done
            exact ⟨⟨.nothing rfl rfl, fun _ => rfl, by simp, by simp⟩, by simp⟩
    · exact writePart_sends reads in_use policy done
  next policy =>
    have absorbs : cfg.writeAllocPolicy.absorbs = true := by rw [policy]; rfl
    simp only [wrMissWaLazyFetchOnRead] at done
    split at done
    · cases done
      exact ⟨.refuse, by simp⟩
    · obtain ⟨⟨found, line, tags, evicted⟩, -, done⟩ := bind_ok.mp done
      dsimp only at done
      split at done
      · simp only [bind_ok, throw_ok, false_and, exists_const] at done
      · obtain ⟨tags', -, done⟩ := bind_ok.mp done
        split at done
        · obtain rfl := pure_ok.mp done
          exact stored_sends in_use absorbs tags' evicted (pool.get mf)
        · obtain rfl := pure_ok.mp done
          exact ⟨⟨.nothing rfl rfl, fun _ => rfl, by simp, by simp⟩, by simp⟩

end DataCache

namespace DataCache

variable {cfg : DataCacheConfig} {cache next : DataCache} {pool pool' : MfPool} {mf : MfId} {time addr : Nat}
  {index : Option Nat} {result : AccessResult}

theorem rdHitBase_sends (done : cache.rdHitBase cfg.toCacheConfig pool addr index mf time = .ok result) :
    Sends cfg cache pool mf result.cache result.pool 0 := by
  obtain ⟨⟨status, found, tags, evicted⟩, -, done⟩ := bind_ok.mp done
  dsimp only at done
  split at done
  · simp only [bind_ok, throw_ok, false_and, exists_const] at done
  · split at done
    · split at done
      · simp only [bind_ok, throw_ok, false_and, exists_const] at done
      · split at done
        · cases done
        · obtain ⟨block, -, done⟩ := bind_ok.mp done
          obtain rfl := pure_ok.mp done
          exact .nothing rfl rfl
    · obtain rfl := pure_ok.mp done
      exact .nothing rfl rfl

theorem rdMissBase_sends (read : (pool.get mf).isWrite = false) (in_use : mf.serial < pool.nextSerial)
    (done : cache.rdMissBase cfg.toCacheConfig pool addr index mf time cfg.wrbkType = .ok result) :
    ∃ own ≤ 1, Sends cfg cache pool mf result.cache result.pool own := by
  simp only [rdMissBase] at done
  split at done
  · obtain rfl := pure_ok.mp done
    exact ⟨0, by omega, .nothing rfl rfl⟩
  · obtain ⟨outcome, sending, done⟩ := bind_ok.mp done
    cases outcome with
    | none =>
        obtain rfl := pure_ok.mp done
        exact ⟨0, by omega, .nothing rfl rfl⟩
    | some sent =>
        obtain ⟨own, few, sends⟩ := Sends.read read in_use sending
        refine ⟨own, few, ?_⟩
        have later := Nat.lt_of_lt_of_le in_use sends.kinds.nextSerial
        dsimp only at done
        split at done
        next evicted dirty =>
          split at done
          next through =>
            obtain rfl := pure_ok.mp done
            have back := @Sends.writeBack cfg sent.cache sent.pool mf later (some evicted) (sent.pool.get mf) .miss []
            simp only [sendWriteBack, if_pos through] at back
            exact sends.trans back
          next =>
            obtain rfl := pure_ok.mp done
            exact sends
        next =>
          obtain rfl := pure_ok.mp done
          exact sends

/-- Whether the probe of an access hits. -/
def Present (cfg : DataCacheConfig) (cache : DataCache) (request : MemFetch) : Prop :=
  ∃ line, cache.tagArray.probe cfg.toCacheConfig (cfg.blockAddr request.addr) request true = .ok (.hit, line)

namespace ReadWrite

/-- The port only counts cycles. -/
theorem access_cases (done : ReadWrite.access cfg cache pool (pool.get mf).addr mf time = .ok result) :
    ∃ status line inner, cache.tagArray.probe cfg.toCacheConfig (cfg.blockAddr (pool.get mf).addr) (pool.get mf) true =
        .ok (status, line) ∧
      processTagProbe cfg cache pool status (pool.get mf).addr line mf time = .ok inner ∧
      result.status = inner.status ∧ result.events = inner.events ∧ result.pool = inner.pool ∧
      result.cache.missQueue = inner.cache.missQueue ∧ result.cache.extraMfFields = inner.cache.extraMfFields := by
  simp only [ReadWrite.access] at done
  split at done
  · simp only [bind_ok, throw_ok, false_and, exists_const] at done
  · obtain ⟨⟨status, line⟩, probing, done⟩ := bind_ok.mp done
    obtain ⟨inner, processed, done⟩ := bind_ok.mp done
    obtain rfl := pure_ok.mp done
    exact ⟨status, line, inner, probing, processed, rfl, rfl, rfl, rfl, rfl⟩

theorem access_sends_read (read : (pool.get mf).isWrite = false) (in_use : mf.serial < pool.nextSerial)
    (done : ReadWrite.access cfg cache pool (pool.get mf).addr mf time = .ok result) :
    ∃ own ≤ 1, Sends cfg cache pool mf result.cache result.pool own := by
  obtain ⟨status, line, inner, -, processed, -, -, same_pool, queue, extras⟩ := access_cases done
  have inner_sends : ∃ own ≤ 1, Sends cfg cache pool mf inner.cache inner.pool own := by
    rw [processTagProbe, read, if_neg Bool.false_ne_true] at processed
    split at processed
    · exact ⟨0, by omega, rdHitBase_sends processed⟩
    · split at processed
      · exact rdMissBase_sends read in_use processed
      · cases processed
        exact ⟨0, by omega, .nothing rfl rfl⟩
  obtain ⟨own, few, sends⟩ := inner_sends
  rw [same_pool]
  exact ⟨own, few, sends.trans (.nothing queue extras)⟩

theorem access_sends_write (reads : cfg.wrAllocType.isWrite = false) (write : (pool.get mf).isWrite = true)
    (in_use : mf.serial < pool.nextSerial)
    (done : ReadWrite.access cfg cache pool (pool.get mf).addr mf time = .ok result) :
    WriteSends cfg cache pool mf result ∧ (Present cfg cache (pool.get mf) → result.status ≠ .miss) ∧
      (¬ Present cfg cache (pool.get mf) → result.status ≠ .hit) := by
  obtain ⟨status, line, inner, probing, processed, same_status, events, same_pool, queue, extras⟩ := access_cases done
  have inner_sends : WriteSends cfg cache pool mf inner ∧ (status = .hit → inner.status ≠ .miss) ∧
      (status ≠ .hit → inner.status ≠ .hit) := by
    rw [processTagProbe, write, if_pos rfl] at processed
    split at processed
    next hit =>
      obtain ⟨sends, no_miss⟩ := wrHit_sends processed
      exact ⟨sends, fun _ => no_miss, fun other => absurd hit other⟩
    next other =>
      split at processed
      · obtain ⟨sends, no_hit⟩ := wrMiss_sends reads in_use processed
        exact ⟨sends, fun hit => absurd hit other, fun _ => no_hit⟩
      · cases processed
        exact ⟨.refuse, by simp, by simp⟩
  obtain ⟨sends, present, absent⟩ := inner_sends
  refine ⟨⟨?_, ?_, ?_, ?_⟩, ?_, ?_⟩
  · rw [events, same_pool]
    exact sends.sends.trans (.nothing queue extras)
  · rw [same_status, events]
    exact sends.refused
  · rw [same_status, events]
    exact sends.missed
  · rw [same_status]
    exact sends.status
  · rintro ⟨line', hits⟩
    rw [probing] at hits
    cases hits
    rw [same_status]
    exact present rfl
  · intro missing
    rw [same_status]
    refine absent ?_
    rintro rfl
    exact missing ⟨line, probing⟩

end ReadWrite

/-- A fill sends nothing; what is filled is a read. -/
theorem fill_sends (read : ∀ q, (cache.extraMfFields q).isSome → (pool.get q).isWrite = false)
    (done : cache.fill cfg.toCacheConfig pool mf time = .ok (next, pool')) :
    pool'.KeepsKinds pool ∧ pool'.nextSerial = pool.nextSerial ∧ next.missQueue = cache.missQueue ∧
      ∀ q, (next.extraMfFields q).isSome → (cache.extraMfFields q).isSome := by
  obtain ⟨r, extra, counted | completed⟩ := fill_cases done
  · obtain ⟨pendingRead, rfl⟩ := counted.rest
    rw [counted.pool_eq]
    refine ⟨.refl pool, rfl, rfl, ?_⟩
    intro q pending
    by_cases same : q = r
    · rw [same, counted.pending]
      rfl
    · simpa [Function.update_of_ne same] using pending
  · rw [completed.pool_eq]
    have pending : (cache.extraMfFields r).isSome := by
      rw [completed.pending]
      rfl
    refine ⟨.modify (read r pending) fun _ => rfl, rfl, completed.missQueue, ?_⟩
    intro q pending
    rw [completed.extraMfFields] at pending
    by_cases same : q = r
    · subst same
      simp at pending
    · rwa [Function.update_of_ne same] at pending

end DataCache

end GpgpuSim.Cache
