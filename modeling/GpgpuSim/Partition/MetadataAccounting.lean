import GpgpuSim.Partition.Accounting

/-! The stages of the metadata cache and those behind it keep the invariant. -/
namespace GpgpuSim.Partition.MemoryPartitionUnit
open GpgpuSim.Huffman GpgpuSim.Memory GpgpuSim.Cache Transition

variable {cfg : MemoryConfig} {input : CycleInput} {plain : Prop} {trace shown : List Event}
  {st next : MemoryPartitionUnit} {place : MfId → Option Station} {mf : MfId}

/-! ## Answers -/

theorem Accounted.metadataResponse (accounted : Accounted cfg plain trace st)
    (done : metadataResponse st = .ok (next, shown)) : Accounted cfg plain (trace ++ shown) next := by
  obtain ⟨rfl, rfl⟩ | ⟨mf, cache, left, branches⟩ := metadataResponse_ok done
  · exact accounted.idle
  obtain ⟨place, tracked, balances⟩ := accounted
  obtain ⟨coherent, missQueue, extras, ⟨b, rest, front, waits⟩, clean⟩ :=
    DataCache.nextAccess_ok tracked.coherent left
  have queue : st.held (.waiting b) = mf :: rest := front
  rcases branches with ⟨read, rfl, rfl⟩ | ⟨other, rfl, rfl⟩
  · have moved : Moved st (append { st with metadataCache := cache } .fromMetadataCache mf) mf
        (.waiting b) (.fifo .fromMetadataCache) := by
      apply Moved.of_append (by simp) (.of_eq queue)
      rw [held_append, held_waiting st waits missQueue]
      rfl
    refine Accounted.pass (s := .waiting b) (t := .fifo .fromMetadataCache) tracked balances ?_ trivial
      (show _ = st.request mf from rfl) (show _ = st.extra mf from congrFun extras mf)
      fun o carries fits => ⟨carries, fits⟩
    constructor
    · exact moved
    · exact ⟨fun _ _ => rfl, fun other _ => congrFun extras other, fun _ _ => rfl, .refl _, coherent⟩
    · rfl
    · rfl
    · rfl
    · exact fun _ => clean
  · -- only reads wait in the registers
    have here : place mf = some (.waiting b) := tracked.custody.place_of_head queue
    obtain ⟨o, start, -, -, -, fits⟩ := tracked.carried here trivial
    rw [fits.2.2] at other
    contradiction

theorem Accounted.metadataFill (accounted : Accounted cfg plain trace st)
    (done : metadataFill cfg input st = .ok (next, shown)) : Accounted cfg plain (trace ++ shown) next := by
  obtain ⟨rfl, rfl⟩ | ⟨mf, rest, front, branches⟩ := metadataFill_ok done
  · exact accounted.idle
  obtain ⟨place, tracked, balances⟩ := accounted
  have queue : st.held (.fifo .dramToMetadataCache) = mf :: rest := front
  rcases branches with ⟨rfl, cache, pool, filling, rfl⟩ | ⟨unknown, rfl, rfl⟩
  · obtain ⟨⟨extra, filled⟩, clean⟩ := DataCache.fill_ok tracked.coherent filling
    have popped : (st.pop .dramToMetadataCache).held =
        Function.update st.held (.fifo .dramToMetadataCache) rest := by
      rw [held_pop, front]
      rfl
    have moved : Moved st { st.pop .dramToMetadataCache with metadataCache := cache, pool } mf
        (.fifo .dramToMetadataCache) (.waiting extra.blockAddr) := by
      -- the answer takes the place it had in the list of its block
      refine ⟨by simp, rest, .of_eq queue, fun u => ?_⟩
      rw [← popped]
      cases u with
      | waiting b =>
          have perm := DataCache.waiting_fill tracked.coherent filled b
          by_cases same : b = extra.blockAddr
          · subst same
            rw [if_pos rfl] at perm
            rw [Function.update_self]
            exact perm
          · rw [if_neg same] at perm
            rw [Function.update_of_ne (by simpa using same)]
            exact perm
      | missQueue =>
          rw [Function.update_of_ne (by simp)]
          exact .of_eq filled.missQueue
      | _ =>
          rw [Function.update_of_ne (by simp)]
          exact .refl _
    have request : ∀ other, other ≠ mf → pool.get other = st.request other := by
      intro other apart
      rw [filled.pool]
      exact MfPool.get_modify_of_ne _ _ apart
    have changed : pool.get mf = ((st.request mf).setDataSize extra.dataSize).setAddr extra.addr := by
      rw [filled.pool]
      exact MfPool.get_modify_self _ _ _
    have recorded : cache.extraMfFields mf = none :=
      (congrFun filled.extraMfFields mf).trans (Function.update_self ..)
    have passed : Passed st { st.pop .dramToMetadataCache with metadataCache := cache, pool } [] mf
        (.fifo .dramToMetadataCache) (.waiting extra.blockAddr) := by
      constructor
      · exact moved
      · refine ⟨request, fun other apart => ?_, fun _ _ => rfl, .refl _, tracked.coherent.fill filled⟩
        exact (congrFun filled.extraMfFields other).trans (Function.update_of_ne apart _ _)
      · rfl
      · show pool.nextSerial = st.pool.nextSerial
        rw [filled.pool]
        rfl
      · rfl
      · exact fun _ => clean
    refine Accounted.pass tracked balances passed trivial changed recorded ?_
    rintro o carries ⟨metadata, -⟩
    have compressed := carries.compressed_of_metadata metadata
    have read := carries.same.isLineRead.trans (carries.translated compressed).1
    refine ⟨⟨⟨carries.same.1, carries.same.2, carries.same.3⟩, fun plain => ?_, carries.translated,
      fun _ data => ?_⟩, metadata, rfl, read⟩
    · rw [show (st.request mf).compressed = false from plain] at compressed
      contradiction
    · rw [show (st.request mf).isMetaDataRequest = false from data] at metadata
      contradiction
  · -- the cache waits for every metadata request that comes back
    have here : place mf = some (.fifo .dramToMetadataCache) := tracked.custody.place_of_head queue
    obtain ⟨o, start, -, -, -, fits⟩ := tracked.carried here trivial
    rw [show st.metadataCache.waitingForFill mf = true from fits.2] at unknown
    contradiction

theorem Accounted.metadataCycle (accounted : Accounted cfg plain trace st)
    (done : metadataCycle st = .ok (next, shown)) : Accounted cfg plain (trace ++ shown) next := by
  have base : Accounted cfg plain (trace ++ []) st.replenished := by
    refine accounted.still rfl rfl ⟨rfl, rfl, rfl⟩ ?_ (.refl _) rfl (by simp)
    exact fun clean => ⟨clean.tagArray, clean.mshrs⟩
  obtain ⟨rfl, rfl | ⟨mf, rest, front, rfl⟩⟩ := metadataCycle_ok done
  · exact base
  rw [List.append_nil] at base
  obtain ⟨place, tracked, balances⟩ := base
  have queue : st.replenished.held .missQueue = mf :: rest := front
  refine Accounted.pass (s := .missQueue) (t := .fifo .huffmanToDram) tracked balances ?_ trivial
    (show _ = st.replenished.request mf from rfl) (show _ = st.replenished.extra mf from rfl)
    fun o carries fits => ⟨carries, fits⟩
  constructor
  · apply Moved.of_append (by simp) (.of_eq queue)
    rw [held_append, held_missQueue]
    rfl
  · exact ⟨fun _ _ => rfl, fun _ _ => rfl, fun _ _ => rfl, .refl _, tracked.coherent.of_same rfl rfl⟩
  · rfl
  · rfl
  · rfl
  · exact fun _ clean => ⟨clean.tagArray, clean.mshrs⟩

/-! ## Accesses -/

/-- The cache holds the same requests, so the partition does. -/
theorem held_same {cache : DataCache} {pool : MfPool} (same : DataCache.SameRequests cache st.metadataCache) :
    held { st with metadataCache := cache, pool } = st.held := by
  funext s
  cases s with
  | missQueue => exact same.missQueue
  | waiting b => exact congrFun (DataCache.waiting_of_same same.mshrs same.extraMfFields) b
  | _ => rfl

/-- The partition after a miss was sent and before a write-back was. -/
def afterMiss (st : MemoryPartitionUnit) (sent : SentRead) (result : AccessResult) : MemoryPartitionUnit :=
  { st with
    metadataCache := { result.cache with missQueue := sent.cache.missQueue }
    pool := sent.pool }.pop .toMetadataCache

theorem Tracked.free_of_absent (tracked : Tracked cfg trace st place) (absent : place mf = none) :
    st.extra mf = none := by
  have life := tracked.life mf
  generalize record mf trace = events at life
  rw [absent] at life
  cases life with
  | absent free => exact free
  | done o free => exact free

/-- The write-back of an evicted line comes into being in the miss queue. -/
theorem Accounted.writtenBack {sent : SentRead} {result : AccessResult} {spid : Nat}
    (accounted : Accounted cfg plain trace (st.afterMiss sent result))
    (back : DataCache.WriteBack cfg.metadataConfig mf sent result)
    (serial : sent.pool.nextSerial = st.pool.nextSerial) (quiet : plain → result.pool.nextSerial = st.pool.nextSerial)
    (own : localId cfg (sent.pool.get mf).subPartitionId = .ok spid) :
    Accounted cfg plain (trace ++ st.allocatedBy result)
      ({ st with metadataCache := result.cache, pool := result.pool }.pop .toMetadataCache) := by
  rcases back.requests with ⟨pool, missQueue⟩ | ⟨evicted, -, pool, missQueue⟩
  · have nothing : st.allocatedBy result = [] := by
      rw [allocatedBy, pool, serial, if_neg (lt_irrefl _)]
    rw [nothing, List.append_nil, pool]
    simpa only [afterMiss, ← missQueue] using accounted
  · have born : result.pool.nextSerial = st.pool.nextSerial + 1 := by
      rw [pool, MfPool.nextSerial_alloc, serial]
    have shown : st.allocatedBy result = [.allocated (.request st.pool.nextSerial)] := by
      rw [allocatedBy, born, if_pos (Nat.lt_succ_self _)]
    rw [shown]
    obtain ⟨place, tracked, -⟩ := accounted
    have fresh := tracked.unborn sent.pool.nextSerial le_rfl
    have about : ∀ e ∈ [Event.allocated (.request sent.pool.nextSerial)],
        e.subject = some (.request sent.pool.nextSerial) := by
      simp [Event.subject]
    rw [← serial]
    refine ⟨_, tracked.born (t := .missQueue) ?_ (born.trans (by rw [← serial]; rfl)) ?_ ?_, fun without => ?_⟩
    · apply tracked.custody.enters fresh.1
      intro u
      cases u with
      | missQueue =>
          show result.cache.missQueue.Perm _
          rw [missQueue, Function.update_self]
          exact List.perm_append_singleton _ _
      | _ =>
          rw [Function.update_of_ne (by simp)]
          exact .refl _
    · constructor
      · intro other apart
        show result.pool.get other = sent.pool.get other
        rw [pool]
        exact MfPool.get_alloc_of_ne _ _ apart
      · exact fun _ _ => rfl
      · exact fun other apart => record_other about apart
      · exact .refl _
      · exact tracked.coherent.of_same rfl rfl
    · have request : request { st with metadataCache := result.cache, pool := result.pool }
          (.request sent.pool.nextSerial) = DataCache.writeBackRequest evicted (sent.pool.get mf) := by
        show result.pool.get _ = _
        rw [pool]
        exact MfPool.get_alloc_self _ _
      have free : extra { st with metadataCache := result.cache, pool := result.pool }
          (.request sent.pool.nextSerial) = none := tracked.free_of_absent fresh.1
      have carries : Carries st.codebookUnit (DataCache.writeBackRequest evicted (sent.pool.get mf))
          (DataCache.writeBackRequest evicted (sent.pool.get mf)) := .start _ ⟨rfl, rfl⟩
      have fits : Fits st.codebookUnit (DataCache.writeBackRequest evicted (sent.pool.get mf)) none
          .missQueue := ⟨by simp [DataCache.writeBackRequest], fun compressed => by contradiction⟩
      rw [← free, ← request] at fits
      rw [show (st.afterMiss sent result).pool = sent.pool from rfl, record_own about]
      exact .carried .missQueue (DataCache.writeBackRequest evicted (sent.pool.get mf))
        (.allocated spid own rfl) (request ▸ carries) fits
    · have none := quiet without
      omega

section Misses

variable {sent : SentRead} {result : AccessResult} {rest : List MfId}

/-- The lists of a partition whose request went into the cache. -/
theorem held_afterMiss (front : st.fifo .toMetadataCache = mf :: rest) :
    (st.afterMiss sent result).held = Function.update
      (held { st with metadataCache := { result.cache with missQueue := sent.cache.missQueue } })
      (.fifo .toMetadataCache) rest := by
  unfold afterMiss
  rw [held_pop]
  dsimp only
  rw [front]
  rfl

theorem Passed.merged (tracked : Tracked cfg trace st place)
    (front : st.fifo .toMetadataCache = mf :: rest) (free : st.extra mf = none)
    (miss : DataCache.MergedMiss cfg.metadataConfig st.metadataCache st.pool mf sent)
    (back : DataCache.WriteBack cfg.metadataConfig mf sent result)
    (clean : DataCache.StaysClean st.metadataCache st.pool mf result) :
    Passed st (st.afterMiss sent result) [] mf (.fifo .toMetadataCache)
      (.waiting (cfg.metadataConfig.mshrAddr (st.request mf).addr)) := by
  have queue : st.held (.fifo .toMetadataCache) = mf :: rest := front
  have here := tracked.custody.place_of_head queue
  have absent : ∀ c, mf ∉ st.metadataCache.mshrs.list c := by
    apply DataCache.not_listed free
    intro b member
    rw [tracked.custody.place_of_mem (s := .waiting b) member] at here
    cases here
  have coherent := tracked.coherent.merge free absent miss.added miss.extraMfFields
  have waits := DataCache.waiting_merge free miss.added miss.extraMfFields
  have kept : DataCache.waiting { result.cache with missQueue := sent.cache.missQueue } =
      sent.cache.waiting := DataCache.waiting_of_same back.mshrs back.extraMfFields
  constructor
  · apply Moved.of_append (by simp) (.of_eq queue)
    rw [held_afterMiss front, held_waiting st (kept.trans waits) miss.missQueue,
      Function.update_comm (by simp)]
    rfl
  · constructor
    · intro other _
      show sent.pool.get other = st.pool.get other
      rw [miss.pool]
    · exact fun other _ => congrFun (back.extraMfFields.trans miss.extraMfFields) other
    · exact fun _ _ => rfl
    · exact .refl _
    · exact coherent.of_same back.mshrs back.extraMfFields
  · rfl
  · show sent.pool.nextSerial = _
    rw [miss.pool]
  · rfl
  · intro plain before
    have after := (clean before (plain mf)).1
    exact ⟨after.tagArray, after.mshrs⟩

theorem Passed.primary {extra : ExtraMfFields} (tracked : Tracked cfg trace st place)
    (front : st.fifo .toMetadataCache = mf :: rest) (free : st.extra mf = none)
    (miss : DataCache.PrimaryMiss cfg.metadataConfig st.metadataCache st.pool mf sent extra)
    (back : DataCache.WriteBack cfg.metadataConfig mf sent result)
    (clean : DataCache.StaysClean st.metadataCache st.pool mf result) :
    Passed st (st.afterMiss sent result) [] mf (.fifo .toMetadataCache) .missQueue := by
  have queue : st.held (.fifo .toMetadataCache) = mf :: rest := front
  have here := tracked.custody.place_of_head queue
  have absent : ∀ c, mf ∉ st.metadataCache.mshrs.list c := by
    apply DataCache.not_listed free
    intro b member
    rw [tracked.custody.place_of_mem (s := .waiting b) member] at here
    cases here
  have coherent : sent.cache.Coherent := by
    cases mf with
    | original serial =>
        rw [tracked.originals] at here
        contradiction
    | request serial =>
        exact tracked.coherent.send absent miss.unknown miss.added miss.blockAddr miss.extraMfFields
  have waits := DataCache.waiting_send absent miss.added miss.extraMfFields
  rw [← DataCache.waiting_of_same back.mshrs back.extraMfFields] at waits
  constructor
  · apply Moved.of_append (by simp) (.of_eq queue)
    rw [held_afterMiss front, Function.update_comm (by simp)]
    have sent_held : held { st with metadataCache := { result.cache with missQueue := sent.cache.missQueue } } =
        Function.update st.held .missQueue (st.held .missQueue ++ [mf]) := by
      funext s
      cases s with
      | missQueue =>
          rw [Function.update_self]
          exact miss.missQueue
      | waiting b =>
          rw [Function.update_of_ne (by simp)]
          exact congrFun waits b
      | _ => rfl
    rw [sent_held]
  · constructor
    · intro other apart
      show sent.pool.get other = st.pool.get other
      rw [miss.pool]
      exact MfPool.get_modify_of_ne _ _ apart
    · intro other apart
      exact (congrFun (back.extraMfFields.trans miss.extraMfFields) other).trans
        (Function.update_of_ne apart _ _)
    · exact fun _ _ => rfl
    · exact .refl _
    · exact coherent.of_same back.mshrs back.extraMfFields
  · rfl
  · show sent.pool.nextSerial = _
    rw [miss.pool]
    rfl
  · rfl
  · intro plain before
    have after := (clean before (plain mf)).1
    exact ⟨after.tagArray, after.mshrs⟩

end Misses

theorem Accounted.metadataAccess (accounted : Accounted cfg plain trace st)
    (done : metadataAccess cfg input st = .ok (next, shown)) :
    Accounted cfg plain (trace ++ shown) next := by
  obtain ⟨rfl, rfl⟩ | ⟨mf, rest, result, front, accessing, branches⟩ := metadataAccess_ok done
  · exact accounted.idle
  obtain ⟨accessed, clean⟩ := DataCache.access_ok accessing
  obtain ⟨place, tracked, balances⟩ := id accounted
  have queue : st.held (.fifo .toMetadataCache) = mf :: rest := front
  have here := tracked.custody.place_of_head queue
  obtain ⟨o, start, -, -, carries, metadata, free, read⟩ := tracked.carried here trivial
  obtain ⟨spid, own, -⟩ := tracked.own here trivial
  have quiet : plain → result.pool.nextSerial = st.pool.nextSerial := by
    intro without
    obtain ⟨live, balanced⟩ := balances without
    exact (clean balanced.clean (balanced.plain mf)).2
  rcases branches with ⟨hit, -, rfl, rfl⟩ | ⟨hit, lost, -, -⟩ | ⟨missed, rfl, rfl⟩ | ⟨refused, rfl, rfl⟩
  · cases accessed with
    | refused status => simp [status] at hit
    | merged sent status => simp [status] at hit
    | primary sent extra status => simp [status] at hit
    | hit status events same pool_eq =>
        have passed : Passed st (({ st with metadataCache := result.cache, pool := result.pool }.pop
            .toMetadataCache).append .fromMetadataCache mf) [] mf (.fifo .toMetadataCache)
            (.fifo .fromMetadataCache) := by
          constructor
          · apply Moved.of_append (by simp) (.of_eq queue)
            rw [held_append, held_pop, held_same same]
            dsimp only
            rw [front]
            rfl
          · constructor
            · intro other _
              exact congrFun (congrArg MfPool.get pool_eq) other
            · exact fun other _ => congrFun same.extraMfFields other
            · exact fun _ _ => rfl
            · exact .refl _
            · exact tracked.coherent.of_same same.mshrs same.extraMfFields
          · rfl
          · exact congrArg MfPool.nextSerial pool_eq
          · rfl
          · exact fun plain before => (clean before (plain mf)).1
        refine Accounted.pass tracked balances passed trivial
          (show _ = st.request mf from congrFun (congrArg MfPool.get pool_eq) mf)
          (show _ = st.extra mf from congrFun same.extraMfFields mf) fun o carries fits => ⟨carries, fits⟩
  · cases accessed with
    | refused status => simp [status] at hit
    | merged sent status => simp [status] at hit
    | primary sent extra status => simp [status] at hit
    | hit status events =>
        rcases lost with sent | other
        · simp [events, wasWriteSent] at sent
        · rw [read] at other
          contradiction
  · cases accessed with
    | hit status => simp [status] at missed
    | refused status => simp [status] at missed
    | merged sent status miss back =>
        have request : sent.pool.get mf = st.request mf := by
          rw [miss.pool]
          rfl
        have base := Accounted.pass tracked balances (Passed.merged tracked front free miss back clean) trivial
          (show _ = st.request mf from request)
          (show _ = st.extra mf from congrFun (back.extraMfFields.trans miss.extraMfFields) mf)
          fun o carries fits => ⟨carries, fits⟩
        rw [List.append_nil] at base
        exact base.writtenBack back (by rw [miss.pool]) quiet (by rwa [request])
    | primary sent extra status miss back =>
        have sized : sent.pool.get mf = ((st.request mf).setDataSize cfg.metadataConfig.atomSize).setAddr
            (cfg.metadataConfig.mshrAddr (st.request mf).addr) := by
          rw [miss.pool]
          exact MfPool.get_modify_self _ _ _
        have recorded : (st.afterMiss sent result).extra mf = some extra :=
          (congrFun (back.extraMfFields.trans miss.extraMfFields) mf).trans (Function.update_self ..)
        have base := Accounted.pass tracked balances (Passed.primary tracked front free miss back clean)
          trivial (show _ = ((st.request mf).setDataSize cfg.metadataConfig.atomSize).setAddr
            (cfg.metadataConfig.mshrAddr (st.request mf).addr) from sized) recorded ?_
        · rw [List.append_nil] at base
          refine base.writtenBack back ?_ quiet (by rwa [sized])
          rw [miss.pool, MfPool.nextSerial_modify]
        · rintro o carries ⟨metadata, -, -⟩
          have compressed := carries.compressed_of_metadata metadata
          have asks : ∀ {P : Prop}, (st.request mf).isMetaDataRequest = false → P := by
            intro P data
            rw [data] at metadata
            contradiction
          refine ⟨⟨⟨carries.same.1, carries.same.2, carries.same.3⟩, fun plain => ?_, carries.translated,
            fun _ => asks⟩, ⟨fun _ => rfl, fun _ => metadata⟩, fun _ => asks⟩
          rw [show (st.request mf).compressed = false from plain] at compressed
          contradiction
  · cases accessed with
    | hit status => simp [status] at refused
    | merged sent status => simp [status] at refused
    | primary sent extra status => simp [status] at refused
    | refused status same pool_eq =>
        refine ⟨place, ?_, fun without => ?_⟩
        · apply tracked.still (fun s => .of_eq (congrFun (held_same same) s))
            (congrArg MfPool.nextSerial pool_eq)
          constructor
          · exact fun other _ => congrFun (congrArg MfPool.get pool_eq) other
          · exact fun other _ => congrFun same.extraMfFields other
          · exact fun _ _ => rfl
          · exact .refl _
          · exact tracked.coherent.of_same same.mshrs same.extraMfFields
        · obtain ⟨live, balanced⟩ := balances without
          have requests : ∀ other, request { st with metadataCache := result.cache, pool := result.pool }
              other = st.request other := congrFun (congrArg MfPool.get pool_eq)
          refine ⟨live, balanced.of_same ?_ ?_ rfl (clean balanced.clean (balanced.plain mf)).1
            fun _ => .rfl⟩
          · intro other
            rw [requests]
            exact balanced.plain other
          · intro other _
            unfold owner
            rw [requests]

/-! ## Towards the DRAM -/

theorem Accounted.enterDramLatency (accounted : Accounted cfg plain trace st)
    (done : enterDramLatency cfg input st = .ok (next, shown)) :
    Accounted cfg plain (trace ++ shown) next := by
  obtain ⟨rfl, rfl | ⟨mf, rest, front, rfl⟩⟩ := enterDramLatency_ok done
  · exact accounted.idle
  obtain ⟨place, tracked, balances⟩ := accounted
  refine Accounted.forward (s := .fifo .huffmanToDram) (t := .latency .dram) tracked balances
    (.of_append (by simp) (.of_eq front) ?_) trivial rfl rfl rfl rfl (by simp) fun o carries fits => fits
  rw [held_pushLatency, held_pop, front]
  rfl

theorem Accounted.samplingPhase (accounted : Accounted cfg plain trace st)
    (done : samplingPhase cfg input st = .ok (next, shown)) :
    Accounted cfg plain (trace ++ shown) next := by
  obtain ⟨rfl, rfl | ⟨mf, taken, rfl⟩⟩ := samplingPhase_ok done
  · exact accounted.idle
  obtain ⟨place, tracked, balances⟩ := accounted
  have queue : st.held .classified = mf :: [] := by simp [held, taken]
  refine Accounted.forward (s := .classified) (t := .latency .dram) tracked balances
    (.of_append (by simp) (.of_eq queue) ?_) trivial rfl rfl rfl rfl (by simp) ?_
  · rw [held_pushLatency, held_classified]
    rfl
  · rintro o carries ⟨fresh, free⟩
    exact ⟨by simp [fresh.2, free], fun compressed => by simp [fresh.1] at compressed⟩

theorem Accounted.leaveDramLatency (accounted : Accounted cfg plain trace st)
    (done : leaveDramLatency cfg input st = .ok (next, shown)) :
    Accounted cfg plain (trace ++ shown) next := by
  obtain ⟨rfl, rfl⟩ | ⟨readyCycle, mf, rest, front, branches⟩ := leaveDramLatency_ok done
  · exact accounted.idle
  obtain ⟨place, tracked, balances⟩ := accounted
  have queue : st.held (.latency .dram) = mf :: rest.map Prod.snd := by simp [held, front]
  rcases branches with ⟨metadata, rfl, rfl⟩ | ⟨data, rfl, rfl⟩
  · refine Accounted.forward (s := .latency .dram) (t := .fifo .dramToMetadataCache) tracked balances
      (.of_append (by simp) (.of_eq queue) ?_) trivial rfl rfl rfl rfl (by simp) ?_
    · rw [held_append, held_popLatency, queue]
      rfl
    · exact fun o carries fits => ⟨metadata, fits.1.mp metadata⟩
  · refine Accounted.forward (s := .latency .dram) (t := .dramPending) tracked balances
      (.of_append (by simp) (.of_eq queue) ?_) trivial rfl rfl rfl rfl (by simp [Event.subject]) ?_
    · rw [held_dramPending, held_popLatency, queue]
      rfl
    · rintro o carries ⟨iff, -⟩
      refine ⟨data, ?_⟩
      rw [data] at iff
      simpa using iff

end GpgpuSim.Partition.MemoryPartitionUnit
