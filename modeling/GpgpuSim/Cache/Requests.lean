import GpgpuSim.Cache.DataCache

/-! Where a data cache keeps requests. A request that missed is listed in the
registers; the first one of a block is also on its way to memory and has a record
of its own until the block comes back. -/
namespace GpgpuSim.Cache
open GpgpuSim.Memory Transition

namespace DataCache

/-- The requests in the registers that have no copy on its way to memory. -/
def waiting (cache : DataCache) (b : Nat) : List MfId :=
  (cache.mshrs.list b).filter fun mf => (cache.extraMfFields mf).isNone

/-- A primary miss is listed under its block, which is not ready, and is the only
one of that block. -/
structure Coherent (cache : DataCache) : Prop where
  occupied : cache.mshrs.Occupied
  once : ∀ b, (cache.mshrs.list b).Nodup
  ready_nodup : cache.mshrs.currentResponse.Nodup
  ready_present : ∀ b ∈ cache.mshrs.currentResponse, cache.mshrs.list b ≠ []
  listed : ∀ mf extra, cache.extraMfFields mf = some extra → mf ∈ cache.mshrs.list extra.blockAddr
  placed : ∀ mf extra b, cache.extraMfFields mf = some extra → mf ∈ cache.mshrs.list b →
    b = extra.blockAddr
  pending : ∀ mf extra, cache.extraMfFields mf = some extra →
    extra.blockAddr ∉ cache.mshrs.currentResponse
  primary : ∀ mf mf' extra extra', cache.extraMfFields mf = some extra →
    cache.extraMfFields mf' = some extra' → extra.blockAddr = extra'.blockAddr → mf = mf'
  original : ∀ serial, cache.extraMfFields (.original serial) = none

theorem Coherent.create (cfg : CacheConfig) : (create cfg).Coherent where
  occupied := MshrTable.Occupied.empty
  once _ := List.nodup_nil
  ready_nodup := List.nodup_nil
  ready_present _ member := absurd member List.not_mem_nil
  listed _ _ found := by contradiction
  placed _ _ _ found := by contradiction
  pending _ _ found := by contradiction
  primary _ _ _ _ found := by contradiction
  original _ := rfl

/-- What holds a request, ports and tags left aside. -/
structure SameRequests (cache before : DataCache) : Prop where
  mshrs : cache.mshrs = before.mshrs
  missQueue : cache.missQueue = before.missQueue
  extraMfFields : cache.extraMfFields = before.extraMfFields

theorem SameRequests.refl (cache : DataCache) : SameRequests cache cache := ⟨rfl, rfl, rfl⟩

/-- Only the registers and their records matter. -/
theorem Coherent.of_same {cache before : DataCache} (coherent : before.Coherent)
    (mshrs : cache.mshrs = before.mshrs) (extra : cache.extraMfFields = before.extraMfFields) :
    cache.Coherent := by
  constructor
  · rw [mshrs]; exact coherent.occupied
  · rw [mshrs]; exact coherent.once
  · rw [mshrs]; exact coherent.ready_nodup
  · rw [mshrs]; exact coherent.ready_present
  · rw [mshrs, extra]; exact coherent.listed
  · rw [mshrs, extra]; exact coherent.placed
  · rw [mshrs, extra]; exact coherent.pending
  · rw [extra]; exact coherent.primary
  · rw [extra]; exact coherent.original

theorem waiting_of_same {cache before : DataCache} (mshrs : cache.mshrs = before.mshrs)
    (extra : cache.extraMfFields = before.extraMfFields) : cache.waiting = before.waiting := by
  funext b
  unfold DataCache.waiting
  rw [mshrs, extra]

/-- A miss on a block that is asked for already joins its list. -/
structure MergedMiss (cfg : CacheConfig) (cache : DataCache) (pool : MfPool) (mf : MfId)
    (sent : SentRead) : Prop where
  known : cache.mshrs.probe (cfg.mshrAddr (pool.get mf).addr) = true
  added : cache.mshrs.add cfg (cfg.mshrAddr (pool.get mf).addr) mf (pool.get mf).isAtomic =
    .ok sent.cache.mshrs
  missQueue : sent.cache.missQueue = cache.missQueue
  extraMfFields : sent.cache.extraMfFields = cache.extraMfFields
  pool : sent.pool = pool

/-- Any other miss is listed and sent to memory under the address of its block. -/
structure PrimaryMiss (cfg : CacheConfig) (cache : DataCache) (pool : MfPool) (mf : MfId)
    (sent : SentRead) (extra : ExtraMfFields) : Prop where
  unknown : cache.mshrs.probe (cfg.mshrAddr (pool.get mf).addr) = false
  added : cache.mshrs.add cfg (cfg.mshrAddr (pool.get mf).addr) mf (pool.get mf).isAtomic =
    .ok sent.cache.mshrs
  missQueue : sent.cache.missQueue = cache.missQueue ++ [mf]
  extraMfFields : sent.cache.extraMfFields = Function.update cache.extraMfFields mf (some extra)
  blockAddr : extra.blockAddr = cfg.mshrAddr (pool.get mf).addr
  addr : extra.addr = (pool.get mf).addr
  dataSize : extra.dataSize = (pool.get mf).dataSize
  pool : sent.pool = pool.modify mf fun request =>
    (request.setDataSize cfg.atomSize).setAddr (cfg.mshrAddr (pool.get mf).addr)

/-- What an access to an array without dirty lines keeps. -/
structure Clean (cache : DataCache) : Prop where
  tagArray : cache.tagArray.Clean
  mshrs : ∀ b, (cache.mshrs.entry b).hasAtomic = false

theorem Clean.create (cfg : CacheConfig) : (create cfg).Clean :=
  ⟨TagArray.Clean.create cfg, fun _ => rfl⟩

variable {cfg : CacheConfig} {cache : DataCache} {pool : MfPool} {mf : MfId} {time addr : Nat} {index : Option Nat}

theorem sendReadRequest_ok {sent : SentRead}
    (done : cache.sendReadRequest cfg pool addr index mf time = .ok (some sent)) :
    (MergedMiss cfg cache pool mf sent ∨ ∃ extra, PrimaryMiss cfg cache pool mf sent extra) ∧
      (cache.Clean → (pool.get mf).isAtomic = false → sent.cache.Clean ∧ sent.evicted = none) := by
  have clear : ∀ {table : MshrTable}, cache.Clean → (pool.get mf).isAtomic = false →
      cache.mshrs.add cfg (cfg.mshrAddr (pool.get mf).addr) mf (pool.get mf).isAtomic = .ok table →
      ∀ b, (table.entry b).hasAtomic = false := by
    intro table clean plain added b
    rw [(MshrTable.add_ok added).2.2 b, clean.mshrs b, plain, Bool.and_false, Bool.or_false]
  simp only [sendReadRequest] at done
  split at done
  · rename_i merge
    rw [Bool.and_eq_true] at merge
    obtain ⟨⟨status, found, tags, evicted⟩, touched, done⟩ := bind_ok.mp done
    obtain ⟨mshrs, added, done⟩ := bind_ok.mp done
    cases done
    refine ⟨.inl ⟨merge.1, added, rfl, rfl, rfl⟩, ?_⟩
    intro clean plain
    obtain ⟨tags_clean, nothing⟩ := clean.tagArray.access touched
    exact ⟨⟨tags_clean, clear clean plain added⟩, nothing⟩
  · split at done
    · rename_i primary
      simp only [Bool.and_eq_true, Bool.not_eq_true'] at primary
      obtain ⟨⟨status, found, tags, evicted⟩, touched, done⟩ := bind_ok.mp done
      obtain ⟨mshrs, added, done⟩ := bind_ok.mp done
      cases done
      refine ⟨.inr ⟨_, primary.1.1, added, rfl, rfl, rfl, rfl, rfl, rfl⟩, ?_⟩
      intro clean plain
      obtain ⟨tags_clean, nothing⟩ := clean.tagArray.access touched
      refine ⟨⟨?_, clear clean plain added⟩, nothing⟩
      dsimp only
      split
      · exact tags_clean.addPendingLine
      · exact tags_clean
    · split at done <;> cases done

/-- The write-back of a sent read, if it evicted a dirty block. -/
structure WriteBack (cfg : CacheConfig) (mf : MfId) (sent : SentRead) (result : AccessResult) : Prop where
  mshrs : result.cache.mshrs = sent.cache.mshrs
  extraMfFields : result.cache.extraMfFields = sent.cache.extraMfFields
  requests : (result.pool = sent.pool ∧ result.cache.missQueue = sent.cache.missQueue) ∨
    ∃ evicted, sent.evicted = some evicted ∧
      result.pool = (sent.pool.alloc (writeBackRequest evicted (sent.pool.get mf))).2 ∧
      result.cache.missQueue = sent.cache.missQueue ++ [.request sent.pool.nextSerial]

/-- The three outcomes of an access: a hit, a refusal, or a miss that is sent. -/
inductive Accessed (cfg : CacheConfig) (cache : DataCache) (pool : MfPool) (mf : MfId) (result : AccessResult) : Prop
  | hit (status : result.status = .hit) (events : result.events = [])
      (same : SameRequests result.cache cache) (pool_eq : result.pool = pool)
  | refused (status : result.status = .reservationFail) (same : SameRequests result.cache cache)
      (pool_eq : result.pool = pool)
  | merged (sent : SentRead) (status : result.status = .miss)
      (miss : MergedMiss cfg cache pool mf sent) (back : WriteBack cfg mf sent result)
  | primary (sent : SentRead) (extra : ExtraMfFields) (status : result.status = .miss)
      (miss : PrimaryMiss cfg cache pool mf sent extra) (back : WriteBack cfg mf sent result)

/-- No dirty line appears and no write-back is made. -/
def StaysClean (cache : DataCache) (pool : MfPool) (mf : MfId) (result : AccessResult) : Prop :=
  cache.Clean → (pool.get mf).isAtomic = false →
    result.cache.Clean ∧ result.pool.nextSerial = pool.nextSerial

theorem rdHitBase_ok {result : AccessResult} (done : cache.rdHitBase cfg pool addr index mf time = .ok result) :
    Accessed cfg cache pool mf result ∧ StaysClean cache pool mf result := by
  obtain ⟨⟨status, found, tags, evicted⟩, touched, done⟩ := bind_ok.mp done
  dsimp only at done
  split at done
  · simp only [bind_ok, throw_ok, false_and, exists_const] at done
  · split at done
    · rename_i atomic
      have dirty : StaysClean cache pool mf result := by
        intro _ plain
        rw [plain] at atomic
        contradiction
      split at done
      · simp only [bind_ok, throw_ok, false_and, exists_const] at done
      · split at done
        · contradiction
        · obtain ⟨block, -, done⟩ := bind_ok.mp done
          cases done
          exact ⟨.hit rfl rfl ⟨rfl, rfl, rfl⟩ rfl, dirty⟩
    · cases done
      refine ⟨.hit rfl rfl ⟨rfl, rfl, rfl⟩ rfl, ?_⟩
      intro clean _
      exact ⟨⟨(clean.tagArray.access touched).1, clean.mshrs⟩, rfl⟩

theorem nextSerial_sent {sent : SentRead}
    (miss : MergedMiss cfg cache pool mf sent ∨ ∃ extra, PrimaryMiss cfg cache pool mf sent extra) :
    sent.pool.nextSerial = pool.nextSerial := by
  rcases miss with merged | ⟨extra, primary⟩
  · rw [merged.pool]
  · rw [primary.pool, MfPool.nextSerial_modify]

theorem rdMissBase_ok {result : AccessResult} (done : cache.rdMissBase cfg pool addr index mf time = .ok result) :
    Accessed cfg cache pool mf result ∧ StaysClean cache pool mf result := by
  simp only [rdMissBase] at done
  split at done
  · cases done
    exact ⟨.refused rfl (.refl _) rfl, fun clean _ => ⟨clean, rfl⟩⟩
  · obtain ⟨outcome, sending, done⟩ := bind_ok.mp done
    cases outcome with
    | none =>
        cases done
        exact ⟨.refused rfl (.refl _) rfl, fun clean _ => ⟨clean, rfl⟩⟩
    | some sent =>
        obtain ⟨miss, stays⟩ := sendReadRequest_ok sending
        have accessed : ∀ {result}, result.status = .miss → WriteBack cfg mf sent result →
            Accessed cfg cache pool mf result := by
          intro result status back
          rcases miss with merged | ⟨extra, primary⟩
          · exact .merged sent status merged back
          · exact .primary sent extra status primary back
        have serial := nextSerial_sent miss
        dsimp only at done
        split at done
        · rename_i evicted dirty
          have stays_clean : ∀ result, StaysClean cache pool mf result := by
            intro result clean plain
            rw [(stays clean plain).2] at dirty
            contradiction
          split at done
          · cases done
            exact ⟨accessed rfl ⟨rfl, rfl, .inr ⟨evicted, dirty, rfl, rfl⟩⟩, stays_clean _⟩
          · cases done
            exact ⟨accessed rfl ⟨rfl, rfl, .inl ⟨rfl, rfl⟩⟩, stays_clean _⟩
        · cases done
          exact ⟨accessed rfl ⟨rfl, rfl, .inl ⟨rfl, rfl⟩⟩,
            fun clean plain => ⟨(stays clean plain).1, serial⟩⟩

theorem access_ok {result : AccessResult} (done : cache.access cfg pool addr mf time = .ok result) :
    Accessed cfg cache pool mf result ∧ StaysClean cache pool mf result := by
  simp only [access] at done
  split at done
  · simp only [bind_ok, throw_ok, false_and, exists_const] at done
  · split at done
    · simp only [bind_ok, throw_ok, false_and, exists_const] at done
    · obtain ⟨⟨probeStatus, found⟩, -, done⟩ := bind_ok.mp done
      obtain ⟨inner, processed, done⟩ := bind_ok.mp done
      cases done
      have spec : Accessed cfg cache pool mf inner ∧ StaysClean cache pool mf inner := by
        unfold processTagProbe at processed
        split at processed
        · exact rdHitBase_ok processed
        · cases processed
          exact ⟨.refused rfl (.refl _) rfl, fun clean _ => ⟨clean, rfl⟩⟩
        · exact rdMissBase_ok processed
      refine ⟨?_, fun clean plain => ⟨⟨(spec.2 clean plain).1.1, (spec.2 clean plain).1.2⟩,
        (spec.2 clean plain).2⟩⟩
      cases spec.1 with
      | hit status events same pool_eq =>
          exact .hit status events ⟨same.mshrs, same.missQueue, same.extraMfFields⟩ pool_eq
      | refused status same pool_eq =>
          exact .refused status ⟨same.mshrs, same.missQueue, same.extraMfFields⟩ pool_eq
      | merged sent status miss back => exact .merged sent status miss ⟨back.1, back.2, back.3⟩
      | primary sent extra status miss back =>
          exact .primary sent extra status miss ⟨back.1, back.2, back.3⟩

/-! The registers after each operation, and the waiting requests. -/

section Requests

variable {next : DataCache} {b : Nat}

theorem mem_waiting : mf ∈ cache.waiting b ↔ mf ∈ cache.mshrs.list b ∧ cache.extraMfFields mf = none := by
  simp [waiting, List.mem_filter]

/-- A request that is nowhere in the cache is not listed. -/
theorem not_listed (absent : cache.extraMfFields mf = none)
    (outside : ∀ b, mf ∉ cache.waiting b) (b : Nat) : mf ∉ cache.mshrs.list b :=
  fun member => outside b (mem_waiting.mpr ⟨member, absent⟩)

variable {extra : ExtraMfFields} {isAtomic : Bool}

/-- The lists after an addition. -/
theorem mem_list_add {table : MshrTable} {other : MfId} {c : Nat}
    (added : cache.mshrs.add cfg b mf isAtomic = .ok table) :
    other ∈ table.list c ↔ other ∈ cache.mshrs.list c ∨ (c = b ∧ other = mf) := by
  rw [(MshrTable.add_ok added).1]
  by_cases same : c = b
  · subst same
    simp
  · simp [same]

theorem once_add {table : MshrTable} (coherent : cache.Coherent)
    (absent : ∀ c, mf ∉ cache.mshrs.list c) (added : cache.mshrs.add cfg b mf isAtomic = .ok table)
    (c : Nat) : (table.list c).Nodup := by
  rw [(MshrTable.add_ok added).1]
  by_cases same : c = b
  · subst same
    rw [Function.update_self]
    rw [(List.perm_append_singleton mf _).nodup_iff]
    exact List.nodup_cons.mpr ⟨absent c, coherent.once c⟩
  · simpa [Function.update_of_ne same] using coherent.once c

/-- A merged miss keeps the registers coherent. -/
theorem Coherent.merge (coherent : cache.Coherent) (none_pending : cache.extraMfFields mf = none)
    (absent : ∀ c, mf ∉ cache.mshrs.list c) (added : cache.mshrs.add cfg b mf isAtomic = .ok next.mshrs)
    (same : next.extraMfFields = cache.extraMfFields) : next.Coherent := by
  have response := (MshrTable.add_ok added).2.1
  constructor
  · exact coherent.occupied.add added
  · exact once_add coherent absent added
  · rw [response]; exact coherent.ready_nodup
  · intro c member
    rw [response] at member
    obtain ⟨other, inside⟩ := List.exists_mem_of_ne_nil _ (coherent.ready_present c member)
    exact List.ne_nil_of_mem ((mem_list_add added).mpr (.inl inside))
  · rw [same]
    exact fun other extra found => (mem_list_add added).mpr (.inl (coherent.listed other extra found))
  · rw [same]
    intro other extra c found member
    rcases (mem_list_add added).mp member with inside | ⟨-, rfl⟩
    · exact coherent.placed other extra c found inside
    · rw [none_pending] at found
      contradiction
  · rw [same, response]; exact coherent.pending
  · rw [same]; exact coherent.primary
  · rw [same]; exact coherent.original

/-- The merged request waits under its block. -/
theorem waiting_merge (none_pending : cache.extraMfFields mf = none)
    (added : cache.mshrs.add cfg b mf isAtomic = .ok next.mshrs) (same : next.extraMfFields = cache.extraMfFields) :
    next.waiting = Function.update cache.waiting b (cache.waiting b ++ [mf]) := by
  funext c
  unfold waiting
  rw [(MshrTable.add_ok added).1, same]
  by_cases here : c = b
  · subst here
    simp [List.filter_append, none_pending]
  · simp [Function.update_of_ne here]

/-- A primary miss keeps the registers coherent. -/
theorem Coherent.send {serial : Nat} (coherent : cache.Coherent)
    (absent : ∀ c, (.request serial) ∉ cache.mshrs.list c) (unknown : cache.mshrs.probe b = false)
    (added : cache.mshrs.add cfg b (.request serial) isAtomic = .ok next.mshrs) (block : extra.blockAddr = b)
    (recorded : next.extraMfFields =
      Function.update cache.extraMfFields (.request serial) (some extra)) : next.Coherent := by
  have response := (MshrTable.add_ok added).2.1
  have vacant : cache.mshrs.list b = [] := by
    by_contra occupied
    rw [(coherent.occupied b).mpr occupied] at unknown
    contradiction
  have elsewhere : ∀ {other found}, cache.extraMfFields other = some found → found.blockAddr ≠ b := by
    intro other found here same
    have := coherent.listed other found here
    rw [same, vacant] at this
    contradiction
  have cases_extra : ∀ {other found}, next.extraMfFields other = some found →
      (other = .request serial ∧ found = extra) ∨ cache.extraMfFields other = some found := by
    intro other found here
    rw [recorded] at here
    by_cases same : other = .request serial
    · subst same
      rw [Function.update_self] at here
      exact .inl ⟨rfl, (Option.some.inj here).symm⟩
    · rw [Function.update_of_ne same] at here
      exact .inr here
  constructor
  · exact coherent.occupied.add added
  · exact once_add coherent absent added
  · rw [response]; exact coherent.ready_nodup
  · intro c member
    rw [response] at member
    obtain ⟨other, inside⟩ := List.exists_mem_of_ne_nil _ (coherent.ready_present c member)
    exact List.ne_nil_of_mem ((mem_list_add added).mpr (.inl inside))
  · intro other found here
    rw [mem_list_add added]
    rcases cases_extra here with ⟨rfl, rfl⟩ | before
    · exact .inr ⟨block, rfl⟩
    · exact .inl (coherent.listed other found before)
  · intro other found c here member
    rw [mem_list_add added] at member
    rcases cases_extra here with ⟨rfl, rfl⟩ | before
    · rcases member with inside | ⟨rfl, -⟩
      · exact absurd inside (absent c)
      · exact block.symm
    · rcases member with inside | ⟨-, rfl⟩
      · exact coherent.placed other found c before inside
      · exact absurd (coherent.listed _ found before) (absent _)
  · intro other found here
    rw [response]
    rcases cases_extra here with ⟨rfl, rfl⟩ | before
    · rw [block]
      exact fun ready => coherent.ready_present b ready vacant
    · exact coherent.pending other found before
  · intro one two first second here there same
    rcases cases_extra here with ⟨rfl, rfl⟩ | before <;>
      rcases cases_extra there with ⟨rfl, rfl⟩ | before'
    · rfl
    · exact absurd (same.symm.trans block) (elsewhere before')
    · exact absurd (same.trans block) (elsewhere before)
    · exact coherent.primary one two first second before before' same
  · intro other
    rw [recorded, Function.update_of_ne (by simp)]
    exact coherent.original other

/-- A primary miss waits nowhere: its record is on the way to memory. -/
theorem waiting_send (absent : ∀ c, mf ∉ cache.mshrs.list c)
    (added : cache.mshrs.add cfg b mf isAtomic = .ok next.mshrs)
    (recorded : next.extraMfFields = Function.update cache.extraMfFields mf (some extra)) :
    next.waiting = cache.waiting := by
  funext c
  unfold waiting
  have others : ∀ other ∈ cache.mshrs.list c, (next.extraMfFields other).isNone =
      (cache.extraMfFields other).isNone := by
    intro other member
    rw [recorded, Function.update_of_ne (fun same => absent c (by rwa [← same]))]
  have kept := List.filter_congr others
  rw [(MshrTable.add_ok added).1]
  by_cases here : c = b
  · subst here
    rw [Function.update_self, List.filter_append, kept]
    simp [recorded]
  · rw [Function.update_of_ne here, kept]

/-- What a fill does to a pending request. -/
structure Filled (cfg : CacheConfig) (cache : DataCache) (pool : MfPool) (mf : MfId)
    (extra : ExtraMfFields) (next : DataCache) (pool' : MfPool) : Prop where
  pending : cache.extraMfFields mf = some extra
  pool : pool' = pool.modify mf fun request => (request.setDataSize extra.dataSize).setAddr extra.addr
  data : next.mshrs.data = cache.mshrs.data
  ready : next.mshrs.currentResponse = cache.mshrs.currentResponse ++ [extra.blockAddr]
  missQueue : next.missQueue = cache.missQueue
  extraMfFields : next.extraMfFields = Function.update cache.extraMfFields mf none

theorem completeFill_ok {pool' : MfPool} (done : cache.completeFill cfg pool mf time = .ok (next, pool')) :
    (∃ extra, Filled cfg cache pool mf extra next pool') ∧ (cache.Clean → next.Clean) := by
  simp only [completeFill] at done
  split at done
  · contradiction
  · rename_i extra found
    obtain ⟨filled, filling, done⟩ := bind_ok.mp done
    obtain ⟨⟨hasAtomic, mshrs⟩, marking, done⟩ := bind_ok.mp done
    obtain ⟨tags, dirtying, done⟩ := bind_ok.mp done
    obtain ⟨data, ready, atomic⟩ := MshrTable.markReady_ok marking
    cases done
    refine ⟨⟨extra, found, rfl, data, ready, rfl, rfl⟩, ?_⟩
    intro clean
    have entries : ∀ b, (mshrs.entry b).hasAtomic = false := by
      intro b
      simpa only [MshrTable.entry, data] using clean.mshrs b
    rw [clean.mshrs] at atomic
    subst atomic
    refine ⟨?_, entries⟩
    cases dirtying
    unfold fillTags at filling
    split at filling
    · exact clean.tagArray.fillIndex filling
    · contradiction
    · obtain ⟨tags, made, filling⟩ := bind_ok.mp filling
      have made_clean := clean.tagArray.fillAddr made
      cases filling
      split
      · exact made_clean
      · exact made_clean

/-- With sector registers every fill stops the model: the request it is credited
to never entered the cache. -/
theorem fill_ok {pool' : MfPool} (coherent : cache.Coherent)
    (done : cache.fill cfg pool mf time = .ok (next, pool')) :
    (∃ extra, Filled cfg cache pool mf extra next pool') ∧ (cache.Clean → next.Clean) := by
  unfold fill at done
  split at done
  · exact completeFill_ok done
  · split at done
    · contradiction
    · rw [coherent.original] at done
      contradiction

theorem Coherent.fill {pool' : MfPool} (coherent : cache.Coherent)
    (filled : Filled cfg cache pool mf extra next pool') : next.Coherent := by
  have lists := MshrTable.list_of_data filled.data
  have still : ∀ {other found}, next.extraMfFields other = some found →
      other ≠ mf ∧ cache.extraMfFields other = some found := by
    intro other found here
    rw [filled.extraMfFields] at here
    by_cases same : other = mf
    · subst same
      rw [Function.update_self] at here
      contradiction
    · rw [Function.update_of_ne same] at here
      exact ⟨same, here⟩
  constructor
  · exact coherent.occupied.of_data filled.data
  · rw [lists]; exact coherent.once
  · rw [filled.ready, List.nodup_append]
    refine ⟨coherent.ready_nodup, List.nodup_singleton _, ?_⟩
    intro b member c single same
    rw [List.mem_singleton] at single
    rw [same, single] at member
    exact coherent.pending _ _ filled.pending member
  · intro b member
    rw [lists]
    rw [filled.ready, List.mem_append, List.mem_singleton] at member
    rcases member with before | rfl
    · exact coherent.ready_present b before
    · exact List.ne_nil_of_mem (coherent.listed _ _ filled.pending)
  · intro other found here
    rw [lists]
    exact coherent.listed _ _ (still here).2
  · intro other found b here member
    rw [lists] at member
    exact coherent.placed _ _ _ (still here).2 member
  · intro other found here
    rw [filled.ready, List.mem_append, List.mem_singleton, not_or]
    refine ⟨coherent.pending _ _ (still here).2, fun same => (still here).1 ?_⟩
    exact coherent.primary _ _ _ _ (still here).2 filled.pending same
  · exact fun one two first second here there =>
      coherent.primary one two first second (still here).2 (still there).2
  · intro serial
    rw [filled.extraMfFields]
    by_cases same : MfId.original serial = mf
    · rw [same, Function.update_self]
    · rw [Function.update_of_ne same]
      exact coherent.original serial

/-- The filled request waits under its block, somewhere among the merged ones. -/
theorem waiting_fill {pool' : MfPool} (coherent : cache.Coherent)
    (filled : Filled cfg cache pool mf extra next pool') (c : Nat) :
    (next.waiting c).Perm
      (if c = extra.blockAddr then mf :: cache.waiting c else cache.waiting c) := by
  have lists := MshrTable.list_of_data filled.data
  have others : ∀ other, other ≠ mf → (next.extraMfFields other).isNone =
      (cache.extraMfFields other).isNone := by
    intro other apart
    rw [filled.extraMfFields, Function.update_of_ne apart]
  by_cases here : c = extra.blockAddr
  · rw [if_pos here]
    subst here
    obtain ⟨early, late, shape⟩ := List.append_of_mem (coherent.listed _ _ filled.pending)
    have distinct := coherent.once extra.blockAddr
    rw [shape, List.nodup_middle, List.nodup_cons, List.mem_append, not_or] at distinct
    have keep : ∀ part : List MfId, mf ∉ part →
        part.filter (fun other => (next.extraMfFields other).isNone) =
          part.filter (fun other => (cache.extraMfFields other).isNone) := by
      intro part outside
      exact List.filter_congr fun other member => others other fun same => outside (same ▸ member)
    have arrived : (next.extraMfFields mf).isNone = true := by
      rw [filled.extraMfFields, Function.update_self]
      rfl
    unfold waiting
    rw [lists, shape]
    simp only [List.filter_append, List.filter_cons, keep early distinct.1.1, keep late distinct.1.2,
      filled.pending, arrived, if_true, Option.isNone_some, Bool.false_eq_true, if_false]
    exact List.perm_middle
  · rw [if_neg here]
    unfold waiting
    rw [lists]
    refine List.Perm.of_eq (List.filter_congr fun other member => others other ?_)
    rintro rfl
    exact here (coherent.placed _ _ _ filled.pending member)

/-- The answer that leaves the registers was waiting under the front block. -/
theorem nextAccess_ok (coherent : cache.Coherent) (left : cache.nextAccess = .ok (mf, next)) :
    next.Coherent ∧ next.missQueue = cache.missQueue ∧ next.extraMfFields = cache.extraMfFields ∧
      (∃ b rest, cache.waiting b = mf :: rest ∧ next.waiting = Function.update cache.waiting b rest) ∧
      (cache.Clean → next.Clean) := by
  obtain ⟨⟨first, mshrs⟩, popped, done⟩ := bind_ok.mp left
  cases done
  obtain ⟨b, rest, more, front, shape, lists, response⟩ := MshrTable.nextAccess_ok popped
  have ready_b : b ∈ cache.mshrs.currentResponse := by
    rw [front]
    exact List.mem_cons_self
  have apart : ∀ {other found}, cache.extraMfFields other = some found → found.blockAddr ≠ b := by
    intro other found here same
    exact coherent.pending _ _ here (same ▸ ready_b)
  have free : ∀ other ∈ cache.mshrs.list b, cache.extraMfFields other = none := by
    intro other member
    cases known : cache.extraMfFields other with
    | none => rfl
    | some found => exact absurd (coherent.placed _ _ _ known member).symm (apart known)
  have subset : ∀ c, mshrs.list c ⊆ cache.mshrs.list c := by
    intro c other member
    rw [lists] at member
    by_cases here : c = b
    · subst here
      rw [Function.update_self] at member
      rw [shape]
      exact List.mem_cons_of_mem _ member
    · rwa [Function.update_of_ne here] at member
  have distinct := coherent.ready_nodup
  rw [front] at distinct
  have still_ready : ∀ c ∈ mshrs.currentResponse, c ∈ cache.mshrs.currentResponse := by
    intro c member
    rw [response] at member
    rw [front]
    split at member
    · exact List.mem_cons_of_mem _ member
    · exact member
  refine ⟨?_, rfl, rfl, ⟨b, more, ?_, ?_⟩, ?_⟩
  · constructor
    · exact coherent.occupied.nextAccess popped
    · intro c
      rw [lists]
      by_cases here : c = b
      · subst here
        have := coherent.once c
        rw [shape] at this
        simpa using (List.nodup_cons.mp this).2
      · simpa [Function.update_of_ne here] using coherent.once c
    · rw [response]
      split
      · exact (List.nodup_cons.mp distinct).2
      · exact distinct
    · intro c member
      rw [lists]
      by_cases here : c = b
      · subst here
        rw [Function.update_self]
        rintro rfl
        rw [response, if_pos rfl] at member
        exact (List.nodup_cons.mp distinct).1 member
      · rw [Function.update_of_ne here]
        exact coherent.ready_present c (still_ready c member)
    · intro other found here
      rw [lists, Function.update_of_ne (apart here)]
      exact coherent.listed _ _ here
    · exact fun other found c here member => coherent.placed _ _ _ here (subset c member)
    · exact fun other found here member => coherent.pending _ _ here (still_ready _ member)
    · exact coherent.primary
    · exact coherent.original
  · unfold waiting
    rw [shape, List.filter_eq_self]
    intro other member
    rw [free other (by rw [shape]; exact member)]
    rfl
  · funext c
    unfold waiting
    rw [lists]
    by_cases here : c = b
    · subst here
      rw [Function.update_self, Function.update_self, List.filter_eq_self]
      intro other member
      rw [free other (by rw [shape]; exact List.mem_cons_of_mem _ member)]
      rfl
    · rw [Function.update_of_ne here, Function.update_of_ne here]
  · intro clean
    exact ⟨clean.tagArray, fun c => MshrTable.hasAtomic_of_nextAccess popped c clean.mshrs⟩

end Requests

end DataCache

end GpgpuSim.Cache
