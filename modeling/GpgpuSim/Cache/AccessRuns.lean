import GpgpuSim.Cache.Accesses
import GpgpuSim.Transition.Runs
import GpgpuSim.Words.Masks

/-! Runs of a cache: accesses, fills, answers that leave, the miss queue and whatever
the rest of the system does to request objects in between. The registers and the
records of sent requests agree along every run. -/
namespace GpgpuSim.Cache
open GpgpuSim.Memory Transition

/-- `cycle`: the front of the miss queue leaves when the port towards memory takes it. -/
def DataCache.cycle (memportFull : Bool) (cache : DataCache) : DataCache :=
  match cache.missQueue with
  | [] => cache.replenishPortBandwidth
  | _ :: rest => (if memportFull then cache else { cache with missQueue := rest }).replenishPortBandwidth

structure CacheSystem where
  cache : DataCache
  pool : MfPool

inductive CacheAction
  | access (mf : MfId) (time : Nat) (result : AccessResult)
  | fill (mf : MfId) (time : Nat)
  | nextAccess (mf : MfId)
  | cycle (memportFull : Bool)
  | elsewhere

/-- One entry of the history of a cache. -/
structure CacheMove where
  before : CacheSystem
  action : CacheAction
  after : CacheSystem

namespace CacheSystem

/-- What is true of every request that is presented: it is not under way already, and in
sectored caches its mask names the sector of its address. -/
structure Presented (cfg : DataCacheConfig) (s : CacheSystem) (mf : MfId) : Prop where
  idle : s.cache.extraMfFields mf = none
  in_use : mf.serial < s.pool.nextSerial
  sector : cfg.cacheType = .sector →
    getSectorIndex (s.pool.get mf).sectorMask = .ok ((s.pool.get mf).addr / sectorSize % sectorChunckSize)

inductive Step (kind : CacheKind) (cfg : DataCacheConfig) : CacheSystem → CacheAction → CacheSystem → Prop
  | access {s : CacheSystem} {mf : MfId} {time : Nat} {result : AccessResult} (presented : Presented cfg s mf)
      (done : kind.access cfg s.cache s.pool mf time = .ok result) :
      Step kind cfg s (.access mf time result) ⟨result.cache, result.pool⟩
  | fill {s : CacheSystem} {mf : MfId} {time : Nat} {cache : DataCache} {pool : MfPool}
      (done : s.cache.fill cfg.toCacheConfig s.pool mf time = .ok (cache, pool)) :
      Step kind cfg s (.fill mf time) ⟨cache, pool⟩
  | nextAccess {s : CacheSystem} {mf : MfId} {cache : DataCache} (done : s.cache.nextAccess = .ok (mf, cache)) :
      Step kind cfg s (.nextAccess mf) ⟨cache, s.pool⟩
  | cycle {s : CacheSystem} (memportFull : Bool) :
      Step kind cfg s (.cycle memportFull) ⟨s.cache.cycle memportFull, s.pool⟩
  /-- Requests are made and changed elsewhere; those under way keep their sectors. -/
  | elsewhere {s : CacheSystem} {pool : MfPool} (serial : s.pool.nextSerial ≤ pool.nextSerial)
      (kept : ∀ mf, (s.cache.extraMfFields mf).isSome → (pool.get mf).sectorMask = (s.pool.get mf).sectorMask) :
      Step kind cfg s .elsewhere ⟨s.cache, pool⟩

def create (cfg : DataCacheConfig) (pool : MfPool) : CacheSystem := ⟨.create cfg.toCacheConfig, pool⟩

/-- A step leaves its entry in the history. -/
def Moves (kind : CacheKind) (cfg : DataCacheConfig) (s : CacheSystem) (moves : List CacheMove) (t : CacheSystem) :
    Prop :=
  ∃ action, moves = [⟨s, action, t⟩] ∧ Step kind cfg s action t

/-- A run from the empty cache. -/
def Run (kind : CacheKind) (cfg : DataCacheConfig) (pool : MfPool) (history : List CacheMove)
    (s : CacheSystem) : Prop :=
  Reaches (Moves kind cfg) (create cfg pool) history s

end CacheSystem

/-! ## The registers along a run -/

namespace MshrTable

variable {cfg : CacheConfig} {table next : MshrTable} {b : Nat} {mf : MfId} {isAtomic : Bool}

theorem probe_add (added : table.add cfg b mf isAtomic = .ok next) (c : Nat) :
    next.probe c = true ↔ c = b ∨ table.probe c = true := by
  simp only [add] at added
  split at added
  · cases added
    by_cases same : c = b
    · subst same
      simp [probe]
    · simp [probe, AList.lookup_insert_ne same, same]
  · contradiction

theorem probe_of_data (same : next.data = table.data) (c : Nat) : next.probe c = table.probe c := by
  simp only [probe, same]

/-- The front block leaves with its last request, and stays until then. -/
theorem probe_nextAccess (popped : table.nextAccess = .ok (mf, next)) :
    ∃ b rest, table.currentResponse = b :: rest ∧
      (next.currentResponse = rest ∧ (∀ c, c ≠ b → next.probe c = table.probe c) ∨
        next.currentResponse = b :: rest ∧ ∀ c, table.probe c = true → next.probe c = true) := by
  simp only [nextAccess] at popped
  split at popped
  · contradiction
  next b rest front =>
    refine ⟨b, rest, front, ?_⟩
    split at popped
    · contradiction
    · cases popped
      refine .inl ⟨rfl, ?_⟩
      intro c apart
      simp [probe, AList.lookup_erase_ne apart]
    · cases popped
      refine .inr ⟨front, ?_⟩
      intro c present
      by_cases same : c = b
      · subst same
        simp [probe]
      · simpa [probe, AList.lookup_insert_ne same] using present

end MshrTable

/-- The records of sent requests agree with the registers. -/
structure Outstanding (cfg : DataCacheConfig) (s : CacheSystem) : Prop where
  known : ∀ {mf extra}, s.cache.extraMfFields mf = some extra → s.cache.mshrs.probe extra.blockAddr = true
  pending : ∀ {mf extra}, s.cache.extraMfFields mf = some extra → extra.blockAddr ∉ s.cache.mshrs.currentResponse
  primary : ∀ {mf mf' extra extra'}, s.cache.extraMfFields mf = some extra →
    s.cache.extraMfFields mf' = some extra' → extra.blockAddr = extra'.blockAddr → mf = mf'
  block : ∀ {mf extra}, s.cache.extraMfFields mf = some extra → extra.blockAddr = cfg.mshrAddr extra.addr
  named : ∀ {mf extra}, s.cache.extraMfFields mf = some extra →
    ∃ c, cfg.cell (s.pool.get mf).sectorMask = .ok c ∧
      (cfg.cacheType = .sector → c = extra.addr / sectorSize % sectorChunckSize)
  in_use : ∀ {mf extra}, s.cache.extraMfFields mf = some extra → mf.serial < s.pool.nextSerial
  ready : ∀ b ∈ s.cache.mshrs.currentResponse, s.cache.mshrs.probe b = true
  ready_nodup : s.cache.mshrs.currentResponse.Nodup
  typed : s.cache.tagArray.Typed cfg.toCacheConfig


/-! ## Fills -/

namespace DataCache

variable {cfg : CacheConfig} {cache next : DataCache} {pool pool' : MfPool} {mf r : MfId} {time c : Nat}
  {extra : ExtraMfFields}

/-- A request that has come back whole. -/
structure Completed (cfg : CacheConfig) (cache : DataCache) (pool : MfPool) (r : MfId) (extra : ExtraMfFields)
    (time : Nat) (next : DataCache) (pool' : MfPool) : Prop where
  pending : cache.extraMfFields r = some extra
  pool_eq : pool' = pool.modify r fun request => (request.setDataSize extra.dataSize).setAddr extra.addr
  data : next.mshrs.data = cache.mshrs.data
  ready : next.mshrs.currentResponse = cache.mshrs.currentResponse ++ [extra.blockAddr]
  missQueue : next.missQueue = cache.missQueue
  extraMfFields : next.extraMfFields = Function.update cache.extraMfFields r none
  tags : ∃ filled hasAtomic, fillTags cfg cache.tagArray extra (pool'.get r) time = .ok filled ∧
    markAtomic cfg filled extra (pool'.get r) hasAtomic = .ok next.tagArray

/-- One part of a request that comes back in parts. -/
structure Counted (cache : DataCache) (pool : MfPool) (r : MfId) (extra : ExtraMfFields) (next : DataCache)
    (pool' : MfPool) : Prop where
  pending : cache.extraMfFields r = some extra
  pool_eq : pool' = pool
  rest : ∃ pendingRead, next = { cache with
    extraMfFields := Function.update cache.extraMfFields r (some { extra with pendingRead }) }

theorem completeFill_completed (done : cache.completeFill cfg pool mf time = .ok (next, pool')) :
    ∃ extra, Completed cfg cache pool mf extra time next pool' := by
  simp only [completeFill] at done
  split at done
  · contradiction
  next extra found =>
    obtain ⟨filled, filling, done⟩ := bind_ok.mp done
    obtain ⟨⟨hasAtomic, mshrs⟩, marking, done⟩ := bind_ok.mp done
    obtain ⟨tags, dirtying, done⟩ := bind_ok.mp done
    obtain ⟨data, ready, -⟩ := MshrTable.markReady_ok marking
    cases done
    exact ⟨extra, found, rfl, data, ready, rfl, rfl, filled, hasAtomic, filling, dirtying⟩

/-- With sector registers the answer is credited to the request it is a part of. -/
theorem fill_sectorAssoc (sectored : cfg.mshrType = .sectorAssoc)
    (done : cache.fill cfg pool mf time = .ok (next, pool')) :
    ∃ r extra pendingRead, cache.extraMfFields r = some extra ∧
      (if pendingRead > 0 then
        .ok ({ cache with
          extraMfFields := Function.update cache.extraMfFields r (some { extra with pendingRead }) }, pool)
      else DataCache.completeFill cfg { cache with
        extraMfFields := Function.update cache.extraMfFields r (some { extra with pendingRead }) } pool r time) =
        .ok (next, pool') := by
  simp only [fill, sectored] at done
  split at done
  · contradiction
  next original _ =>
    split at done
    · contradiction
    next extra found => exact ⟨.original original, extra, _, found, done⟩

theorem fill_cases (done : cache.fill cfg pool mf time = .ok (next, pool')) :
    ∃ r extra, Counted cache pool r extra next pool' ∨ Completed cfg cache pool r extra time next pool' := by
  cases kind : cfg.mshrType with
  | assoc =>
      simp only [fill, kind] at done
      obtain ⟨extra, completed⟩ := completeFill_completed done
      exact ⟨mf, extra, .inr completed⟩
  | sectorAssoc =>
      obtain ⟨r, extra, pendingRead, found, done⟩ := fill_sectorAssoc kind done
      split at done
      · cases done
        exact ⟨r, extra, .inl ⟨found, rfl, pendingRead, rfl⟩⟩
      · obtain ⟨credited, completed⟩ := completeFill_completed done
        have same := completed.pending
        dsimp only at same
        rw [Function.update_self] at same
        cases same
        obtain ⟨-, pool_eq, data, ready, missQueue, extras, tags⟩ := completed
        refine ⟨r, extra, .inr ⟨found, pool_eq, data, ready, missQueue, ?_, tags⟩⟩
        rw [extras, Function.update_idem]

/-- The records are what they were, but for what is still to come. -/
theorem Counted.before {found : ExtraMfFields} (counted : Counted cache pool r extra next pool')
    (here : next.extraMfFields mf = some found) :
    ∃ earlier, cache.extraMfFields mf = some earlier ∧ found.blockAddr = earlier.blockAddr ∧
      found.addr = earlier.addr ∧ found.cacheIndex = earlier.cacheIndex := by
  obtain ⟨pendingRead, rest⟩ := counted.rest
  rw [rest] at here
  dsimp only at here
  by_cases same : mf = r
  · subst same
    rw [Function.update_self] at here
    cases here
    exact ⟨extra, counted.pending, rfl, rfl, rfl⟩
  · rw [Function.update_of_ne same] at here
    exact ⟨found, here, rfl, rfl, rfl⟩

theorem Completed.extends_pool (completed : Completed cfg cache pool r extra time next pool') :
    pool'.Extends pool := by
  rw [completed.pool_eq]
  refine .modify pool r ?_
  exact fun _ => rfl

theorem Completed.sectorMask (completed : Completed cfg cache pool r extra time next pool') (mf : MfId) :
    (pool'.get mf).sectorMask = (pool.get mf).sectorMask := by
  rw [completed.pool_eq]
  by_cases same : mf = r
  · rw [same, MfPool.get_modify_self]
    rfl
  · rw [MfPool.get_modify_of_ne _ _ same]

theorem markAtomic_ok {filled marked : TagArray} {request : MemFetch} {hasAtomic : Bool} (typed : filled.Typed cfg)
    (cell : cfg.cell request.sectorMask = .ok c) (done : markAtomic cfg filled extra request hasAtomic = .ok marked) :
    marked.Typed cfg ∧ (marked.view = filled.view ∨ ∃ i, extra.cacheIndex = some i ∧
      marked.view = Function.update filled.view i ((filled.view i).setStatus c .modified)) := by
  unfold markAtomic at done
  split at done
  · split at done
    next _ index onMiss at_index =>
      obtain ⟨block, made, done⟩ := bind_ok.mp done
      cases done
      obtain ⟨_, ok, is_typed, view⟩ := (filled.lines index).setStatus_ok (typed index) cell .modified
      obtain rfl := Except.ok.inj (made.symm.trans ok)
      refine ⟨typed.setLine is_typed, .inr ⟨index, at_index, ?_⟩⟩
      rw [TagArray.view_setLine, view]
      rfl
    · contradiction
  · cases done
    exact ⟨typed, .inl rfl⟩

/-- A fill by index changes one sector of the remembered line. -/
theorem Completed.onMiss (completed : Completed cfg cache pool r extra time next pool')
    (typed : cache.tagArray.Typed cfg) (cell : cfg.cell (pool.get r).sectorMask = .ok c)
    (policy : cfg.allocPolicy = .onMiss) :
    ∃ i, extra.cacheIndex = some i ∧ next.tagArray.Typed cfg ∧
      ∃ line, (line = (cache.tagArray.view i).fill c ∨ line = ((cache.tagArray.view i).fill c).setStatus c .modified) ∧
        next.tagArray.view = Function.update cache.tagArray.view i line := by
  obtain ⟨filled, hasAtomic, filling, marking⟩ := completed.tags
  rw [← completed.sectorMask] at cell
  unfold fillTags at filling
  rw [policy] at filling
  split at filling
  next _ index _ at_index =>
    obtain ⟨filled_typed, filled_view⟩ := TagArray.fillIndex_ok typed cell filling
    obtain ⟨is_typed, same | ⟨i, here, view⟩⟩ := markAtomic_ok filled_typed cell marking
    · exact ⟨index, at_index, is_typed, _, .inl rfl, same.trans filled_view⟩
    · rw [at_index] at here
      cases here
      refine ⟨_, at_index, is_typed, _, .inr rfl, ?_⟩
      rw [view, filled_view, Function.update_self, Function.update_idem]
  · contradiction
  next onFill => cases onFill

/-- A fill by address changes the line that the probe names. -/
theorem Completed.onFill (completed : Completed cfg cache pool r extra time next pool')
    (typed : cache.tagArray.Typed cfg) (cell : cfg.cell (pool.get r).sectorMask = .ok c)
    (policy : cfg.allocPolicy = .onFill) :
    ∃ i status, cache.tagArray.probe cfg extra.blockAddr (pool.get r) false = .ok (status, some i) ∧
      TagArray.Probed cfg cache.tagArray.view (cfg.tag extra.blockAddr) c status (some i) ∧
      next.tagArray.Typed cfg ∧
      next.tagArray.view = Function.update cache.tagArray.view i
        ((TagArray.readied cfg status extra.blockAddr c (cache.tagArray.view i)).fill c) := by
  obtain ⟨filled, hasAtomic, filling, marking⟩ := completed.tags
  have mask := completed.sectorMask r
  rw [← mask] at cell
  unfold fillTags at filling
  rw [policy] at filling
  dsimp only at filling
  obtain ⟨tags, made, filling⟩ := bind_ok.mp filling
  cases filling
  obtain ⟨i, status, probed, sound, is_typed, view⟩ := TagArray.fillAddr_ok typed cell made
  have unmarked : next.tagArray.Typed cfg ∧ next.tagArray.view = tags.view := by
    unfold markAtomic at marking
    split at marking
    · rw [policy] at marking
      contradiction
    · have same := Except.ok.inj marking
      rw [← same]
      split
      · exact ⟨is_typed, rfl⟩
      · exact ⟨is_typed, rfl⟩
  refine ⟨i, status, ?_, sound, unmarked.1, unmarked.2.trans view⟩
  rwa [TagArray.probe_sectorMask mask] at probed

end DataCache


/-! ## The records along a run -/

namespace Outstanding

open CacheSystem

variable {kind : CacheKind} {cfg : DataCacheConfig} {s t : CacheSystem} {action : CacheAction}

theorem create (cfg : DataCacheConfig) (pool : MfPool) : Outstanding cfg (CacheSystem.create cfg pool) where
  known found := by contradiction
  pending found := by contradiction
  primary found := by contradiction
  block found := by contradiction
  named found := by contradiction
  in_use found := by contradiction
  ready _ member := absurd member List.not_mem_nil
  ready_nodup := List.nodup_nil
  typed := TagArray.Typed.create cfg.toCacheConfig

/-- Steps that leave the registers and the records alone. -/
theorem of_same (outstanding : Outstanding cfg s) (same : SameRegisters t.cache s.cache)
    (serial : s.pool.nextSerial ≤ t.pool.nextSerial)
    (kept : ∀ mf, (s.cache.extraMfFields mf).isSome → (t.pool.get mf).sectorMask = (s.pool.get mf).sectorMask)
    (typed : t.cache.tagArray.Typed cfg.toCacheConfig) : Outstanding cfg t := by
  have before : ∀ {mf extra}, t.cache.extraMfFields mf = some extra → s.cache.extraMfFields mf = some extra := by
    intro mf extra found
    rwa [same.extraMfFields] at found
  refine ⟨?_, ?_, ?_, ?_, ?_, ?_, ?_, ?_, typed⟩
  · intro mf extra found
    rw [same.mshrs]
    exact outstanding.known (before found)
  · intro mf extra found
    rw [same.mshrs]
    exact outstanding.pending (before found)
  · exact fun one two => outstanding.primary (before one) (before two)
  · exact fun found => outstanding.block (before found)
  · intro mf extra found
    rw [kept mf (by rw [before found]; rfl)]
    exact outstanding.named (before found)
  · exact fun found => Nat.lt_of_lt_of_le (outstanding.in_use (before found)) serial
  · rw [same.mshrs]
    exact outstanding.ready
  · rw [same.mshrs]
    exact outstanding.ready_nodup

theorem of_extends (outstanding : Outstanding cfg s) {pool : MfPool} (extends_pool : pool.Extends s.pool) (mf : MfId)
    (pending : (s.cache.extraMfFields mf).isSome) : (pool.get mf).sectorMask = (s.pool.get mf).sectorMask := by
  obtain ⟨extra, found⟩ := Option.isSome_iff_exists.mp pending
  exact extends_pool.sectorMask mf (outstanding.in_use found)

/-- A read that is listed. -/
theorem register {r : MfId} {addr c : Nat} {index : Option Nat} (outstanding : Outstanding cfg s)
    (registered : Registered cfg.toCacheConfig s.cache addr r index t.cache) (extends_pool : t.pool.Extends s.pool)
    (in_use : r.serial < t.pool.nextSerial) (cell : cfg.cell (t.pool.get r).sectorMask = .ok c)
    (sector : cfg.cacheType = .sector → c = addr / sectorSize % sectorChunckSize)
    (typed : t.cache.tagArray.Typed cfg.toCacheConfig) : Outstanding cfg t := by
  have serial := extends_pool.nextSerial
  have kept := outstanding.of_extends extends_pool
  cases registered with
  | merged isAtomic known room added extras =>
      have response := (MshrTable.add_ok added).2.1
      have before : ∀ {mf extra}, t.cache.extraMfFields mf = some extra → s.cache.extraMfFields mf = some extra := by
        intro mf extra found
        rwa [extras] at found
      refine ⟨?_, ?_, ?_, ?_, ?_, ?_, ?_, ?_, typed⟩
      · exact fun found => (MshrTable.probe_add added _).mpr (.inr (outstanding.known (before found)))
      · intro mf extra found
        rw [response]
        exact outstanding.pending (before found)
      · exact fun one two => outstanding.primary (before one) (before two)
      · exact fun found => outstanding.block (before found)
      · intro mf extra found
        rw [kept mf (by rw [before found]; rfl)]
        exact outstanding.named (before found)
      · exact fun found => Nat.lt_of_lt_of_le (outstanding.in_use (before found)) serial
      · intro b member
        rw [response] at member
        exact (MshrTable.probe_add added b).mpr (.inr (outstanding.ready b member))
      · rw [response]
        exact outstanding.ready_nodup
  | primary isAtomic extra unknown added extras blockAddr at_addr cacheIndex =>
      have response := (MshrTable.add_ok added).2.1
      have before : ∀ {mf found}, t.cache.extraMfFields mf = some found →
          mf = r ∧ found = extra ∨ mf ≠ r ∧ s.cache.extraMfFields mf = some found := by
        intro mf found here
        rw [extras] at here
        by_cases same : mf = r
        · subst same
          rw [Function.update_self] at here
          exact .inl ⟨rfl, (Option.some.inj here).symm⟩
        · rw [Function.update_of_ne same] at here
          exact .inr ⟨same, here⟩
      have elsewhere : ∀ {mf found}, s.cache.extraMfFields mf = some found → found.blockAddr ≠ cfg.mshrAddr addr := by
        intro mf found here same
        have known := outstanding.known here
        rw [same, unknown] at known
        contradiction
      refine ⟨?_, ?_, ?_, ?_, ?_, ?_, ?_, ?_, typed⟩
      · intro mf found here
        rw [MshrTable.probe_add added]
        rcases before here with ⟨rfl, rfl⟩ | ⟨-, old⟩
        · exact .inl blockAddr
        · exact .inr (outstanding.known old)
      · intro mf found here
        rw [response]
        rcases before here with ⟨rfl, rfl⟩ | ⟨-, old⟩
        · intro member
          have known := outstanding.ready _ member
          rw [blockAddr, unknown] at known
          contradiction
        · exact outstanding.pending old
      · intro one two first second here there same
        rcases before here with ⟨rfl, rfl⟩ | ⟨-, old⟩ <;> rcases before there with ⟨rfl, rfl⟩ | ⟨-, old'⟩
        · rfl
        · exact absurd (same.symm.trans blockAddr) (elsewhere old')
        · exact absurd (same.trans blockAddr) (elsewhere old)
        · exact outstanding.primary old old' same
      · intro mf found here
        rcases before here with ⟨rfl, rfl⟩ | ⟨-, old⟩
        · rw [blockAddr, at_addr]
        · exact outstanding.block old
      · intro mf found here
        rcases before here with ⟨rfl, rfl⟩ | ⟨-, old⟩
        · exact ⟨c, cell, by rwa [at_addr]⟩
        · rw [kept mf (by rw [old]; rfl)]
          exact outstanding.named old
      · intro mf found here
        rcases before here with ⟨rfl, rfl⟩ | ⟨-, old⟩
        · exact in_use
        · exact Nat.lt_of_lt_of_le (outstanding.in_use old) serial
      · intro b member
        rw [response] at member
        exact (MshrTable.probe_add added b).mpr (.inr (outstanding.ready b member))
      · rw [response]
        exact outstanding.ready_nodup

/-- The sector that a presented request names. -/
theorem cell_of_presented {mf : MfId} (presented : Presented cfg s mf) :
    ∃ c, cfg.cell (s.pool.get mf).sectorMask = .ok c ∧
      (cfg.cacheType = .sector → c = (s.pool.get mf).addr / sectorSize % sectorChunckSize) := by
  unfold CacheConfig.cell
  cases kind : cfg.cacheType with
  | normal => exact ⟨0, rfl, by simp⟩
  | sector => exact ⟨_, presented.sector kind, fun _ => rfl⟩

open CacheSystem

theorem counted {r : MfId} {extra : ExtraMfFields} (outstanding : Outstanding cfg s)
    (counted : DataCache.Counted s.cache s.pool r extra t.cache t.pool) : Outstanding cfg t := by
  have pool_eq := counted.pool_eq
  have before := fun {mf found} (here : t.cache.extraMfFields mf = some found) => counted.before here
  obtain ⟨pendingRead, rest⟩ := counted.rest
  have mshrs : t.cache.mshrs = s.cache.mshrs := by rw [rest]
  refine ⟨?_, ?_, ?_, ?_, ?_, ?_, ?_, ?_, ?_⟩
  · intro mf found here
    obtain ⟨earlier, was, block, -, -⟩ := before here
    rw [mshrs, block]
    exact outstanding.known was
  · intro mf found here
    obtain ⟨earlier, was, block, -, -⟩ := before here
    rw [mshrs, block]
    exact outstanding.pending was
  · intro one two first second here there same
    obtain ⟨earlier, was, block, -, -⟩ := before here
    obtain ⟨earlier', was', block', -, -⟩ := before there
    exact outstanding.primary was was' (by rw [← block, ← block', same])
  · intro mf found here
    obtain ⟨earlier, was, block, addr, -⟩ := before here
    rw [block, addr]
    exact outstanding.block was
  · intro mf found here
    obtain ⟨earlier, was, -, addr, -⟩ := before here
    rw [pool_eq, addr]
    exact outstanding.named was
  · intro mf found here
    obtain ⟨earlier, was, -, -, -⟩ := before here
    rw [pool_eq]
    exact outstanding.in_use was
  · rw [mshrs]
    exact outstanding.ready
  · rw [mshrs]
    exact outstanding.ready_nodup
  · rw [rest]
    exact outstanding.typed

theorem completed {r : MfId} {extra : ExtraMfFields} {time : Nat} (outstanding : Outstanding cfg s)
    (completed : DataCache.Completed cfg.toCacheConfig s.cache s.pool r extra time t.cache t.pool)
    (typed : t.cache.tagArray.Typed cfg.toCacheConfig) : Outstanding cfg t := by
  have before : ∀ {mf found}, t.cache.extraMfFields mf = some found →
      mf ≠ r ∧ s.cache.extraMfFields mf = some found := by
    intro mf found here
    rw [completed.extraMfFields] at here
    by_cases same : mf = r
    · subst same
      rw [Function.update_self] at here
      contradiction
    · rw [Function.update_of_ne same] at here
      exact ⟨same, here⟩
  have probes := MshrTable.probe_of_data completed.data
  refine ⟨?_, ?_, ?_, ?_, ?_, ?_, ?_, ?_, typed⟩
  · intro mf found here
    rw [probes]
    exact outstanding.known (before here).2
  · intro mf found here
    rw [completed.ready, List.mem_append, List.mem_singleton, not_or]
    refine ⟨outstanding.pending (before here).2, fun same => (before here).1 ?_⟩
    exact outstanding.primary (before here).2 completed.pending same
  · exact fun here there => outstanding.primary (before here).2 (before there).2
  · exact fun here => outstanding.block (before here).2
  · intro mf found here
    rw [completed.sectorMask]
    exact outstanding.named (before here).2
  · exact fun here => Nat.lt_of_lt_of_le (outstanding.in_use (before here).2) completed.extends_pool.nextSerial
  · intro b member
    rw [probes]
    rw [completed.ready, List.mem_append, List.mem_singleton] at member
    rcases member with early | rfl
    · exact outstanding.ready b early
    · exact outstanding.known completed.pending
  · rw [completed.ready, List.nodup_append]
    refine ⟨outstanding.ready_nodup, List.nodup_singleton _, ?_⟩
    intro b early b' single same
    rw [List.mem_singleton] at single
    subst same single
    exact outstanding.pending completed.pending early

theorem nextAccess {mf : MfId} {cache : DataCache} (outstanding : Outstanding cfg s)
    (done : s.cache.nextAccess = .ok (mf, cache)) : Outstanding cfg ⟨cache, s.pool⟩ := by
  obtain ⟨⟨first, mshrs⟩, popped, done⟩ := bind_ok.mp done
  cases done
  obtain ⟨b, rest, front, left⟩ := MshrTable.probe_nextAccess popped
  have distinct := outstanding.ready_nodup
  rw [front, List.nodup_cons] at distinct
  have apart : ∀ {mf extra}, s.cache.extraMfFields mf = some extra → extra.blockAddr ≠ b := by
    intro mf extra found same
    refine outstanding.pending found ?_
    rw [front, same]
    exact List.mem_cons_self
  have still : ∀ c ∈ mshrs.currentResponse, c ∈ s.cache.mshrs.currentResponse := by
    intro c member
    rw [front]
    rcases left with ⟨response, -⟩ | ⟨response, -⟩
    · rw [response] at member
      exact List.mem_cons_of_mem _ member
    · rwa [response] at member
  refine ⟨?_, ?_, outstanding.primary, outstanding.block, outstanding.named, outstanding.in_use, ?_, ?_,
    outstanding.typed⟩
  · intro mf extra found
    rcases left with ⟨-, others⟩ | ⟨-, kept⟩
    · exact (others _ (apart found)).trans (outstanding.known found)
    · exact kept _ (outstanding.known found)
  · exact fun found member => outstanding.pending found (still _ member)
  · intro c member
    have present := outstanding.ready c (still c member)
    rcases left with ⟨response, others⟩ | ⟨-, kept⟩
    · refine (others c ?_).trans present
      rintro rfl
      rw [response] at member
      exact distinct.1 member
    · exact kept c present
  · rcases left with ⟨response, -⟩ | ⟨response, -⟩
    · dsimp only
      rw [response]
      exact distinct.2
    · dsimp only
      rw [response]
      exact List.nodup_cons.mpr distinct

theorem access {mf : MfId} {time c : Nat} {result : AccessResult} (outstanding : Outstanding cfg s)
    (presented : Presented cfg s mf) (cell : cfg.cell (s.pool.get mf).sectorMask = .ok c)
    (sector : cfg.cacheType = .sector → c = (s.pool.get mf).addr / sectorSize % sectorChunckSize)
    (done : kind.access cfg s.cache s.pool mf time = .ok result) : Outstanding cfg ⟨result.cache, result.pool⟩ := by
  obtain ⟨typed, extends_pool, effect⟩ := CacheKind.access_handled outstanding.typed cell presented.in_use done
  have same : SameRegisters result.cache s.cache → Outstanding cfg ⟨result.cache, result.pool⟩ := fun same =>
    outstanding.of_same same extends_pool.nextSerial (outstanding.of_extends extends_pool) typed
  cases effect with
  | unchanged view regs still sent => exact same regs
  | written i found probed view regs => exact same regs
  | writeEvicted i found probed policy sent view regs => exact same regs
  | stored i status middle evicted write stores queue_room probed no_hit room touched view regs disposed =>
      exact same regs
  | fetched r i status middle evicted reader sends probed no_hit room touched view registered sectorMask disposed =>
      refine @register _ s ⟨result.cache, result.pool⟩ r _ c _ outstanding registered extends_pool ?_ ?_ sector typed
      · rcases reader with rfl | ⟨-, used⟩
        · exact Nat.lt_of_lt_of_le presented.in_use extends_pool.nextSerial
        · exact used
      · dsimp only
        rw [sectorMask, cell]

theorem cycle_same (memportFull : Bool) (cache : DataCache) :
    SameRegisters (cache.cycle memportFull) cache ∧ (cache.cycle memportFull).tagArray = cache.tagArray := by
  unfold DataCache.cycle
  split
  · exact ⟨⟨rfl, rfl⟩, rfl⟩
  · cases memportFull <;> exact ⟨⟨rfl, rfl⟩, rfl⟩

theorem fill_typed {r : MfId} {extra : ExtraMfFields} {time : Nat} (outstanding : Outstanding cfg s)
    (completed : DataCache.Completed cfg.toCacheConfig s.cache s.pool r extra time t.cache t.pool) :
    t.cache.tagArray.Typed cfg.toCacheConfig := by
  obtain ⟨c, cell, -⟩ := outstanding.named completed.pending
  cases policy : cfg.allocPolicy with
  | onMiss =>
      obtain ⟨i, -, typed, -⟩ := completed.onMiss outstanding.typed cell policy
      exact typed
  | onFill =>
      obtain ⟨i, status, -, -, typed, -⟩ := completed.onFill outstanding.typed cell policy
      exact typed

theorem step (outstanding : Outstanding cfg s) (step : Step kind cfg s action t) : Outstanding cfg t := by
  cases step with
  | access presented done =>
      obtain ⟨c, cell, sector⟩ := cell_of_presented presented
      exact outstanding.access presented cell sector done
  | fill done =>
      obtain ⟨r, extra, counted | completed⟩ := DataCache.fill_cases done
      · exact outstanding.counted counted
      · exact outstanding.completed completed (outstanding.fill_typed completed)
  | nextAccess done => exact outstanding.nextAccess done
  | cycle memportFull =>
      obtain ⟨same, tags⟩ := cycle_same memportFull s.cache
      refine outstanding.of_same same (Nat.le_refl _) (fun _ _ => rfl) ?_
      dsimp only
      rw [tags]
      exact outstanding.typed
  | elsewhere serial kept => exact outstanding.of_same (.refl _) serial kept outstanding.typed

theorem run {pool : MfPool} {history : List CacheMove} (run : Run kind cfg pool history s) : Outstanding cfg s := by
  induction run with
  | refl => exact create cfg pool
  | next _ stepped ih =>
      obtain ⟨action, -, step⟩ := stepped
      exact ih.step step

end Outstanding


/-! ## Runs that are computed -/

/-- What is asked of a cache from outside. -/
inductive CacheOp
  | access (mf : MfId) (time : Nat)
  | fill (mf : MfId) (time : Nat)
  | nextAccess
  | cycle (memportFull : Bool)

namespace CacheSystem

variable {kind : CacheKind} {cfg : DataCacheConfig} {s t : CacheSystem} {op : CacheOp} {move : CacheMove}

/-- `Presented`, as a test. -/
def isPresented (cfg : DataCacheConfig) (s : CacheSystem) (mf : MfId) : Bool :=
  (s.cache.extraMfFields mf).isNone && decide (mf.serial < s.pool.nextSerial) &&
    match cfg.cacheType, getSectorIndex (s.pool.get mf).sectorMask with
    | .normal, _ => true
    | .sector, .ok sector => sector == (s.pool.get mf).addr / sectorSize % sectorChunckSize
    | .sector, .error _ => false

theorem presented_of_isPresented {mf : MfId} (is_presented : isPresented cfg s mf = true) : Presented cfg s mf := by
  simp only [isPresented, Bool.and_eq_true, Option.isNone_iff_eq_none, decide_eq_true_eq] at is_presented
  obtain ⟨⟨idle, in_use⟩, sector⟩ := is_presented
  refine ⟨idle, in_use, ?_⟩
  intro sectored
  rw [sectored] at sector
  cases named : getSectorIndex (s.pool.get mf).sectorMask with
  | ok c =>
      simp only [named, beq_iff_eq] at sector
      rw [sector]
  | error fault => simp [named] at sector

/-- One entry of the history, computed. -/
def perform (kind : CacheKind) (cfg : DataCacheConfig) (s : CacheSystem) (op : CacheOp) : Except CacheFault CacheMove :=
  match op with
  | .access mf time =>
      if isPresented cfg s mf then do
        let result ← kind.access cfg s.cache s.pool mf time
        return ⟨s, .access mf time result, ⟨result.cache, result.pool⟩⟩
      else throw .assertion
  | .fill mf time => do
      let (cache, pool) ← s.cache.fill cfg.toCacheConfig s.pool mf time
      return ⟨s, .fill mf time, ⟨cache, pool⟩⟩
  | .nextAccess => do
      let (mf, cache) ← s.cache.nextAccess
      return ⟨s, .nextAccess mf, ⟨cache, s.pool⟩⟩
  | .cycle memportFull => return ⟨s, .cycle memportFull, ⟨s.cache.cycle memportFull, s.pool⟩⟩

theorem perform_ok (done : perform kind cfg s op = .ok move) :
    move.before = s ∧ Step kind cfg s move.action move.after := by
  cases op with
  | access mf time =>
      simp only [perform] at done
      split at done
      next presented =>
        obtain ⟨result, accessed, done⟩ := bind_ok.mp done
        cases done
        exact ⟨rfl, .access (presented_of_isPresented presented) accessed⟩
      next => cases done
  | fill mf time =>
      obtain ⟨⟨cache, pool⟩, filled, done⟩ := bind_ok.mp done
      cases done
      exact ⟨rfl, .fill filled⟩
  | nextAccess =>
      obtain ⟨⟨mf, cache⟩, left, done⟩ := bind_ok.mp done
      cases done
      exact ⟨rfl, .nextAccess left⟩
  | cycle memportFull =>
      cases done
      exact ⟨rfl, .cycle memportFull⟩

/-- The history of a list of requests, on top of an earlier one. -/
def performAll (kind : CacheKind) (cfg : DataCacheConfig) :
    List CacheMove → CacheSystem → List CacheOp → Except CacheFault (List CacheMove × CacheSystem)
  | history, s, [] => .ok (history, s)
  | history, s, op :: rest => do
      let move ← perform kind cfg s op
      performAll kind cfg (history ++ [move]) move.after rest

theorem run_of_performAll {pool : MfPool} {history history' : List CacheMove} {ops : List CacheOp}
    (run : Run kind cfg pool history s) (done : performAll kind cfg history s ops = .ok (history', t)) :
    Run kind cfg pool history' t := by
  induction ops generalizing history s with
  | nil =>
      cases done
      exact run
  | cons op rest ih =>
      obtain ⟨move, performed, later⟩ := bind_ok.mp done
      obtain ⟨before, step⟩ := perform_ok performed
      refine ih (run.next ⟨move.action, ?_, step⟩) later
      rw [← before]

/-- A test of the history and the state after a list of requests. -/
def testRun (kind : CacheKind) (cfg : DataCacheConfig) (pool : MfPool) (ops : List CacheOp)
    (test : List CacheMove → CacheSystem → Bool) : Bool :=
  match performAll kind cfg [] (create cfg pool) ops with
  | .ok (history, s) => test history s
  | .error _ => false

theorem exists_run {pool : MfPool} {ops : List CacheOp} {test : List CacheMove → CacheSystem → Bool}
    (passed : testRun kind cfg pool ops test = true) :
    ∃ history s, Run kind cfg pool history s ∧ test history s = true := by
  unfold testRun at passed
  split at passed
  next history s done => exact ⟨history, s, run_of_performAll .refl done, passed⟩
  next => contradiction

end CacheSystem

end GpgpuSim.Cache
