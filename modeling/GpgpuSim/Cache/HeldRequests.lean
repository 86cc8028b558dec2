import GpgpuSim.Cache.AccessRuns
import GpgpuSim.Cache.Requests

/-! A read-only cache as its user sees it: a set of requests that have missed, each with the address under
which it will come back. -/
namespace GpgpuSim.Cache
open GpgpuSim.Memory Transition

namespace DataCache

/-- The request has missed and has not been answered. -/
def Held (cache : DataCache) (mf : MfId) : Prop := ∃ b, mf ∈ cache.mshrs.list b

/-- The address of a request once it is back from memory. -/
def origin (cache : DataCache) (pool : MfPool) (mf : MfId) : Nat :=
  match cache.extraMfFields mf with
  | some extra => extra.addr
  | none => (pool.get mf).addr

/-- What holds of the registers and the request objects of a read-only cache. -/
structure Serving (cache : DataCache) (pool : MfPool) : Prop where
  coherent : cache.Coherent
  in_use : ∀ mf, cache.Held mf → mf.serial < pool.nextSerial
  single : ∀ mf b c, mf ∈ cache.mshrs.list b → mf ∈ cache.mshrs.list c → b = c

/-- Neither the requests nor their addresses change. -/
structure SameHeld (cache : DataCache) (pool : MfPool) (before : DataCache) (pool' : MfPool) : Prop where
  held : ∀ mf, cache.Held mf ↔ before.Held mf
  origin : ∀ mf, before.Held mf → cache.origin pool mf = before.origin pool' mf

/-- An access, as its user sees it: a hit or a refusal, or one more request that waits. -/
inductive Outcome (cache : DataCache) (pool : MfPool) (mf : MfId) (result : AccessResult) : Prop
  | done (status : result.status = .hit ∨ result.status = .reservationFail)
      (same : SameHeld result.cache result.pool cache pool)
  | missed (status : result.status = .miss) (held : ∀ other, result.cache.Held other ↔ cache.Held other ∨ other = mf)
      (origin : ∀ other, cache.Held other → result.cache.origin result.pool other = cache.origin pool other)
      (own : result.cache.origin result.pool mf = (pool.get mf).addr)

variable {cfg : CacheConfig} {cache next : DataCache} {pool pool' : MfPool} {mf : MfId} {time : Nat}

theorem Held.listed (coherent : cache.Coherent) {extra : ExtraMfFields}
    (pending : cache.extraMfFields mf = some extra) :
    cache.Held mf := ⟨extra.blockAddr, coherent.listed mf extra pending⟩

theorem SameHeld.of_same (same : SameRegisters next cache)
    (addr : ∀ mf, cache.Held mf → cache.extraMfFields mf = none → (pool'.get mf).addr = (pool.get mf).addr) :
    SameHeld next pool' cache pool where
  held mf := by
    unfold Held
    rw [same.mshrs]
  origin mf held := by
    rw [DataCache.origin, DataCache.origin, same.extraMfFields]
    cases pending : cache.extraMfFields mf with
    | none => exact addr mf held pending
    | some extra => rfl

theorem Serving.of_same (serving : Serving cache pool) (same : SameRegisters next cache)
    (serial : pool.nextSerial ≤ pool'.nextSerial) : Serving next pool' where
  coherent := serving.coherent.of_same same.mshrs same.extraMfFields
  in_use mf held := by
    unfold Held at held
    rw [same.mshrs] at held
    exact Nat.lt_of_lt_of_le (serving.in_use mf held) serial
  single := by
    rw [same.mshrs]
    exact serving.single

theorem Serving.create (cfg : CacheConfig) (pool : MfPool) : Serving (create cfg) pool where
  coherent := .create cfg
  in_use mf held := by
    obtain ⟨b, member⟩ := held
    exact absurd member List.not_mem_nil
  single mf b c member := absurd member List.not_mem_nil

theorem Serving.idle (serving : Serving cache pool) (absent : ¬ cache.Held mf) : cache.extraMfFields mf = none := by
  cases pending : cache.extraMfFields mf with
  | none => rfl
  | some extra => exact absurd (Held.listed serving.coherent pending) absent

theorem held_add {b : Nat} {isAtomic : Bool} {mshrs : MshrTable} (added : cache.mshrs.add cfg b mf isAtomic = .ok mshrs)
    (same : next.mshrs = mshrs) (other : MfId) : next.Held other ↔ cache.Held other ∨ other = mf := by
  unfold Held
  rw [same]
  constructor
  · rintro ⟨c, member⟩
    rcases (mem_list_add added).mp member with before | ⟨-, rfl⟩
    · exact .inl ⟨c, before⟩
    · exact .inr rfl
  · rintro (⟨c, before⟩ | rfl)
    · exact ⟨c, (mem_list_add added).mpr (.inl before)⟩
    · exact ⟨b, (mem_list_add added).mpr (.inr ⟨rfl, rfl⟩)⟩

theorem single_add {b : Nat} {isAtomic : Bool} {mshrs : MshrTable} (serving : Serving cache pool)
    (unlisted : ∀ c, mf ∉ cache.mshrs.list c) (added : cache.mshrs.add cfg b mf isAtomic = .ok mshrs) :
    ∀ other c d, other ∈ mshrs.list c → other ∈ mshrs.list d → c = d := by
  intro other c d here there
  rcases (mem_list_add added).mp here with before | ⟨rfl, rfl⟩ <;>
    rcases (mem_list_add added).mp there with before' | ⟨rfl, same⟩
  · exact serving.single other c d before before'
  · exact absurd (same ▸ before) (unlisted c)
  · exact absurd before' (unlisted d)
  · rfl

/-- A miss that joins another one. -/
theorem MergedMiss.outcome {serial : Nat} {sent : SentRead} {events : List CacheEvent}
    (merged : MergedMiss cfg cache pool (.request serial) sent) (serving : Serving cache pool)
    (idle : cache.extraMfFields (.request serial) = none) (unlisted : ∀ c, .request serial ∉ cache.mshrs.list c)
    (in_use : serial < pool.nextSerial) :
    Outcome cache pool (.request serial) ⟨.miss, events, sent.cache, sent.pool⟩ ∧ Serving sent.cache sent.pool := by
  have held := held_add merged.added rfl
  have origin : ∀ other, sent.cache.origin sent.pool other = cache.origin pool other := by
    intro other
    rw [DataCache.origin, DataCache.origin, merged.extraMfFields, merged.pool]
  refine ⟨.missed rfl held (fun other _ => origin other) ?_,
    serving.coherent.merge idle unlisted merged.added merged.extraMfFields, ?_,
      single_add serving unlisted merged.added⟩
  · rw [origin, DataCache.origin, idle]
  · intro other member
    rw [merged.pool]
    rcases (held other).mp member with before | rfl
    · exact serving.in_use other before
    · exact in_use

/-- A miss that is sent to memory, with the address of its block instead of its own. -/
theorem PrimaryMiss.outcome {serial : Nat} {sent : SentRead} {extra : ExtraMfFields} {events : List CacheEvent}
    (primary : PrimaryMiss cfg cache pool (.request serial) sent extra) (serving : Serving cache pool)
    (unlisted : ∀ c, .request serial ∉ cache.mshrs.list c) (in_use : serial < pool.nextSerial) :
    Outcome cache pool (.request serial) ⟨.miss, events, sent.cache, sent.pool⟩ ∧ Serving sent.cache sent.pool := by
  have held := held_add primary.added rfl
  refine ⟨.missed rfl held ?_ ?_, serving.coherent.send unlisted primary.unknown primary.added primary.blockAddr
    primary.extraMfFields, ?_, single_add serving unlisted primary.added⟩
  · intro other before
    have apart : other ≠ .request serial := by
      rintro rfl
      obtain ⟨c, member⟩ := before
      exact unlisted c member
    rw [DataCache.origin, DataCache.origin, primary.extraMfFields, Function.update_of_ne apart, primary.pool,
      MfPool.get_modify_of_ne _ _ apart]
  · rw [DataCache.origin, primary.extraMfFields, Function.update_self]
    exact primary.addr
  · intro other member
    rw [primary.pool, MfPool.nextSerial_modify]
    rcases (held other).mp member with before | rfl
    · exact serving.in_use other before
    · exact in_use

theorem status_of_hit {tags : TagArray} {index line found : Option Nat} {addr : Nat} {status : CacheRequestStatus}
    (probed : cache.tagArray.probe cfg addr (pool.get mf) false = .ok (.hit, line))
    (done : cache.tagArray.accessNoWriteBack cfg addr time index (pool.get mf) = .ok (status, found, tags)) :
    status = .hit := by
  obtain ⟨⟨status', found', tags', evicted⟩, accessed, done⟩ := bind_ok.mp done
  obtain ⟨⟨again, line'⟩, probe, accessed⟩ := bind_ok.mp accessed
  rw [probed] at probe
  cases probe
  have same : status' = .hit := by
    cases line with
    | none => cases accessed
    | some i =>
        obtain ⟨touched, -, accessed⟩ := bind_ok.mp accessed
        cases accessed
        rfl
  cases evicted with
  | some evicted => cases done
  | none =>
      cases done
      exact same

/-- A request that is not in the cache is presented to it. -/
theorem readOnlyAccess_outcome {result : AccessResult} (serving : Serving cache pool) (absent : ¬ cache.Held mf)
    (fresh : ∃ serial, mf = .request serial ∧ serial < pool.nextSerial)
    (done : cache.readOnlyAccess cfg pool (pool.get mf).addr mf time = .ok result) :
    Outcome cache pool mf result ∧ Serving result.cache result.pool := by
  obtain ⟨serial, rfl, in_use⟩ := fresh
  have idle := serving.idle absent
  have unlisted : ∀ c, .request serial ∉ cache.mshrs.list c := fun c member => absent ⟨c, member⟩
  have refused : Outcome cache pool (.request serial) ⟨.reservationFail, [], cache, pool⟩ ∧ Serving cache pool :=
    ⟨.done (.inr rfl) (.of_same (.refl cache) fun _ _ _ => rfl), serving⟩
  have missed : ∀ line, cache.readOnlyMiss cfg pool (pool.get (.request serial)).addr line (.request serial) time =
      .ok result → Outcome cache pool (.request serial) result ∧ Serving result.cache result.pool := by
    intro line missing
    rw [readOnlyMiss] at missing
    split at missing
    · cases missing
      exact refused
    · obtain ⟨outcome, sending, missing⟩ := bind_ok.mp missing
      cases outcome with
      | none =>
          cases missing
          exact refused
      | some sent =>
          dsimp only at missing
          split at missing
          · simp only [bind_ok, throw_ok, false_and, exists_const] at missing
          · cases missing
            obtain ⟨merged | ⟨extra, primary⟩, -⟩ := sendReadRequest_ok sending
            · exact merged.outcome serving idle unlisted in_use
            · exact primary.outcome serving unlisted in_use
  simp only [readOnlyAccess] at done
  split at done
  · simp only [bind_ok, throw_ok, false_and, exists_const] at done
  split at done
  · simp only [bind_ok, throw_ok, false_and, exists_const] at done
  split at done
  · simp only [bind_ok, throw_ok, false_and, exists_const] at done
  obtain ⟨⟨status, line⟩, probed, done⟩ := bind_ok.mp done
  cases status with
  | hit =>
      obtain ⟨⟨status, found, tags⟩, accessed, done⟩ := bind_ok.mp done
      cases done
      exact ⟨.done (.inl (status_of_hit probed accessed)) (.of_same ⟨rfl, rfl⟩ fun _ _ _ => rfl),
        serving.of_same ⟨rfl, rfl⟩ (Nat.le_refl _)⟩
  | reservationFail =>
      cases done
      exact refused
  | hitReserved => exact missed line done
  | miss => exact missed line done
  | sectorMiss => exact missed line done

/-- A fill gives a request its address back. -/
theorem fill_sameHeld (serving : Serving cache pool) (done : cache.fill cfg pool mf time = .ok (next, pool')) :
    SameHeld next pool' cache pool ∧ Serving next pool' := by
  obtain ⟨⟨extra, filled⟩, -⟩ := fill_ok serving.coherent done
  have lists := MshrTable.list_of_data filled.data
  have held : ∀ other, next.Held other ↔ cache.Held other := by
    intro other
    unfold Held
    rw [lists]
  refine ⟨⟨held, ?_⟩, serving.coherent.fill filled, ?_, by rw [lists]; exact serving.single⟩
  · intro other _
    by_cases same : other = mf
    · subst same
      rw [origin, origin, filled.extraMfFields, Function.update_self, filled.pending, filled.pool,
        MfPool.get_modify_self]
      rfl
    · rw [origin, origin, filled.extraMfFields, Function.update_of_ne same, filled.pool,
        MfPool.get_modify_of_ne _ _ same]
  · intro other member
    rw [filled.pool, MfPool.nextSerial_modify]
    exact serving.in_use other ((held other).mp member)

/-- The request that is answered was held, and has its address. -/
theorem nextAccess_held (serving : Serving cache pool) (left : cache.nextAccess = .ok (mf, next)) :
    cache.Held mf ∧ (pool.get mf).addr = cache.origin pool mf ∧
      (∀ other, next.Held other ↔ cache.Held other ∧ other ≠ mf) ∧
      (∀ other, next.origin pool other = cache.origin pool other) ∧ Serving next pool := by
  obtain ⟨coherent, -, -, ⟨b, _, waits, -⟩, -⟩ := nextAccess_ok serving.coherent left
  obtain ⟨listed, idle⟩ := mem_waiting.mp (waits ▸ List.mem_cons_self : mf ∈ cache.waiting b)
  obtain ⟨⟨first, mshrs⟩, popped, done⟩ := bind_ok.mp left
  cases done
  obtain ⟨front, rest, more, -, shape, lists, -⟩ := MshrTable.nextAccess_ok popped
  obtain rfl := serving.single mf b front listed (shape ▸ List.mem_cons_self)
  have distinct := serving.coherent.once b
  rw [shape, List.nodup_cons] at distinct
  have subset : ∀ c other, other ∈ mshrs.list c → other ∈ cache.mshrs.list c := by
    intro c other member
    rw [lists] at member
    by_cases here : c = b
    · subst here
      rw [Function.update_self] at member
      exact shape ▸ List.mem_cons_of_mem _ member
    · rwa [Function.update_of_ne here] at member
  have held : ∀ other, Held { cache with mshrs } other ↔ cache.Held other ∧ other ≠ mf := by
    intro other
    constructor
    · rintro ⟨c, member⟩
      refine ⟨⟨c, subset c other member⟩, ?_⟩
      rintro rfl
      obtain rfl := serving.single other c b (subset c other member) listed
      dsimp only at member
      rw [lists, Function.update_self] at member
      exact distinct.1 member
    · rintro ⟨⟨c, member⟩, apart⟩
      refine ⟨c, ?_⟩
      dsimp only
      rw [lists]
      by_cases here : c = b
      · subst here
        rw [Function.update_self]
        rw [shape] at member
        exact (List.mem_cons.mp member).resolve_left apart
      · rwa [Function.update_of_ne here]
  refine ⟨⟨b, listed⟩, ?_, held, fun _ => rfl, coherent, ?_, ?_⟩
  · rw [origin, idle]
  · exact fun other member => serving.in_use other ((held other).mp member).1
  · exact fun other c d here there => serving.single other c d (subset c other here) (subset d other there)

theorem cycle_sameHeld (serving : Serving cache pool) (memportFull : Bool) :
    SameHeld (cache.cycle memportFull) pool cache pool ∧ Serving (cache.cycle memportFull) pool := by
  have same := (Outstanding.cycle_same memportFull cache).1
  exact ⟨.of_same same fun _ _ _ => rfl, serving.of_same same (Nat.le_refl _)⟩

end DataCache

end GpgpuSim.Cache
