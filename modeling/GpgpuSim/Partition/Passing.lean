import GpgpuSim.Partition.Lifecycle

/-! The ways in which a step can change where requests are: one passes from a place
to the next, one leaves, one comes into being. The invariant holds after each. -/
namespace GpgpuSim.Partition.MemoryPartitionUnit
open GpgpuSim.Huffman GpgpuSim.Memory GpgpuSim.Cache Transition

variable {cfg : MemoryConfig} {plain : Prop} {trace shown : List Event} {st next : MemoryPartitionUnit}
  {place : MfId → Option Station} {mf : MfId} {s t : Station} {live : Finset MfId}

/-! ## Requests that are not touched -/

/-- A step keeps the objects and the records of all requests but the touched ones. -/
structure Spares (st next : MemoryPartitionUnit) (shown : List Event) (touched : MfId → Prop) : Prop where
  requests : ∀ other, ¬touched other → next.request other = st.request other
  extras : ∀ other, ¬touched other → next.extra other = st.extra other
  records : ∀ other, ¬touched other → record other shown = []
  advances : st.codebookUnit.Advances next.codebookUnit
  coherent : next.metadataCache.Coherent

theorem Life.congr {at_place : Option Station} {events : List Event} (well : st.codebookUnit.WellFormed)
    (advances : st.codebookUnit.Advances next.codebookUnit) (request : next.request mf = st.request mf)
    (extra : next.extra mf = st.extra mf) (life : Life cfg st mf at_place events) :
    Life cfg next mf at_place events := by
  cases life with
  | absent free => exact .absent (extra.trans free)
  | queued spid here owned fresh free =>
      rw [← request] at owned fresh
      exact .queued spid here owned fresh (extra.trans free)
  | carried s o started carries fits =>
      apply Life.carried s o started
      · rw [request]
        exact carries.mono well advances
      · rw [request, extra]
        exact fits.mono well advances
  | done o free started finished => exact .done o (extra.trans free) started finished

/-- Nothing moves. -/
theorem Tracked.still (tracked : Tracked cfg trace st place) (held : ∀ s, (next.held s).Perm (st.held s))
    (nextSerial : next.pool.nextSerial = st.pool.nextSerial)
    (spares : Spares st next shown fun _ => False) : Tracked cfg (trace ++ shown) next place := by
  have records : ∀ other, record other (trace ++ shown) = record other trace := by
    intro other
    rw [record_append, spares.records other id, List.append_nil]
  constructor
  · exact tracked.custody.congr held
  · exact spares.coherent
  · exact spares.advances.wellFormed tracked.wellFormed
  · intro n later
    rw [records]
    exact tracked.unborn n (nextSerial ▸ later)
  · exact tracked.originals
  · intro other
    rw [records]
    exact (tracked.life other).congr tracked.wellFormed spares.advances (spares.requests other id)
      (spares.extras other id)

/-- One request moves, or leaves. -/
theorem Tracked.change {target : Option Station} (tracked : Tracked cfg trace st place)
    (here : place mf = some s) (custody : Custody next.held (Function.update place mf target))
    (nextSerial : next.pool.nextSerial = st.pool.nextSerial) (spares : Spares st next shown (· = mf))
    (life : Life cfg next mf target (record mf trace ++ record mf shown)) :
    Tracked cfg (trace ++ shown) next (Function.update place mf target) := by
  have elsewhere : ∀ other, place other = none → other ≠ mf := by
    rintro other absent rfl
    rw [here] at absent
    contradiction
  constructor
  · exact custody
  · exact spares.coherent
  · exact spares.advances.wellFormed tracked.wellFormed
  · intro n later
    obtain ⟨absent, silent⟩ := tracked.unborn n (nextSerial ▸ later)
    have apart := elsewhere _ absent
    rw [Function.update_of_ne apart, record_append, silent, spares.records _ apart]
    exact ⟨absent, rfl⟩
  · intro n
    rw [Function.update_of_ne (elsewhere _ (tracked.originals n))]
    exact tracked.originals n
  · intro other
    by_cases same : other = mf
    · subst same
      rw [Function.update_self, record_append]
      exact life
    · rw [Function.update_of_ne same, record_append, spares.records other same, List.append_nil]
      exact (tracked.life other).congr tracked.wellFormed spares.advances
        (spares.requests other same) (spares.extras other same)

/-- A new request comes into being. -/
theorem Tracked.born (tracked : Tracked cfg trace st place)
    (custody : Custody next.held (Function.update place (.request st.pool.nextSerial) (some t)))
    (nextSerial : next.pool.nextSerial = st.pool.nextSerial + 1)
    (spares : Spares st next shown (· = .request st.pool.nextSerial))
    (life : Life cfg next (.request st.pool.nextSerial) (some t)
      (record (.request st.pool.nextSerial) shown)) :
    Tracked cfg (trace ++ shown) next
      (Function.update place (.request st.pool.nextSerial) (some t)) := by
  constructor
  · exact custody
  · exact spares.coherent
  · exact spares.advances.wellFormed tracked.wellFormed
  · intro n later
    rw [nextSerial] at later
    have apart : MfId.request n ≠ .request st.pool.nextSerial := by
      simp only [ne_eq, MfId.request.injEq]
      omega
    obtain ⟨absent, silent⟩ := tracked.unborn n (by omega)
    rw [Function.update_of_ne apart, record_append, silent, spares.records _ apart]
    exact ⟨absent, rfl⟩
  · intro n
    rw [Function.update_of_ne (by simp)]
    exact tracked.originals n
  · intro other
    by_cases same : other = .request st.pool.nextSerial
    · subst same
      rw [Function.update_self, record_append, (tracked.unborn _ le_rfl).2, List.nil_append]
      exact life
    · rw [Function.update_of_ne same, record_append, spares.records other same, List.append_nil]
      exact (tracked.life other).congr tracked.wellFormed spares.advances
        (spares.requests other same) (spares.extras other same)

/-! ## Credits -/

theorem Balanced.of_same {place' : MfId → Option Station} (balanced : Balanced cfg st place live)
    (plain : ∀ mf, (next.request mf).isAtomic = false) (owners : ∀ mf ∈ live, next.owner cfg mf = st.owner cfg mf)
    (arbitration : next.arbitration = st.arbitration) (clean : next.metadataCache.Clean)
    (inside : ∀ mf, (∃ s, place' mf = some s ∧ s.Inside) ↔ ∃ s, place mf = some s ∧ s.Inside) :
    Balanced cfg next place' live := by
  constructor
  · exact plain
  · exact clean
  · intro mf
    rw [balanced.mem_live, inside]
  · have counts : (fun p => (live.filter fun mf => next.owner cfg mf = p).card) =
        fun p => (live.filter fun mf => st.owner cfg mf = p).card := by
      funext p
      congr 1
      apply Finset.filter_congr
      intro mf member
      rw [owners mf member]
    rw [arbitration, counts]
    exact balanced.covers

/-- The places of the requests inside after one has come or gone. -/
theorem inside_update {target : Option Station} (mf other : MfId) :
    (∃ s, Function.update place mf target other = some s ∧ s.Inside) ↔
      if other = mf then ∃ s, target = some s ∧ s.Inside else ∃ s, place other = some s ∧ s.Inside := by
  by_cases same : other = mf
  · subst same
    simp
  · rw [Function.update_of_ne same, if_neg same]

theorem owner_eq (requests : next.request = st.request) (mf : MfId) :
    next.owner cfg mf = st.owner cfg mf := by
  simp only [owner, requests]

/-- A request that enters has borrowed a credit. -/
theorem Balanced.enter {spid : Nat} (balanced : Balanced cfg st place live)
    (outside : ∀ s, place mf = some s → ¬s.Inside) (inside : t.Inside) (bound : spid < cfg.nSubPartition)
    (own : st.owner cfg mf = spid) (requests : next.request = st.request) (clean : next.metadataCache.Clean)
    (borrowed : st.arbitration.borrowCredit cfg spid = .ok next.arbitration) :
    Balanced cfg next (Function.update place mf (some t)) (insert mf live) := by
  have fresh : mf ∉ live := by
    intro member
    obtain ⟨s, here, within⟩ := (balanced.mem_live mf).mp member
    exact outside s here within
  constructor
  · rw [requests]
    exact balanced.plain
  · exact clean
  · intro other
    rw [inside_update, Finset.mem_insert, balanced.mem_live]
    split
    · rename_i same
      simp [same, inside]
    · rename_i apart
      simp [apart]
  · have counts : (fun p => ((insert mf live).filter fun other => next.owner cfg other = p).card) =
        Function.update (fun p => (live.filter fun other => st.owner cfg other = p).card) spid
          ((live.filter fun other => st.owner cfg other = spid).card + 1) := by
      funext p
      simp only [owner_eq requests]
      rw [Finset.filter_insert]
      by_cases same : p = spid
      · subst same
        rw [if_pos own, Function.update_self, Finset.card_insert_of_notMem]
        exact fun member => fresh (Finset.mem_filter.mp member).1
      · rw [if_neg fun other => same (other.symm.trans own), Function.update_of_ne same]
    rw [counts]
    exact balanced.covers.borrow bound borrowed

/-- A request that leaves has given back its credit. -/
theorem Balanced.leave {spid : Nat} (balanced : Balanced cfg st place live) (here : place mf = some s)
    (inside : s.Inside) (bound : spid < cfg.nSubPartition) (own : st.owner cfg mf = spid)
    (requests : next.request = st.request) (clean : next.metadataCache.Clean)
    (returned : st.arbitration.returnCredit spid = .ok next.arbitration) :
    Balanced cfg next (Function.update place mf none) (live.erase mf) := by
  have member : mf ∈ live := (balanced.mem_live mf).mpr ⟨s, here, inside⟩
  constructor
  · rw [requests]
    exact balanced.plain
  · exact clean
  · intro other
    rw [inside_update, Finset.mem_erase, balanced.mem_live]
    split
    · rename_i same
      simp [same]
    · rename_i apart
      simp [apart]
  · have owed := balanced.owed here inside
    rw [own] at owed
    obtain ⟨after, gave, covers⟩ := balanced.covers.giveBack bound owed
    rw [returned] at gave
    cases gave
    have counts : (fun p => ((live.erase mf).filter fun other => next.owner cfg other = p).card) =
        Function.update (fun p => (live.filter fun other => st.owner cfg other = p).card) spid
          ((live.filter fun other => st.owner cfg other = spid).card - 1) := by
      funext p
      simp only [owner_eq requests]
      rw [Finset.filter_erase]
      by_cases same : p = spid
      · subst same
        rw [Function.update_self, Finset.card_erase_of_mem]
        exact Finset.mem_filter.mpr ⟨member, own⟩
      · rw [Finset.erase_eq_of_notMem, Function.update_of_ne same]
        exact fun other => same ((Finset.mem_filter.mp other).2.symm.trans own)
    rw [counts]
    exact covers

/-! ## Passing on -/

/-- The lists of two stations after a request has gone from one to the other. -/
structure Moved (st next : MemoryPartitionUnit) (mf : MfId) (s t : Station) : Prop where
  apart : s ≠ t
  held : ∃ rest, (st.held s).Perm (mf :: rest) ∧ ∀ u, (next.held u).Perm
    (Function.update (Function.update st.held s rest) t (mf :: st.held t) u)

theorem Moved.custody (moved : Moved st next mf s t) (custody : Custody st.held place) :
    Custody next.held (Function.update place mf (some t)) := by
  obtain ⟨apart, rest, left, after⟩ := moved
  exact custody.hands apart left after

theorem Moved.here (moved : Moved st next mf s t) (custody : Custody st.held place) :
    place mf = some s := by
  obtain ⟨-, rest, left, -⟩ := moved
  exact custody.place_of_mem (left.mem_iff.mpr List.mem_cons_self)

/-- From one list to the back of another. -/
theorem Moved.of_append {rest : List MfId} (apart : s ≠ t) (left : (st.held s).Perm (mf :: rest))
    (after : next.held = Function.update (Function.update st.held s rest) t (st.held t ++ [mf])) :
    Moved st next mf s t := by
  refine ⟨apart, rest, left, fun u => ?_⟩
  rw [after]
  by_cases same : u = t
  · subst same
    simp
  · rw [Function.update_of_ne same, Function.update_of_ne same]

/-- A request passes from `s` to `t`, and with it at most its own object changes. -/
structure Passed (st next : MemoryPartitionUnit) (shown : List Event) (mf : MfId) (s t : Station) :
    Prop where
  moved : Moved st next mf s t
  spares : Spares st next shown (· = mf)
  silent : record mf shown = []
  nextSerial : next.pool.nextSerial = st.pool.nextSerial
  arbitration : next.arbitration = st.arbitration
  clean : (∀ other, (st.request other).isAtomic = false) → st.metadataCache.Clean →
    next.metadataCache.Clean

/-- The invariant of a request that is passed on. -/
theorem Accounted.pass (tracked : Tracked cfg trace st place)
    (balances : plain → ∃ live, Balanced cfg st place live) (passed : Passed st next shown mf s t)
    (inside : s.Inside) {request : MemFetch} {extra : Option ExtraMfFields}
    (changed : next.request mf = request) (recorded : next.extra mf = extra)
    (carried : ∀ o, Carries st.codebookUnit o (st.request mf) →
      Fits st.codebookUnit (st.request mf) (st.extra mf) s →
      Carries next.codebookUnit o request ∧ Fits next.codebookUnit request extra t) :
    Accounted cfg plain (trace ++ shown) next := by
  subst changed recorded
  have here := passed.moved.here tracked.custody
  obtain ⟨o, start, recorded, started, carries, fits⟩ := tracked.carried here inside
  obtain ⟨carries', fits'⟩ := carried o carries fits
  have same : ∀ other, (next.request other).SameRequest (st.request other) := by
    intro other
    by_cases this : other = mf
    · subst this
      exact carries'.same.trans carries.same.symm
    · rw [passed.spares.requests other this]
      exact .refl _
  refine ⟨Function.update place mf (some t), ?_, fun without => ?_⟩
  · apply tracked.change here (passed.moved.custody tracked.custody) passed.nextSerial passed.spares
    rw [passed.silent, List.append_nil, recorded]
    exact .carried t o started carries' fits'
  · obtain ⟨live, balanced⟩ := balances without
    refine ⟨live, balanced.of_same ?_ ?_ passed.arbitration (passed.clean balanced.plain balanced.clean) ?_⟩
    · intro other
      rw [(same other).isAtomic]
      exact balanced.plain other
    · intro other _
      unfold owner
      rw [(same other).subPartitionId]
    · intro other
      rw [inside_update]
      split
      · rename_i this
        subst this
        simp [here, inside, fits'.inside]
      · rfl

/-- Nothing but the lists, the object of the request and the codebook changes. -/
theorem Passed.of_lists (tracked : Tracked cfg trace st place) (moved : Moved st next mf s t)
    (requests : ∀ other, other ≠ mf → next.request other = st.request other)
    (nextSerial : next.pool.nextSerial = st.pool.nextSerial) (cache : next.metadataCache = st.metadataCache)
    (advances : st.codebookUnit.Advances next.codebookUnit)
    (arbitration : next.arbitration = st.arbitration) (silent : ∀ e ∈ shown, e.subject = none) :
    Passed st next shown mf s t where
  moved := moved
  spares :=
    { requests
      extras := fun other _ => by simp only [extra, cache]
      records := fun other _ => record_silent silent
      advances
      coherent := by rw [cache]; exact tracked.coherent }
  silent := record_silent silent
  nextSerial := nextSerial
  arbitration := arbitration
  clean _ clean := by rwa [cache]

/-- A request is passed on as it is. -/
theorem Accounted.forward (tracked : Tracked cfg trace st place)
    (balances : plain → ∃ live, Balanced cfg st place live) (moved : Moved st next mf s t)
    (inside : s.Inside) (pool : next.pool = st.pool) (cache : next.metadataCache = st.metadataCache)
    (unit : next.codebookUnit = st.codebookUnit) (arbitration : next.arbitration = st.arbitration)
    (silent : ∀ e ∈ shown, e.subject = none) (fits : ∀ o, Carries st.codebookUnit o (st.request mf) →
      Fits st.codebookUnit (st.request mf) (st.extra mf) s →
      Fits st.codebookUnit (st.request mf) (st.extra mf) t) :
    Accounted cfg plain (trace ++ shown) next := by
  have request : ∀ other, next.request other = st.request other := by
    intro other
    simp only [request, pool]
  have passed : Passed st next shown mf s t := by
    apply Passed.of_lists tracked moved (fun other _ => request other) (by rw [pool]) cache _ arbitration
      silent
    rw [unit]
    exact .refl _
  have recorded : next.extra mf = st.extra mf := by simp only [extra, cache]
  apply Accounted.pass tracked balances passed inside (request mf) recorded
  intro o carries before
  rw [unit]
  exact ⟨carries, fits o carries before⟩

/-- Nothing moves, and only queues that hold no requests, ports and the codebook change. -/
theorem Accounted.still (accounted : Accounted cfg plain trace st) (held : next.held = st.held)
    (pool : next.pool = st.pool) (same : DataCache.SameRequests next.metadataCache st.metadataCache)
    (clean : st.metadataCache.Clean → next.metadataCache.Clean)
    (advances : st.codebookUnit.Advances next.codebookUnit)
    (arbitration : next.arbitration = st.arbitration) (silent : ∀ e ∈ shown, e.subject = none) :
    Accounted cfg plain (trace ++ shown) next := by
  obtain ⟨place, tracked, balances⟩ := accounted
  have request : ∀ other, next.request other = st.request other := by
    intro other
    simp only [request, pool]
  refine ⟨place, ?_, fun without => ?_⟩
  · apply tracked.still (fun s => .of_eq (by rw [held])) (by rw [pool])
    constructor
    · exact fun other _ => request other
    · intro other _
      simp only [extra, same.extraMfFields]
    · exact fun other _ => record_silent silent
    · exact advances
    · exact tracked.coherent.of_same same.mshrs same.extraMfFields
  · obtain ⟨live, balanced⟩ := balances without
    refine ⟨live, balanced.of_same ?_ ?_ arbitration (clean balanced.clean) fun _ => .rfl⟩
    · intro other
      rw [request]
      exact balanced.plain other
    · intro other _
      simp only [owner, request]

/-- A stage that does nothing. -/
theorem Accounted.idle (accounted : Accounted cfg plain trace st) : Accounted cfg plain (trace ++ []) st := by
  rwa [List.append_nil]

/-- A request leaves the partition and its credit is returned. -/
theorem Accounted.finish {spid : Nat} {rest : List MfId} (tracked : Tracked cfg trace st place)
    (balances : plain → ∃ live, Balanced cfg st place live) (inside : s.Inside)
    (left : (st.held s).Perm (mf :: rest)) (after : next.held = Function.update st.held s rest)
    (pool : next.pool = st.pool) (cache : next.metadataCache = st.metadataCache)
    (unit : next.codebookUnit = st.codebookUnit) (own : localId cfg (st.request mf).subPartitionId = .ok spid)
    (returned : st.arbitration.returnCredit spid = .ok next.arbitration) (about : ∀ e ∈ shown, e.subject = some mf)
    (finished : ∀ o, Carries st.codebookUnit o (st.request mf) →
      Fits st.codebookUnit (st.request mf) (st.extra mf) s →
      st.extra mf = none ∧ Finished cfg mf o shown) : Accounted cfg plain (trace ++ shown) next := by
  have here := tracked.custody.place_of_mem (left.mem_iff.mpr List.mem_cons_self)
  obtain ⟨o, start, recorded, started, carries, fits⟩ := tracked.carried here inside
  obtain ⟨free, ends⟩ := finished o carries fits
  have request : next.request = st.request := by
    funext other
    simp only [MemoryPartitionUnit.request, pool]
  have extra_eq : ∀ other, next.extra other = st.extra other := by
    intro other
    simp only [extra, cache]
  refine ⟨Function.update place mf none, ?_, fun without => ?_⟩
  · apply tracked.change here (tracked.custody.leaves left fun u => .of_eq (by rw [after])) (by rw [pool])
    · constructor
      · intro other _
        rw [request]
      · exact fun other _ => extra_eq other
      · exact fun other apart => record_other about apart
      · rw [unit]
        exact .refl _
      · rw [cache]
        exact tracked.coherent
    · rw [record_own about, recorded]
      exact .done o ((extra_eq mf).trans free) started ends
  · obtain ⟨live, balanced⟩ := balances without
    obtain ⟨spid', own', same, bound⟩ := tracked.own here inside
    rw [own] at own'
    cases own'
    refine ⟨_, balanced.leave here inside bound same request ?_ returned⟩
    rw [cache]
    exact balanced.clean

end GpgpuSim.Partition.MemoryPartitionUnit
