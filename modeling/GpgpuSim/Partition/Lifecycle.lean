import GpgpuSim.Partition.Frames

/-! The life of a request in a partition: where it is, what its object holds there,
and what has been seen of it. -/
namespace GpgpuSim.Partition
open GpgpuSim.Huffman GpgpuSim.Memory GpgpuSim.Cache Transition

/-! ## The record of a request -/

/-- The request whose way through the partition an event is a step of. -/
def Event.subject : Event → Option MfId
  | .called _ | .rebuildStarted _ | .dramPush _ _ => none
  | .creditBorrowed _ mf | .creditReturned _ mf | .issued _ mf _ | .delivered _ mf _ => some mf
  | .retired mf | .allocated mf | .dropped mf => some mf

/-- What a trace says about one request. -/
def record (mf : MfId) (trace : List Event) : List Event :=
  trace.filter fun e => decide (e.subject = some mf)

@[simp] theorem record_append (mf : MfId) (trace shown : List Event) :
    record mf (trace ++ shown) = record mf trace ++ record mf shown :=
  List.filter_append ..

theorem mem_record {mf : MfId} {trace : List Event} {e : Event} (about : e.subject = some mf) :
    e ∈ record mf trace ↔ e ∈ trace := by
  simp [record, about]

/-- Events about nobody are in no record. -/
theorem record_silent {mf : MfId} {shown : List Event} (silent : ∀ e ∈ shown, e.subject = none) :
    record mf shown = [] := by
  apply List.filter_eq_nil_iff.mpr
  intro e member
  simp [silent e member]

theorem record_own {mf : MfId} {shown : List Event} (own : ∀ e ∈ shown, e.subject = some mf) :
    record mf shown = shown := by
  apply List.filter_eq_self.mpr
  intro e member
  simp [own e member]

theorem record_other {mf other : MfId} {shown : List Event} (own : ∀ e ∈ shown, e.subject = some mf)
    (apart : other ≠ mf) : record other shown = [] := by
  apply List.filter_eq_nil_iff.mpr
  intro e member
  simp [own e member, apart.symm]

/-! ## The object of a request -/

/-- What the object still knows of the request `o` that was issued: all of it, or
after the translation what the way back needs. -/
structure Carries (unit : CodebookUnit) (o request : MemFetch) : Prop where
  same : request.SameRequest o
  untranslated : request.compressed = false → request.isMetaDataRequest = false ∧
    request.addr = o.addr ∧ request.dataSize = o.dataSize
  translated : request.compressed = true → o.isLineRead = true ∧ request.originalAddr = o.addr ∧
    request.originalSize = o.dataSize ∧ unit.Sampled
  resized : request.compressed = true → request.isMetaDataRequest = false →
    request.addr = o.addr ∧ unit.huffmanEnabled = true

theorem Carries.start (unit : CodebookUnit) {o : MemFetch} (fresh : o.Fresh) : Carries unit o o where
  same := .refl o
  untranslated _ := ⟨fresh.2, rfl, rfl⟩
  translated yes := by simp [fresh.1] at yes
  resized yes := by simp [fresh.1] at yes

/-- A read that asks for metadata has been translated. -/
theorem Carries.compressed_of_metadata {unit : CodebookUnit} {o request : MemFetch}
    (carries : Carries unit o request) (metadata : request.isMetaDataRequest = true) :
    request.compressed = true := by
  cases compressed : request.compressed with
  | true => rfl
  | false =>
      rw [(carries.untranslated compressed).1] at metadata
      contradiction

/-- A request on its way out, for its data or for the metadata of its line. -/
def Outbound (request : MemFetch) (extra : Option ExtraMfFields) : Prop :=
  (request.isMetaDataRequest = true ↔ extra.isSome = true) ∧
    (request.compressed = true → request.isMetaDataRequest = false → request.dataSize ≤ memoryRequestSize)

/-- A request whose data is fetched or has been. -/
def ForData (request : MemFetch) (extra : Option ExtraMfFields) : Prop :=
  request.isMetaDataRequest = false ∧ extra = none

/-- A read that asks for metadata inside the partition. -/
def ForMetaData (request : MemFetch) (extra : Option ExtraMfFields) : Prop :=
  request.isMetaDataRequest = true ∧ extra = none ∧ request.isLineRead = true

/-- What a station asks of the object of a request that it holds, and of the
record that the metadata cache has of it. -/
def Fits (unit : CodebookUnit) (request : MemFetch) (extra : Option ExtraMfFields) : Station → Prop
  | .l2Dram _ => False
  | .classified => request.Fresh ∧ extra = none
  | .fifo .l2ToMetadataTranslater =>
      request.Fresh ∧ extra = none ∧ request.isLineRead = true ∧ unit.Sampled
  | .fifo .l2ToCompressor | .latency .compressor =>
      request.Fresh ∧ extra = none ∧ request.accessType = .l2WrbkAcc
  | .fifo .toMetadataCache | .fifo .fromMetadataCache | .waiting _ => ForMetaData request extra
  | .missQueue | .fifo .huffmanToDram | .latency .dram => Outbound request extra
  | .fifo .dramToMetadataCache => request.isMetaDataRequest = true ∧ extra.isSome = true
  | .dramPending => ForData request extra
  | .dramReturn => ForData request extra ∧ request.isWriteBack = false
  | .latency .decompressor => ForData request extra ∧ request.isLineRead = true
  | .fifo .decompressorToL2 => ForData request extra ∧ request.isWriteBack = false ∧
      (request.compressed = true → request.dataSize = request.originalSize)

section Monotone

variable {unit unit' : CodebookUnit} {o request : MemFetch} {extra : Option ExtraMfFields} {s : Station}

theorem Fits.inside (fits : Fits unit request extra s) : s.Inside := by
  cases s with
  | l2Dram spid => exact fits
  | _ => trivial

theorem Carries.mono (well : unit.WellFormed) (advances : unit.Advances unit')
    (carries : Carries unit o request) : Carries unit' o request where
  same := carries.same
  untranslated := carries.untranslated
  translated yes := by
    obtain ⟨read, addr, size, sampled⟩ := carries.translated yes
    exact ⟨read, addr, size, advances.sampled well sampled⟩
  resized yes data := by
    obtain ⟨addr, enabled⟩ := carries.resized yes data
    exact ⟨addr, advances.enabled enabled⟩

theorem Fits.mono (well : unit.WellFormed) (advances : unit.Advances unit') (fits : Fits unit request extra s) :
    Fits unit' request extra s := by
  cases s with
  | fifo name =>
      cases name with
      | l2ToMetadataTranslater =>
          exact ⟨fits.1, fits.2.1, fits.2.2.1, advances.sampled well fits.2.2.2⟩
      | _ => exact fits
  | latency name => cases name <;> exact fits
  | _ => exact fits

end Monotone

/-! ## The life of a request -/

/-- How the record of a request begins: it is issued for a credit, or made by the
metadata cache to write a line back. -/
inductive Started (cfg : MemoryConfig) (mf : MfId) (o : MemFetch) : List Event → Prop
  | issued (spid : Nat) (own : MemoryPartitionUnit.localId cfg o.subPartitionId = .ok spid) :
      Started cfg mf o [.creditBorrowed spid mf, .issued spid mf o]
  | allocated (spid : Nat) (own : MemoryPartitionUnit.localId cfg o.subPartitionId = .ok spid)
      (back : o.accessType = .l2WrbkAcc) : Started cfg mf o [.allocated mf]

/-- How it ends: it is delivered as it was issued, or retired, and gives back a credit. -/
inductive Finished (cfg : MemoryConfig) (mf : MfId) (o : MemFetch) : List Event → Prop
  | delivered (spid : Nat) (r : MemFetch) (own : MemoryPartitionUnit.localId cfg o.subPartitionId = .ok spid)
      (data : r.isMetaDataRequest = false) (addr : r.addr = o.addr) (dataSize : r.dataSize = o.dataSize)
      (kept : o.isWriteBack = false) : Finished cfg mf o [.delivered spid mf r, .creditReturned spid mf]
  | retired (spid : Nat) (own : MemoryPartitionUnit.localId cfg o.subPartitionId = .ok spid)
      (back : o.isWriteBack = true) : Finished cfg mf o [.retired mf, .creditReturned spid mf]

namespace MemoryPartitionUnit

/-- The record that the metadata cache has of a pending request. -/
def extra (st : MemoryPartitionUnit) (mf : MfId) : Option ExtraMfFields := st.metadataCache.extraMfFields mf

/-- The place of a request and its record belong together. -/
inductive Life (cfg : MemoryConfig) (st : MemoryPartitionUnit) (mf : MfId) :
    Option Station → List Event → Prop
  | absent (free : st.extra mf = none) : Life cfg st mf none []
  | queued (spid : Nat) (here : spid < cfg.nSubPartition)
      (owned : (st.request mf).subPartitionId = cfg.id * cfg.nSubPartition + spid)
      (fresh : (st.request mf).Fresh) (free : st.extra mf = none) :
      Life cfg st mf (some (.l2Dram spid)) []
  | carried (s : Station) (o : MemFetch) {start : List Event} (started : Started cfg mf o start)
      (carries : Carries st.codebookUnit o (st.request mf))
      (fits : Fits st.codebookUnit (st.request mf) (st.extra mf) s) : Life cfg st mf (some s) start
  | done (o : MemFetch) {start finish : List Event} (free : st.extra mf = none)
      (started : Started cfg mf o start) (finished : Finished cfg mf o finish) :
      Life cfg st mf none (start ++ finish)

/-- Every request is at the one place its record leads to. -/
structure Tracked (cfg : MemoryConfig) (trace : List Event) (st : MemoryPartitionUnit)
    (place : MfId → Option Station) : Prop where
  custody : Custody st.held place
  coherent : st.metadataCache.Coherent
  wellFormed : st.codebookUnit.WellFormed
  unborn : ∀ n, st.pool.nextSerial ≤ n → place (.request n) = none ∧ record (.request n) trace = []
  originals : ∀ n, place (.original n) = none
  life : ∀ mf, Life cfg st mf (place mf) (record mf trace)

/-- The local number of the sub partition that a request belongs to. -/
def owner (cfg : MemoryConfig) (st : MemoryPartitionUnit) (mf : MfId) : Nat :=
  (st.request mf).subPartitionId - cfg.id * cfg.nSubPartition

/-- Without atomic operations the credits pay for exactly the requests inside. -/
structure Balanced (cfg : MemoryConfig) (st : MemoryPartitionUnit) (place : MfId → Option Station)
    (live : Finset MfId) : Prop where
  plain : ∀ mf, (st.request mf).isAtomic = false
  clean : st.metadataCache.Clean
  mem_live : ∀ mf, mf ∈ live ↔ ∃ s, place mf = some s ∧ s.Inside
  covers : st.arbitration.Covers cfg fun p => (live.filter fun mf => st.owner cfg mf = p).card

/-- The invariant of a partition; `plain` stands for the absence of atomic operations. -/
def Accounted (cfg : MemoryConfig) (plain : Prop) (trace : List Event) (st : MemoryPartitionUnit) : Prop :=
  ∃ place, Tracked cfg trace st place ∧ (plain → ∃ live, Balanced cfg st place live)

variable {cfg : MemoryConfig} {plain : Prop} {trace : List Event} {st : MemoryPartitionUnit}
  {place : MfId → Option Station} {mf : MfId} {s : Station}

theorem Accounted.create (cfg : MemoryConfig) (plain : Prop) : Accounted cfg plain [] (create cfg) := by
  refine ⟨fun _ => none, ?_, fun _ => ⟨∅, ?_⟩⟩
  · constructor
    · constructor
      · intro s
        cases s <;> exact List.nodup_nil
      · intro s mf
        cases s <;> simp [held, MemoryPartitionUnit.create, DataCache.waiting, DataCache.create,
          MshrTable.list, MshrTable.entry, MshrTable.empty]
    · exact DataCache.Coherent.create _
    · exact CodebookUnit.WellFormed.create
    · exact fun _ _ => ⟨rfl, rfl⟩
    · exact fun _ => rfl
    · exact fun _ => .absent rfl
  · constructor
    · exact fun _ => rfl
    · exact DataCache.Clean.create _
    · simp
    · exact ArbitrationMetadata.Covers.create cfg

/-- What is inside has started and carries its request. -/
theorem Tracked.carried (tracked : Tracked cfg trace st place) (here : place mf = some s) (inside : s.Inside) :
    ∃ o start, record mf trace = start ∧ Started cfg mf o start ∧
      Carries st.codebookUnit o (st.request mf) ∧
      Fits st.codebookUnit (st.request mf) (st.extra mf) s := by
  have life := tracked.life mf
  generalize recorded : record mf trace = events at life
  rw [here] at life
  cases life with
  | queued => exact inside.elim
  | carried _ o started carries fits => exact ⟨o, events, rfl, started, carries, fits⟩

theorem Started.own {o : MemFetch} {start : List Event} (started : Started cfg mf o start) :
    ∃ spid, localId cfg o.subPartitionId = .ok spid := by
  cases started with
  | issued spid own => exact ⟨spid, own⟩
  | allocated spid own => exact ⟨spid, own⟩

/-- A request inside belongs to a sub partition of this partition. -/
theorem Tracked.own (tracked : Tracked cfg trace st place) (here : place mf = some s) (inside : s.Inside) :
    ∃ spid, localId cfg (st.request mf).subPartitionId = .ok spid ∧ st.owner cfg mf = spid ∧
      spid < cfg.nSubPartition := by
  obtain ⟨o, start, -, started, carries, -⟩ := tracked.carried here inside
  obtain ⟨spid, own⟩ := Started.own started
  rw [← carries.same.subPartitionId] at own
  obtain ⟨bound, shape⟩ := localId_ok own
  refine ⟨spid, own, ?_, bound⟩
  unfold owner
  omega

/-! ## No full queue and no missing credit -/

section Bounds

variable {live : Finset MfId}

/-- The credits bound the number of requests inside. -/
theorem Balanced.card_le (balanced : Balanced cfg st place live) (tracked : Tracked cfg trace st place)
    (limited : 0 < cfg.sharedCreditLimit) : (live.card : Int) ≤ cfg.nSubPartition + cfg.sharedCreditLimit := by
  have owners : ∀ mf ∈ live, st.owner cfg mf ∈ Finset.range cfg.nSubPartition := by
    intro mf member
    obtain ⟨s, here, inside⟩ := (balanced.mem_live mf).mp member
    obtain ⟨spid, -, same, bound⟩ := tracked.own here inside
    rw [same]
    exact Finset.mem_range.mpr bound
  have total := balanced.covers.total_le limited
  rw [Finset.card_eq_sum_card_fiberwise owners]
  push_cast
  exact total

/-- A request elsewhere leaves room in a queue. -/
theorem Balanced.room (balanced : Balanced cfg st place live) (tracked : Tracked cfg trace st place)
    (limited : 0 < cfg.sharedCreditLimit)
    (total : cfg.nSubPartition + cfg.sharedCreditLimit ≤ (fifoCapacity : Int)) {name : FifoName}
    (here : mf ∈ st.held s) (inside : s.Inside) (apart : s ≠ .fifo name) :
    (st.fifo name).length < fifoCapacity := by
  have at_s := tracked.custody.place_of_mem here
  have queued : ∀ other ∈ st.fifo name, place other = some (.fifo name) :=
    fun other member => tracked.custody.place_of_mem (s := .fifo name) member
  have outside : mf ∉ st.fifo name := by
    intro member
    rw [queued mf member] at at_s
    exact apart (Option.some.inj at_s).symm
  have subset : (st.fifo name).toFinset ⊆ live := by
    intro other member
    exact (balanced.mem_live other).mpr ⟨_, queued other (List.mem_toFinset.mp member), trivial⟩
  have proper : (st.fifo name).toFinset ⊂ live := by
    refine ⟨subset, fun reverse => outside ?_⟩
    exact List.mem_toFinset.mp (reverse ((balanced.mem_live mf).mpr ⟨s, at_s, inside⟩))
  have distinct : (st.fifo name).Nodup := tracked.custody.nodup (.fifo name)
  have fewer := Finset.card_lt_card proper
  rw [List.toFinset_card_of_nodup distinct] at fewer
  have bound := balanced.card_le tracked limited
  omega

/-- A request inside has a credit to give back. -/
theorem Balanced.owed (balanced : Balanced cfg st place live) (here : place mf = some s) (inside : s.Inside) :
    0 < (live.filter fun other => st.owner cfg other = st.owner cfg mf).card := by
  apply Finset.card_pos.mpr
  exact ⟨mf, Finset.mem_filter.mpr ⟨(balanced.mem_live mf).mpr ⟨s, here, inside⟩, rfl⟩⟩

/-- What a stage never stops with: in `guarded` calls there are statistics to
update, and without atomic operations queues have room and credits are there. -/
structure Blameless (cfg : MemoryConfig) (plain guarded : Prop) (fault : Fault) : Prop where
  statistics : guarded → fault ≠ .emptyIntervalStats
  credit : plain → fault ≠ .creditUnderflow
  room : plain → 0 < cfg.sharedCreditLimit →
    cfg.nSubPartition + cfg.sharedCreditLimit ≤ (fifoCapacity : Int) → ∀ name, fault ≠ .fifoFull name

theorem returnCredit_fault {arbitration : ArbitrationMetadata} {spid : Nat} {fault : Fault}
    (refused : arbitration.returnCredit spid = .error fault) : fault = .creditUnderflow := by
  simp only [ArbitrationMetadata.returnCredit] at refused
  split_ifs at refused <;> cases refused <;> rfl

theorem Accounted.blameless {fault : Fault} (accounted : Accounted cfg plain trace st)
    (stopped : Stopped cfg st fault) (guarded : Prop) : Blameless cfg plain guarded fault := by
  obtain ⟨place, tracked, balances⟩ := accounted
  cases stopped with
  | overflow name mf s full elsewhere inside apart =>
      refine ⟨by simp, by simp, fun without limited total => ?_⟩
      obtain ⟨live, balanced⟩ := balances without
      have room := balanced.room tracked limited total elsewhere inside apart
      omega
  | credit mf s spid fault here inside own refused =>
      obtain rfl := returnCredit_fault refused
      refine ⟨by simp, fun without => ?_, by simp⟩
      obtain ⟨live, balanced⟩ := balances without
      have at_s := tracked.custody.place_of_mem here
      obtain ⟨spid', own', same, bound⟩ := tracked.own at_s inside
      rw [own] at own'
      cases own'
      have owed := balanced.owed at_s inside
      rw [same] at owed
      obtain ⟨next, returned, -⟩ := balanced.covers.giveBack bound owed
      rw [refused] at returned
      contradiction
  | assertion => exact ⟨by simp, by simp, by simp⟩
  | cache fault => exact ⟨by simp, by simp, by simp⟩
  | length fault => exact ⟨by simp, by simp, by simp⟩

end Bounds

end MemoryPartitionUnit

end GpgpuSim.Partition
