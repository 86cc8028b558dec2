import GpgpuSim.Partition.Schedules

/-! No request is lost. A request that was issued is at one place of the partition
until it is delivered or retired, and then its credit goes back. The list of a
miss-status register is a second place for the miss that opened it, which is on its
way to the DRAM at the same time. -/
namespace GpgpuSim.Partition.MemoryPartitionUnit
open GpgpuSim.Huffman GpgpuSim.Memory GpgpuSim.Cache Transition

variable {cfg : MemoryConfig} {trace : List Event} {st : MemoryPartitionUnit}

/-- An issued request on its way: at one station, its credit borrowed. -/
structure InFlight (trace : List Event) (st : MemoryPartitionUnit) (spid : Nat) (mf : MfId) (o : MemFetch) :
    Prop where
  place : ∃ s, s.Inside ∧ mf ∈ st.held s ∧ ∀ t, mf ∈ st.held t → t = s
  record : record mf trace = [.creditBorrowed spid mf, .issued spid mf o]

/-- An issued request that has left: delivered or retired once, its credit returned once. -/
structure HasLeft (trace : List Event) (st : MemoryPartitionUnit) (spid : Nat) (mf : MfId) (o : MemFetch) :
    Prop where
  gone : ∀ s, mf ∉ st.held s
  record : (∃ r, record mf trace =
      [.creditBorrowed spid mf, .issued spid mf o, .delivered spid mf r, .creditReturned spid mf]) ∨
    record mf trace = [.creditBorrowed spid mf, .issued spid mf o, .retired mf, .creditReturned spid mf]

theorem Started.of_issued {mf : MfId} {o o' : MemFetch} {start more : List Event} {spid : Nat}
    (started : Started cfg mf o start) (silent : ∀ spid' o', .issued spid' mf o' ∉ more)
    (seen : .issued spid mf o' ∈ start ++ more) :
    o' = o ∧ start = [.creditBorrowed spid mf, .issued spid mf o] ∧
      localId cfg o.subPartitionId = .ok spid := by
  have first : .issued spid mf o' ∈ start := (List.mem_append.mp seen).resolve_right (silent spid o')
  cases started with
  | issued spid' own =>
      simp only [List.mem_cons, reduceCtorEq, false_or, Event.issued.injEq, true_and, List.not_mem_nil,
        or_false] at first
      obtain ⟨rfl, rfl⟩ := first
      exact ⟨rfl, rfl, own⟩
  | allocated spid' own back => simp at first

theorem Tracked.inFlight_or_left {place : MfId → Option Station} {spid : Nat} {mf : MfId} {o : MemFetch}
    (tracked : Tracked cfg trace st place) (issued : .issued spid mf o ∈ trace) :
    InFlight trace st spid mf o ∨ HasLeft trace st spid mf o := by
  have life := tracked.life mf
  have seen : .issued spid mf o ∈ record mf trace := (mem_record rfl).mpr issued
  generalize here : place mf = at_mf at life
  generalize recorded : record mf trace = events at life seen
  cases life with
  | absent => contradiction
  | queued => contradiction
  | carried s o' started carries fits =>
      obtain ⟨rfl, rfl, -⟩ := Started.of_issued started (fun _ _ => List.not_mem_nil) (by simpa using seen)
      refine .inl ⟨⟨s, fits.inside, (tracked.custody.mem_iff s mf).mpr here, fun t there => ?_⟩, recorded⟩
      have at_t := tracked.custody.place_of_mem there
      rw [here] at at_t
      exact (Option.some.inj at_t).symm
  | done o' free started finished =>
      have gone : ∀ s, mf ∉ st.held s := by
        intro s inside
        rw [tracked.custody.place_of_mem inside] at here
        contradiction
      cases finished with
      | delivered spid' r own data addr dataSize kept =>
          obtain ⟨rfl, rfl, own'⟩ := Started.of_issued started (by simp) seen
          rw [own] at own'
          cases own'
          exact .inr ⟨gone, .inl ⟨r, recorded⟩⟩
      | retired spid' own back =>
          obtain ⟨rfl, rfl, own'⟩ := Started.of_issued started (by simp) seen
          rw [own] at own'
          cases own'
          exact .inr ⟨gone, .inr recorded⟩

/-- A metadata return or answer is never dropped. -/
theorem Tracked.not_dropped {place : MfId → Option Station} (tracked : Tracked cfg trace st place)
    (mf : MfId) : .dropped mf ∉ trace := by
  intro seen
  have life := tracked.life mf
  have listed : .dropped mf ∈ record mf trace := (mem_record rfl).mpr seen
  generalize place mf = at_mf at life
  generalize record mf trace = events at life listed
  cases life with
  | absent => contradiction
  | queued => contradiction
  | carried s o started => cases started <;> simp at listed
  | done o free started finished => cases started <;> cases finished <;> simp at listed

/-- Every station holds a request once, and an issued request is at one of them or has
left. Without atomic operations credits and queues suffice in every call. -/
theorem requests_conserved (run : Run cfg trace st) :
    (∀ s, (st.held s).Nodup) ∧
    (∀ spid mf o, .issued spid mf o ∈ trace → InFlight trace st spid mf o ∨ HasLeft trace st spid mf o) ∧
    (∀ mf, .dropped mf ∉ trace) ∧
    (AtomicFreeRun cfg trace st → ∀ input, dramCycle cfg input st ≠ .error .creditUnderflow ∧
      (0 < cfg.sharedCreditLimit → cfg.nSubPartition + cfg.sharedCreditLimit ≤ (fifoCapacity : Int) →
        ∀ name, dramCycle cfg input st ≠ .error (.fifoFull name))) := by
  obtain ⟨place, tracked, -⟩ := run.accounted
  refine ⟨tracked.custody.nodup, fun spid mf o issued => tracked.inFlight_or_left issued,
    tracked.not_dropped, ?_⟩
  intro plain input
  have settled : Settled cfg True trace st := RunOf.settled (fun _ _ => id) plain
  have cycle : Stage.Triple (Entering cfg True False input.cycle) (dramCycle cfg input)
      (Settled cfg True) (Blameless cfg True False) := dramCycle_triple
  have stops := (cycle trace st ⟨settled, False.elim⟩).2
  constructor
  · exact fun stopped => (stops _ stopped).credit trivial rfl
  · exact fun limited total name stopped => (stops _ stopped).room trivial limited total name rfl

/-- A read that has been issued and asks for its metadata. -/
def metadataMissSchedule : List Action :=
  [.handOver 0 (plainRequest .globalAccR 0 128), .call (idleCall 15000), .call (idleCall 15001)]

def issuedTo (spid : Nat) (mf : MfId) (trace : List Event) : Bool :=
  trace.any fun
    | .issued spid' mf' _ => spid' == spid && mf' == mf
    | _ => false

/-- The read is at one station. -/
theorem requests_conserved_sample :
    ∃ trace st spid o, Run small trace st ∧ .issued spid (.request 0) o ∈ trace ∧
      InFlight trace st spid (.request 0) o := by
  obtain ⟨trace, st, run, found⟩ := reaches_of_arrives (show arrives small metadataMissSchedule (create small)
    (fun trace st => issuedTo 0 (.request 0) trace && decide (.request 0 ∈ st.held (.latency .dram))) = true
    by decide +kernel)
  rw [Bool.and_eq_true, decide_eq_true_eq] at found
  obtain ⟨issued, here⟩ := found
  obtain ⟨e, seen, named⟩ := List.any_eq_true.mp issued
  cases e with
  | issued spid mf o =>
      simp only [Bool.and_eq_true, beq_iff_eq] at named
      obtain ⟨rfl, rfl⟩ := named
      have run := AtomicFreeRun.run run
      refine ⟨trace, st, 0, o, run, seen, ?_⟩
      exact ((requests_conserved run).2.1 0 _ o seen).resolve_right fun left => left.gone _ here
  | _ => contradiction

/-- The metadata request of a read is in the DRAM latency queue and listed in the
registers at the same time. -/
theorem metadata_miss_at_two_places :
    ¬∀ trace st, Run small trace st → ∀ mf name block,
      ¬(mf ∈ (st.latency name).map Prod.snd ∧ mf ∈ st.metadataCache.mshrs.list block) := by
  intro apart
  obtain ⟨trace, st, run, found⟩ := reaches_of_arrives (show arrives small metadataMissSchedule (create small)
    (fun _ st => decide (.request 0 ∈ (st.latency .dram).map Prod.snd) &&
      decide (.request 0 ∈ st.metadataCache.mshrs.list 0)) = true by decide +kernel)
  rw [Bool.and_eq_true, decide_eq_true_eq, decide_eq_true_eq] at found
  exact apart trace st (AtomicFreeRun.run run) (.request 0) .dram 0 found

end GpgpuSim.Partition.MemoryPartitionUnit
