import GpgpuSim.Partition.Schedules

/-! What comes of a read. Its object is rewritten for the metadata and for the
compressed size and restored on the way back; on the way out it asks the DRAM for
no more than a line. -/
namespace GpgpuSim.Partition.MemoryPartitionUnit
open GpgpuSim.Huffman GpgpuSim.Memory GpgpuSim.Cache Transition

variable {cfg : MemoryConfig} {input : CycleInput} {trace shown : List Event}
  {st next : MemoryPartitionUnit} {mf : MfId} {spid : Nat} {r o : MemFetch}

/-! ## Delivery -/

/-- A delivered request was issued, and its record names one object each time. -/
theorem Run.delivered (run : Run cfg trace st) (seen : .delivered spid mf r ∈ trace) :
    ∃ o, record mf trace = [.creditBorrowed spid mf, .issued spid mf o, .delivered spid mf r,
        .creditReturned spid mf] ∧
      r.isMetaDataRequest = false ∧ r.addr = o.addr ∧ r.dataSize = o.dataSize := by
  obtain ⟨place, tracked, -⟩ := run.accounted
  have life := tracked.life mf
  have listed : .delivered spid mf r ∈ record mf trace := (mem_record rfl).mpr seen
  generalize here : place mf = at_mf at life
  generalize recorded : record mf trace = events at life listed
  cases life with
  | absent => contradiction
  | queued => contradiction
  | carried s o started => cases started <;> simp at listed
  | done o free started finished =>
      cases finished with
      | retired => cases started <;> simp at listed
      | delivered spid' r' own data addr dataSize kept =>
          cases started with
          | allocated spid'' own' back =>
              rw [MemFetch.isWriteBack, back] at kept
              contradiction
          | issued spid'' own' =>
              rw [own] at own'
              cases own'
              simp only [List.cons_append, List.nil_append, List.mem_cons, reduceCtorEq, false_or,
                Event.delivered.injEq, true_and, List.not_mem_nil, or_false] at listed
              obtain ⟨rfl, rfl⟩ := listed
              exact ⟨o, rfl, data, addr, dataSize⟩

/-- A request comes back to the sub partition it was issued from, with the address
and the size it was issued with, and for its data. -/
theorem delivered_as_issued (run : Run cfg trace st) (seen : .delivered spid mf r ∈ trace) :
    (∃ o, .issued spid mf o ∈ trace) ∧
      ∀ spid' o, .issued spid' mf o ∈ trace →
        spid' = spid ∧ r.addr = o.addr ∧ r.dataSize = o.dataSize ∧ r.isMetaDataRequest = false := by
  obtain ⟨o, recorded, data, addr, dataSize⟩ := run.delivered seen
  constructor
  · have listed : .issued spid mf o ∈ record mf trace := by simp [recorded]
    exact ⟨o, List.mem_of_mem_filter listed⟩
  · intro spid' o' issued
    have listed : .issued spid' mf o' ∈ record mf trace := (mem_record rfl).mpr issued
    simp only [recorded, List.mem_cons, reduceCtorEq, false_or, Event.issued.injEq, true_and,
      List.not_mem_nil, or_false] at listed
    obtain ⟨rfl, rfl⟩ := listed
    exact ⟨rfl, addr, dataSize, data⟩

/-- A read of `dataSize` bytes at address 384 that asks for its metadata, is
compressed, and is completed by the DRAM. -/
def readSchedule (dataSize : Nat) : List Action :=
  [.handOver 0 (plainRequest .globalAccR 384 dataSize), .call (idleCall 15000), .call (idleCall 15001),
    .call (idleCall 15200), .call (idleCall 15201), .call (idleCall 15202), .call (idleCall 15203),
    .call (idleCall 15400), .call { idleCall 15401 with completes := some (.request 0) },
    .call (idleCall 15402), .call (idleCall 15500)]

/-- A compressed read is delivered as it was issued. -/
theorem delivered_as_issued_compressed :
    ∃ trace st spid mf r, Run small trace st ∧ .delivered spid mf r ∈ trace ∧ r.compressed = true ∧
      ∃ o, .issued spid mf o ∈ trace := by
  obtain ⟨trace, st, run, found⟩ := reaches_of_arrives (show arrives small (readSchedule 64) (create small)
    (fun trace st => trace.any fun
      | .delivered _ _ request => request.compressed
      | _ => false) = true by decide +kernel)
  obtain ⟨e, seen, compressed⟩ := List.any_eq_true.mp found
  cases e with
  | delivered spid mf r =>
      have run := AtomicFreeRun.run run
      exact ⟨trace, st, spid, mf, r, run, seen, compressed, (delivered_as_issued run seen).1⟩
  | _ => contradiction

/-! ## The push to the DRAM -/

/-- What holds of a compressed request that is pushed to the DRAM. -/
def PushFits (trace : List Event) (mf : MfId) (r : MemFetch) : Prop :=
  ∃ spid o, .issued spid mf o ∈ trace ∧ r.originalSize = o.dataSize ∧ r.dataSize ≤ memoryRequestSize

/-- Every compressed push so far was in bounds. -/
def PushesFit (trace : List Event) : Prop :=
  ∀ mf r, .dramPush mf r ∈ trace → r.compressed = true → PushFits trace mf r

theorem PushesFit.append (fits : PushesFit trace)
    (more : ∀ mf r, .dramPush mf r ∈ shown → r.compressed = true → PushFits (trace ++ shown) mf r) :
    PushesFit (trace ++ shown) := by
  intro mf r seen compressed
  rcases List.mem_append.mp seen with before | now
  · obtain ⟨spid, o, issued, size, bound⟩ := fits mf r before compressed
    exact ⟨spid, o, List.mem_append_left _ issued, size, bound⟩
  · exact more mf r now compressed

/-- A compressed request in the DRAM latency queue is a read of a line, sized by the compressor. -/
theorem Accounted.pushFits {plain : Prop} {readyCycle : Nat} {rest : List (Nat × MfId)}
    (accounted : Accounted cfg plain trace st) (front : st.latency .dram = (readyCycle, mf) :: rest)
    (data : (st.request mf).isMetaDataRequest = false) (compressed : (st.request mf).compressed = true) :
    PushFits trace mf (st.request mf) := by
  obtain ⟨place, tracked, -⟩ := accounted
  have here : place mf = some (.latency .dram) := tracked.custody.place_of_mem (by simp [held, front])
  obtain ⟨o, start, recorded, started, carries, fits⟩ := tracked.carried here trivial
  obtain ⟨read, -, size, -⟩ := carries.translated compressed
  cases started with
  | allocated spid own back =>
      rw [MemFetch.isLineRead, back] at read
      contradiction
  | issued spid own =>
      have listed : .issued spid mf o ∈ record mf trace := by simp [recorded]
      exact ⟨spid, o, List.mem_of_mem_filter listed, size, fits.2 compressed data⟩

theorem PushFits.later (fits : PushFits trace mf r) : PushFits (trace ++ shown) mf r := by
  obtain ⟨spid, o, issued, size, bound⟩ := fits
  exact ⟨spid, o, List.mem_append_left _ issued, size, bound⟩

/-- The stages before the last one push nothing. -/
theorem earlyStages_dry : ∀ stage ∈ returnStages cfg input ++ phaseStages cfg input,
    ∀ {st next shown}, stage st = .ok (next, shown) → ∀ e ∈ shown, e.ofDram = false := by
  have returning : ∀ stage ∈ returnStages cfg input,
      ∀ {st next shown}, stage st = .ok (next, shown) → ∀ e ∈ shown, e.ofDram = false := by
    simp only [returnStages, List.forall_mem_cons, List.not_mem_nil, false_implies, implies_true, and_true]
    refine ⟨fun done => ?_, fun done => (returnFromDram_keeps done).1.dry,
      fun done => (completeDecompression_keeps done).1.dry, fun done => (returnToL2_keeps done).1.dry,
      fun done => (dramModelCycle_keeps done).1.dry, fun done => (arbitrate_keeps done).1.dry⟩
    obtain ⟨unit, begun, -, -, rfl⟩ := codebookStage_ok done
    cases begun <;> simp [Event.ofDram]
  have sampling : ∀ {st next shown}, sampleStage cfg input st = .ok (next, shown) →
      ∀ e ∈ shown, e.ofDram = false := by
    intro st next shown done
    cases done
    simp
  have compression : ∀ stage ∈ compressionStages cfg input,
      ∀ {st next shown}, stage st = .ok (next, shown) → ∀ e ∈ shown, e.ofDram = false := by
    simp only [compressionStages, List.forall_mem_cons, List.not_mem_nil, false_implies, implies_true, and_true]
    refine ⟨sampling, fun done => ?_, fun done => (classify_keeps done).1.dry,
      fun done => (translate_keeps done).1.dry, fun done => (recompress_keeps done).1.dry,
      fun done => (startCompression_keeps done).1.dry, fun done => (completeCompression_keeps done).1.dry,
      fun done => (metadataResponse_keeps done).1.dry, fun done => (metadataFill_keeps done).1.dry,
      fun done => (metadataCycle_keeps done).1.dry, fun done => (metadataAccess_keeps done).1.dry,
      fun done => (enterDramLatency_keeps done).1.dry⟩
    obtain ⟨unit, -, -, rfl⟩ := initialBuildStage_ok done
    simp
  intro stage member
  rcases List.mem_append.mp member with early | phase
  · exact returning stage early
  · unfold phaseStages at phase
    split at phase
    · exact compression stage phase
    · rcases List.mem_cons.mp phase with rfl | last
      · exact sampling
      · rw [List.mem_singleton.mp last]
        exact fun done => (samplingPhase_keeps done).1.dry

theorem earlyStages_dry_run
    (done : Stage.all (returnStages cfg input ++ phaseStages cfg input) st = .ok (next, shown)) :
    ∀ e ∈ shown, e.ofDram = false := by
  have dry : Stage.Triple (fun trace _ => ∀ e ∈ trace, e.ofDram = false)
      (Stage.all (returnStages cfg input ++ phaseStages cfg input))
      (fun trace _ => ∀ e ∈ trace, e.ofDram = false) fun _ => True := by
    apply Stage.Triple.all
    intro stage member trace st before
    constructor
    · intro next shown done e seen
      rcases List.mem_append.mp seen with old | new
      · exact before e old
      · exact earlyStages_dry stage member done e new
    · exact fun _ _ => trivial
  exact (dry [] st (by simp)).1 next shown done

/-- One call keeps the bound on pushes. -/
theorem PushesFit.dramCycle (settled : Settled cfg False trace st) (fits : PushesFit trace)
    (done : dramCycle cfg input st = .ok (next, shown)) : PushesFit (trace ++ shown) := by
  obtain ⟨before, early, late, one, two, rfl⟩ := Stage.all_append_ok.mp done
  have early_triple : Stage.Triple (Entering cfg False False input.cycle)
      (Stage.all (returnStages cfg input ++ phaseStages cfg input)) (Settled cfg False)
      (Blameless cfg False False) := earlyStages_triple
  have between := ((early_triple trace st ⟨settled, False.elim⟩).1 before early one).1
  have dry := earlyStages_dry_run one
  apply fits.append
  intro mf r seen compressed
  rcases List.mem_append.mp seen with old | now
  · have none := dry _ old
    contradiction
  · obtain ⟨rfl, rfl⟩ | ⟨readyCycle, mf', rest, front, ⟨-, rfl, -⟩ | ⟨data, rfl, -⟩⟩ := leaveDramLatency_ok two
    · contradiction
    · contradiction
    · cases List.mem_singleton.mp now
      rw [← List.append_assoc]
      exact (between.pushFits front data compressed).later

/-- The bytes a compressed read asks of the DRAM: at most a line, and so no more than
it was issued with if that was a line. -/
theorem compressed_push_le_line (run : Run cfg trace st) (seen : .dramPush mf r ∈ trace)
    (compressed : r.compressed = true) :
    r.dataSize ≤ memoryRequestSize ∧ (memoryRequestSize ≤ r.originalSize → r.dataSize ≤ r.originalSize) ∧
      ∃ spid o, .issued spid mf o ∈ trace ∧ r.originalSize = o.dataSize := by
  have all : PushesFit trace := by
    apply run.invariant (P := fun trace _ => PushesFit trace)
    · intro mf r none
      contradiction
    · intro trace st shown next before fits step
      cases step with
      | call input later done => exact fits.dramCycle (RunOf.settled False.elim before) done
      | handOver spid mf here owned fresh admits => exact fits.append (by simp)
      | collect spid mf rest front => exact fits.append (by simp)
  obtain ⟨spid, o, issued, size, bound⟩ := all mf r seen compressed
  exact ⟨bound, bound.trans, spid, o, issued, size⟩

def pushesMore (trace : List Event) : Bool :=
  trace.any fun
    | .dramPush _ request => request.compressed && decide (request.originalSize < request.dataSize)
    | _ => false

/-- A read of 128 bytes. -/
theorem compressed_push_le_line_sample :
    ∃ trace st mf r, Run small trace st ∧ .dramPush mf r ∈ trace ∧ r.compressed = true ∧
      r.dataSize ≤ r.originalSize := by
  obtain ⟨trace, st, run, found⟩ := reaches_of_arrives (show arrives small (readSchedule 128) (create small)
    (fun trace st => trace.any fun
      | .dramPush _ request => request.compressed && decide (memoryRequestSize ≤ request.originalSize)
      | _ => false) = true by decide +kernel)
  obtain ⟨e, seen, found⟩ := List.any_eq_true.mp found
  cases e with
  | dramPush mf r =>
      rw [Bool.and_eq_true, decide_eq_true_eq] at found
      have run := AtomicFreeRun.run run
      exact ⟨trace, st, mf, r, run, seen, found.1, (compressed_push_le_line run seen found.1).2.1 found.2⟩
  | _ => contradiction

/-- A read of one sector is turned into a push of a whole line. -/
theorem sector_read_pushes_more :
    ¬∀ trace st mf r, Run small trace st → .dramPush mf r ∈ trace → r.compressed = true →
      r.dataSize ≤ r.originalSize := by
  intro always
  obtain ⟨trace, st, run, found⟩ := reaches_of_arrives (show arrives small (readSchedule 32) (create small)
    (fun trace st => pushesMore trace) = true by decide +kernel)
  obtain ⟨e, seen, found⟩ := List.any_eq_true.mp found
  cases e with
  | dramPush mf r =>
      rw [Bool.and_eq_true, decide_eq_true_eq] at found
      exact absurd (always trace st mf r (AtomicFreeRun.run run) seen found.1) (not_le.mpr found.2)
  | _ => contradiction

end GpgpuSim.Partition.MemoryPartitionUnit
