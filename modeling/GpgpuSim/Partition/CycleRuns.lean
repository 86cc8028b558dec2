import GpgpuSim.Partition.MetadataAccounting

/-! A whole cycle keeps the invariant, and so does a run. The assertion between two
stages says besides where requests are whether the codebook is as far as the
requests in front of the compressor need it. -/
namespace GpgpuSim.Partition.MemoryPartitionUnit
open GpgpuSim.Huffman GpgpuSim.Memory GpgpuSim.Cache Transition

variable {cfg : MemoryConfig} {input : CycleInput} {plain guarded : Prop} {trace shown : List Event}
  {st next : MemoryPartitionUnit}

/-- The first write-back in the compressor is ready. -/
def Due (cycle : Nat) (st : MemoryPartitionUnit) : Prop :=
  ∃ readyCycle mf rest, st.latency .compressor = (readyCycle, mf) :: rest ∧ readyCycle ≤ cycle

instance (cycle : Nat) (st : MemoryPartitionUnit) : Decidable (Due cycle st) :=
  match shape : st.latency .compressor with
  | [] => .isFalse (by rintro ⟨_, _, _, front, _⟩; rw [shape] at front; contradiction)
  | (readyCycle, mf) :: rest =>
      if ready : readyCycle ≤ cycle then .isTrue ⟨readyCycle, mf, rest, shape, ready⟩
      else .isFalse (by rintro ⟨_, _, _, front, due⟩; rw [shape] at front; cases front; exact ready due)

/-- The compression phase of the cycle is going to update statistics, for a read or
in `guarded` calls for a write-back. -/
def Pressing (guarded : Prop) (cycle : Nat) (st : MemoryPartitionUnit) : Prop :=
  samplingDuration ≤ cycle ∧ (st.fifo .fromMetadataCache ≠ [] ∨ (guarded ∧ Due cycle st))

theorem SameFronts.pressing {cycle : Nat} (same : SameFronts st next) :
    Pressing guarded cycle next ↔ Pressing guarded cycle st := by
  simp only [Pressing, Due, same.answers, same.compressor]

/-! ## Assertions between the stages -/

/-- Between two calls. -/
def Settled (cfg : MemoryConfig) (plain : Prop) (trace : List Event) (st : MemoryPartitionUnit) : Prop :=
  Accounted cfg plain trace st ∧ st.mfToBeClassified = none

/-- At the start of a call. A `guarded` call has taken a sample before a write-back is ready. -/
def Entering (cfg : MemoryConfig) (plain guarded : Prop) (cycle : Nat) (trace : List Event)
    (st : MemoryPartitionUnit) : Prop :=
  Settled cfg plain trace st ∧
    (guarded → samplingDuration ≤ cycle → Due cycle st → st.codebookUnit.Sampled)

/-- After the codebook's turn, before arbitration. -/
def Returning (cfg : MemoryConfig) (plain guarded : Prop) (cycle : Nat) (trace : List Event)
    (st : MemoryPartitionUnit) : Prop :=
  Settled cfg plain trace st ∧ (Pressing guarded cycle st → st.codebookUnit.Primed)

/-- After arbitration. -/
def Issued (cfg : MemoryConfig) (plain guarded : Prop) (cycle : Nat) (trace : List Event)
    (st : MemoryPartitionUnit) : Prop :=
  Accounted cfg plain trace st ∧ (Pressing guarded cycle st → st.codebookUnit.Primed)

/-- After sampling, before the initial build. -/
def Chosen (cfg : MemoryConfig) (plain guarded : Prop) (cycle : Nat) (trace : List Event)
    (st : MemoryPartitionUnit) : Prop :=
  Issued cfg plain guarded cycle trace st ∧ ReadSampled st

/-- After the initial build, before classification. -/
def Built (cfg : MemoryConfig) (plain guarded : Prop) (cycle : Nat) (trace : List Event)
    (st : MemoryPartitionUnit) : Prop :=
  Accounted cfg plain trace st ∧ ReadSampled st ∧
    (Pressing guarded cycle st → st.codebookUnit.huffmanEnabled = true)

/-- After classification, before recompression. -/
def Classified (cfg : MemoryConfig) (plain guarded : Prop) (cycle : Nat) (trace : List Event)
    (st : MemoryPartitionUnit) : Prop :=
  Settled cfg plain trace st ∧ (Pressing guarded cycle st → st.codebookUnit.huffmanEnabled = true)

/-- After recompression, before a write-back leaves the compressor. -/
def Compressing (cfg : MemoryConfig) (plain guarded : Prop) (cycle : Nat) (trace : List Event)
    (st : MemoryPartitionUnit) : Prop :=
  Settled cfg plain trace st ∧ (guarded → Due cycle st → st.codebookUnit.huffmanEnabled = true)

theorem Accounted.wellFormed (accounted : Accounted cfg plain trace st) : st.codebookUnit.WellFormed := by
  obtain ⟨place, tracked, -⟩ := accounted
  exact tracked.wellFormed

/-- A read that has come out of the metadata cache has been sampled. -/
theorem Accounted.sampled_of_answers (accounted : Accounted cfg plain trace st)
    (some : st.fifo .fromMetadataCache ≠ []) : st.codebookUnit.Sampled := by
  obtain ⟨place, tracked, -⟩ := accounted
  obtain ⟨mf, rest, front⟩ := List.exists_cons_of_ne_nil some
  have here : place mf = Option.some (.fifo .fromMetadataCache) :=
    tracked.custody.place_of_mem (by simp [held, front])
  obtain ⟨o, start, -, -, carries, metadata, -⟩ := tracked.carried here trivial
  exact (carries.translated (carries.compressed_of_metadata metadata)).2.2.2

/-! ## The stages of the codebook -/

theorem codebookStage_triple : Stage.Triple (Entering cfg plain guarded input.cycle)
    (codebookStage cfg input) (Returning cfg plain guarded input.cycle) (Blameless cfg plain guarded) := by
  rintro trace st ⟨⟨accounted, idle⟩, guard⟩
  constructor
  · intro next shown done
    have after := accounted.codebookStage done
    obtain ⟨unit, begun, ran, rfl, -⟩ := codebookStage_ok done
    have cycled := CodebookUnit.codebookCycle_ok accounted.wellFormed ran
    refine ⟨⟨after, idle⟩, ?_⟩
    rintro ⟨late, answers | ⟨guards, due⟩⟩
    · exact cycled.primed_iff.mpr (accounted.sampled_of_answers answers)
    · exact cycled.primed_iff.mpr (guard guards late due)
  · exact fun fault stopped => accounted.blameless (codebookStage_error stopped) guarded

theorem sampleStage_triple : Stage.Triple (Issued cfg plain guarded input.cycle)
    (sampleStage cfg input) (Chosen cfg plain guarded input.cycle) (Blameless cfg plain guarded) := by
  rintro trace st ⟨accounted, primed⟩
  constructor
  · intro next shown done
    have after := accounted.sampleStage done
    cases done
    obtain ⟨sampled, eq, fills⟩ := st.codebookUnit.enqueueSampledSymbols_eq cfg.blockAddr input.memory
      input.cycle (st.mfToBeClassified.map st.request)
    refine ⟨⟨after, ?_⟩, ?_⟩
    · intro pressing
      have before := primed pressing
      dsimp only
      rw [eq]
      exact before
    · intro mf chosen read
      dsimp only at chosen ⊢
      rw [eq]
      right
      apply fills accounted.wellFormed
      rw [chosen]
      exact read
  · exact fun fault stopped => by contradiction

theorem initialBuildStage_triple : Stage.Triple (Chosen cfg plain guarded input.cycle)
    (initialBuildStage cfg input) (Built cfg plain guarded input.cycle) (Blameless cfg plain guarded) := by
  rintro trace st ⟨⟨accounted, primed⟩, sampled⟩
  constructor
  · intro next shown done
    have after := accounted.initialBuildStage done
    obtain ⟨unit, ran, rfl, -⟩ := initialBuildStage_ok done
    have attempted := CodebookUnit.initialBuild_ok accounted.wellFormed ran
    refine ⟨after, ?_, fun pressing => attempted.enabled_iff.mpr (primed pressing)⟩
    exact fun mf chosen read => attempted.advances.sampled accounted.wellFormed (sampled mf chosen read)
  · exact fun fault stopped => accounted.blameless (initialBuildStage_error stopped) guarded

/-! ## The other stages -/

section Rules

variable {stage : PartitionStage}

/-- A stage between the codebook's turn and arbitration. -/
theorem returning_triple
    (accounts : ∀ {trace st next shown}, Accounted cfg plain trace st → stage st = .ok (next, shown) →
      Accounted cfg plain (trace ++ shown) next)
    (keeps : ∀ {st next shown}, stage st = .ok (next, shown) →
      Quiet st next shown ∧ SameFronts st next ∧ next.mfToBeClassified = st.mfToBeClassified)
    (stops : ∀ {st fault}, stage st = .error fault → Stopped cfg st fault) :
    Stage.Triple (Returning cfg plain guarded input.cycle) stage
      (Returning cfg plain guarded input.cycle) (Blameless cfg plain guarded) := by
  rintro trace st ⟨⟨accounted, idle⟩, primed⟩
  constructor
  · intro next shown done
    obtain ⟨quiet, fronts, same⟩ := keeps done
    refine ⟨⟨accounts accounted done, same.trans idle⟩, fun pressing => ?_⟩
    exact quiet.codebookUnit.primed.mpr (primed (fronts.pressing.mp pressing))
  · exact fun fault stopped => accounted.blameless (stops stopped) guarded

/-- A stage behind the compressor. -/
theorem settled_triple
    (accounts : ∀ {trace st next shown}, Accounted cfg plain trace st → stage st = .ok (next, shown) →
      Accounted cfg plain (trace ++ shown) next)
    (keeps : ∀ {st next shown}, stage st = .ok (next, shown) → next.mfToBeClassified = st.mfToBeClassified)
    (stops : ∀ {st fault}, stage st = .error fault → Stopped cfg st fault) :
    Stage.Triple (Settled cfg plain) stage (Settled cfg plain) (Blameless cfg plain guarded) := by
  rintro trace st ⟨accounted, idle⟩
  constructor
  · exact fun next shown done => ⟨accounts accounted done, (keeps done).trans idle⟩
  · exact fun fault stopped => accounted.blameless (stops stopped) guarded

end Rules

theorem arbitrate_triple : Stage.Triple (Returning cfg plain guarded input.cycle)
    (arbitrate cfg input) (Issued cfg plain guarded input.cycle) (Blameless cfg plain guarded) := by
  rintro trace st ⟨⟨accounted, idle⟩, primed⟩
  constructor
  · intro next shown done
    obtain ⟨quiet, fronts⟩ := arbitrate_keeps done
    refine ⟨accounted.arbitrate idle done, fun pressing => ?_⟩
    exact quiet.codebookUnit.primed.mpr (primed (fronts.pressing.mp pressing))
  · exact fun fault stopped => absurd stopped arbitrate_error

theorem classify_triple : Stage.Triple (Built cfg plain guarded input.cycle)
    classify (Classified cfg plain guarded input.cycle) (Blameless cfg plain guarded) := by
  rintro trace st ⟨accounted, sampled, enabled⟩
  constructor
  · intro next shown done
    obtain ⟨quiet, fronts, idle⟩ := classify_keeps done
    refine ⟨⟨accounted.classify sampled done, idle⟩, fun pressing => ?_⟩
    exact quiet.codebookUnit.huffmanEnabled.trans (enabled (fronts.pressing.mp pressing))
  · exact fun fault stopped => accounted.blameless (classify_error stopped) guarded

theorem translate_triple : Stage.Triple (Classified cfg plain guarded input.cycle)
    translate (Classified cfg plain guarded input.cycle) (Blameless cfg plain guarded) := by
  rintro trace st ⟨⟨accounted, idle⟩, enabled⟩
  constructor
  · intro next shown done
    obtain ⟨quiet, fronts, same⟩ := translate_keeps done
    refine ⟨⟨accounted.translate done, same.trans idle⟩, fun pressing => ?_⟩
    exact quiet.codebookUnit.huffmanEnabled.trans (enabled (fronts.pressing.mp pressing))
  · exact fun fault stopped => accounted.blameless (translate_error stopped) guarded

/-- A read is compressed with a codebook that is enabled. -/
theorem recompress_triple (late : samplingDuration ≤ input.cycle) :
    Stage.Triple (Classified cfg plain guarded input.cycle) (recompress cfg input)
      (Compressing cfg plain guarded input.cycle) (Blameless cfg plain guarded) := by
  rintro trace st ⟨⟨accounted, idle⟩, enabled⟩
  have answers : st.fifo .fromMetadataCache ≠ [] → st.codebookUnit.huffmanEnabled = true :=
    fun some => enabled ⟨late, .inl some⟩
  constructor
  · intro next shown done
    obtain ⟨quiet, compressor, same⟩ := recompress_keeps done
    refine ⟨⟨accounted.recompress answers done, same.trans idle⟩, fun guards due => ?_⟩
    rw [Due, compressor] at due
    exact quiet.codebookUnit.huffmanEnabled.trans (enabled ⟨late, .inr ⟨guards, due⟩⟩)
  · intro fault stopped
    rcases recompress_error stopped with cause | ⟨-, some, outcome, empty⟩
    · exact accounted.blameless cause guarded
    · rw [CodebookUnit.updateStats_none accounted.wellFormed, answers some] at empty
      contradiction

/-- A write-back that enters the compressor is not ready at once. -/
theorem Due.of_startCompression (done : startCompression cfg input st = .ok (next, shown))
    (due : Due input.cycle next) : Due input.cycle st := by
  obtain ⟨-, rfl | ⟨mf, rest, -, -, rfl⟩⟩ := startCompression_ok done
  · exact due
  obtain ⟨readyCycle, first, others, front, ready⟩ := due
  have front' : st.latency .compressor ++ [(input.cycle + compressorLatency, mf)] =
      (readyCycle, first) :: others := by
    rw [← front]
    simp [pushLatency, pop]
  cases shape : st.latency .compressor with
  | nil =>
      rw [shape, List.nil_append, List.cons.injEq, Prod.mk.injEq] at front'
      have later := front'.1.1
      simp only [compressorLatency] at later
      omega
  | cons entry entries =>
      rw [shape, List.cons_append, List.cons.injEq] at front'
      exact ⟨readyCycle, first, entries, by rw [shape, front'.1], ready⟩

theorem startCompression_triple : Stage.Triple (Compressing cfg plain guarded input.cycle)
    (startCompression cfg input) (Compressing cfg plain guarded input.cycle)
    (Blameless cfg plain guarded) := by
  rintro trace st ⟨⟨accounted, idle⟩, enabled⟩
  constructor
  · intro next shown done
    obtain ⟨quiet, same⟩ := startCompression_keeps done
    refine ⟨⟨accounted.startCompression done, same.trans idle⟩, fun guards due => ?_⟩
    exact quiet.codebookUnit.huffmanEnabled.trans (enabled guards (due.of_startCompression done))
  · exact fun fault stopped => accounted.blameless (startCompression_error stopped) guarded

theorem completeCompression_triple : Stage.Triple (Compressing cfg plain guarded input.cycle)
    (completeCompression cfg input) (Settled cfg plain) (Blameless cfg plain guarded) := by
  rintro trace st ⟨⟨accounted, idle⟩, enabled⟩
  constructor
  · intro next shown done
    exact ⟨accounted.completeCompression done, (completeCompression_keeps done).2.trans idle⟩
  · intro fault stopped
    rcases completeCompression_error stopped with cause | ⟨rfl, due, outcome, empty⟩
    · exact accounted.blameless cause guarded
    · rw [CodebookUnit.updateStats_none accounted.wellFormed] at empty
      refine ⟨fun guards => ?_, by simp, by simp⟩
      rw [enabled guards due] at empty
      contradiction

/-! ## The cycle -/

theorem returnStages_triple : Stage.Triple (Entering cfg plain guarded input.cycle)
    (Stage.all (returnStages cfg input)) (Issued cfg plain guarded input.cycle)
    (Blameless cfg plain guarded) := by
  apply Stage.Triple.andThen codebookStage_triple
  apply Stage.Triple.andThen
    (returning_triple Accounted.returnFromDram returnFromDram_keeps returnFromDram_error)
  apply Stage.Triple.andThen (returning_triple Accounted.completeDecompression
    completeDecompression_keeps completeDecompression_error)
  apply Stage.Triple.andThen (returning_triple Accounted.returnToL2 returnToL2_keeps returnToL2_error)
  apply Stage.Triple.andThen
    (returning_triple Accounted.dramModelCycle dramModelCycle_keeps dramModelCycle_error)
  exact Stage.Triple.andThen arbitrate_triple .idle

theorem compressionStages_triple (late : samplingDuration ≤ input.cycle) :
    Stage.Triple (Issued cfg plain guarded input.cycle) (Stage.all (compressionStages cfg input))
      (Settled cfg plain) (Blameless cfg plain guarded) := by
  apply Stage.Triple.andThen sampleStage_triple
  apply Stage.Triple.andThen initialBuildStage_triple
  apply Stage.Triple.andThen classify_triple
  apply Stage.Triple.andThen translate_triple
  apply Stage.Triple.andThen (recompress_triple late)
  apply Stage.Triple.andThen startCompression_triple
  apply Stage.Triple.andThen completeCompression_triple
  apply Stage.Triple.andThen
    (settled_triple Accounted.metadataResponse (fun done => (metadataResponse_keeps done).2) metadataResponse_error)
  apply Stage.Triple.andThen
    (settled_triple Accounted.metadataFill (fun done => (metadataFill_keeps done).2) metadataFill_error)
  apply Stage.Triple.andThen (settled_triple Accounted.metadataCycle (fun done => (metadataCycle_keeps done).2)
    fun stopped => absurd stopped metadataCycle_error)
  apply Stage.Triple.andThen
    (settled_triple Accounted.metadataAccess (fun done => (metadataAccess_keeps done).2) metadataAccess_error)
  exact Stage.Triple.andThen (settled_triple Accounted.enterDramLatency (fun done => (enterDramLatency_keeps done).2)
    fun stopped => absurd stopped enterDramLatency_error) .idle

theorem samplingStages_triple : Stage.Triple (Issued cfg plain guarded input.cycle)
    (Stage.all (samplingStages cfg input)) (Settled cfg plain) (Blameless cfg plain guarded) := by
  apply Stage.Triple.andThen sampleStage_triple
  apply Stage.Triple.andThen _ .idle
  rintro trace st ⟨⟨accounted, -⟩, -⟩
  constructor
  · exact fun next shown done => ⟨accounted.samplingPhase done, (samplingPhase_keeps done).2⟩
  · exact fun fault stopped => absurd stopped samplingPhase_error

theorem earlyStages_triple : Stage.Triple (Entering cfg plain guarded input.cycle)
    (Stage.all (returnStages cfg input ++ phaseStages cfg input)) (Settled cfg plain)
    (Blameless cfg plain guarded) := by
  have phase : Stage.Triple (Issued cfg plain guarded input.cycle) (Stage.all (phaseStages cfg input))
      (Settled cfg plain) (Blameless cfg plain guarded) := by
    unfold phaseStages
    split
    · rename_i late
      exact compressionStages_triple late
    · exact samplingStages_triple
  exact returnStages_triple.append phase

theorem dramCycle_triple : Stage.Triple (Entering cfg plain guarded input.cycle) (dramCycle cfg input)
    (Settled cfg plain) (Blameless cfg plain guarded) := by
  have leaving : Stage.Triple (Settled cfg plain) (leaveDramLatency cfg input) (Settled cfg plain)
      (Blameless cfg plain guarded) :=
    settled_triple Accounted.leaveDramLatency (fun done => (leaveDramLatency_keeps done).2.2.1)
      leaveDramLatency_error
  exact earlyStages_triple.append (leaving.andThen .idle)

/-! ## Runs -/

theorem Settled.handOver {spid : Nat} {mf : MemFetch} (settled : Settled cfg plain trace st)
    (here : spid < cfg.nSubPartition) (owned : mf.subPartitionId = cfg.id * cfg.nSubPartition + spid)
    (fresh : mf.Fresh) (atomic : plain → mf.isAtomic = false) :
    Settled cfg plain (trace ++ []) (st.handOver spid mf) := by
  obtain ⟨⟨place, tracked, balances⟩, idle⟩ := settled
  have unborn := tracked.unborn st.pool.nextSerial le_rfl
  have others : ∀ other, other ≠ .request st.pool.nextSerial →
      (st.handOver spid mf).request other = st.request other :=
    fun other apart => MfPool.get_alloc_of_ne st.pool mf apart
  have own : (st.handOver spid mf).request (.request st.pool.nextSerial) = mf :=
    MfPool.get_alloc_self st.pool mf
  refine ⟨⟨_, tracked.born (t := .l2Dram spid) ?_ rfl ?_ ?_, fun without => ?_⟩, idle⟩
  · apply tracked.custody.enters unborn.1
    intro u
    have queued := held_l2Dram { st with pool := (st.pool.alloc mf).2 } spid
      (st.l2Dram spid ++ [.request st.pool.nextSerial])
    refine (List.Perm.of_eq (congrFun queued u)).trans ?_
    by_cases same : u = .l2Dram spid
    · subst same
      rw [Function.update_self, Function.update_self]
      exact List.perm_append_singleton _ _
    · rw [Function.update_of_ne same, Function.update_of_ne same]
      exact .of_eq (by cases u <;> rfl)
  · exact ⟨others, fun _ _ => rfl, fun _ _ => rfl, .refl _, tracked.coherent⟩
  · apply Life.queued spid here
    · rw [own]
      exact owned
    · rw [own]
      exact fresh
    · exact tracked.free_of_absent unborn.1
  · obtain ⟨live, balanced⟩ := balances without
    refine ⟨live, balanced.of_same ?_ ?_ rfl balanced.clean ?_⟩
    · intro other
      by_cases same : other = .request st.pool.nextSerial
      · rw [same, own]
        exact atomic without
      · rw [others other same]
        exact balanced.plain other
    · intro other member
      have apart : other ≠ .request st.pool.nextSerial := by
        rintro rfl
        obtain ⟨s, at_s, -⟩ := (balanced.mem_live _).mp member
        rw [unborn.1] at at_s
        contradiction
      unfold owner
      rw [others other apart]
    · intro other
      rw [inside_update]
      split
      · rename_i same
        simp [same, unborn.1, Station.Inside]
      · rfl

/-- The invariant holds in every state that a run reaches. -/
theorem RunOf.settled {admitted : MemFetch → Prop} (atomic : plain → ∀ mf, admitted mf → mf.isAtomic = false)
    (run : RunOf cfg admitted trace st) : Settled cfg plain trace st := by
  apply run.invariant
  · exact ⟨Accounted.create cfg plain, rfl⟩
  · intro trace st shown next _ settled step
    cases step with
    | call input later done =>
        have cycle : Stage.Triple (Entering cfg plain False input.cycle) (dramCycle cfg input)
            (Settled cfg plain) (Blameless cfg plain False) := dramCycle_triple
        exact (cycle trace st ⟨settled, False.elim⟩).1 next shown done
    | handOver spid mf here owned fresh admits =>
        exact settled.handOver here owned fresh fun without => atomic without mf admits
    | collect spid mf rest front =>
        exact ⟨settled.1.still rfl rfl (.refl _) id (.refl _) rfl (by simp), settled.2⟩

theorem Run.accounted (run : Run cfg trace st) : Accounted cfg False trace st :=
  (RunOf.settled False.elim run).1

end GpgpuSim.Partition.MemoryPartitionUnit
