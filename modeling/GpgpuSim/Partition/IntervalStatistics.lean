import GpgpuSim.Partition.Schedules

/-! The statistics of the current interval. There is an interval once a codebook was
built, and a codebook is built once a read was sampled; a write-back that reaches the
end of the compressor before that has no statistics to be counted in. -/
namespace GpgpuSim.Partition.MemoryPartitionUnit
open GpgpuSim.Huffman GpgpuSim.Memory GpgpuSim.Cache Transition

variable {cfg : MemoryConfig} {input : CycleInput} {trace shown : List Event} {st next : MemoryPartitionUnit}

/-- In the compression phase a write-back leaves the compressor only after a sample was taken. -/
def CompressesAfterSample (cycle : Nat) (st : MemoryPartitionUnit) : Prop :=
  samplingDuration ≤ cycle → Due cycle st → st.codebookUnit.Sampled

instance (cycle : Nat) (st : MemoryPartitionUnit) : Decidable (CompressesAfterSample cycle st) :=
  inferInstanceAs (Decidable (_ → _ → _))

/-! ## A call without a sample -/

/-- A write-back is ready and the next build is going to fail. -/
structure Blank (cycle : Nat) (_trace : List Event) (st : MemoryPartitionUnit) : Prop where
  wellFormed : st.codebookUnit.WellFormed
  unprimed : ¬st.codebookUnit.Primed
  due : Due cycle st

/-- A write-back is ready and the build has failed. -/
structure Bare (cycle : Nat) (_trace : List Event) (st : MemoryPartitionUnit) : Prop where
  wellFormed : st.codebookUnit.WellFormed
  disabled : st.codebookUnit.huffmanEnabled = false
  due : Due cycle st

theorem SameFronts.due {cycle : Nat} (same : SameFronts st next) (due : Due cycle st) : Due cycle next := by
  rwa [Due, same.compressor]

theorem blank_triple {stage : PartitionStage}
    (keeps : ∀ {st next shown}, stage st = .ok (next, shown) → Quiet st next shown ∧ SameFronts st next) :
    Stage.Triple (Blank input.cycle) stage (Blank input.cycle) fun _ => True := by
  intro trace st blank
  constructor
  · intro next shown done
    obtain ⟨quiet, fronts⟩ := keeps done
    constructor
    · exact quiet.codebookUnit.wellFormed blank.wellFormed
    · rw [quiet.codebookUnit.primed]
      exact blank.unprimed
    · exact fronts.due blank.due
  · exact fun _ _ => trivial

theorem bare_triple {stage : PartitionStage}
    (keeps : ∀ {st next shown}, Due input.cycle st → stage st = .ok (next, shown) →
      Quiet st next shown ∧ Due input.cycle next) :
    Stage.Triple (Bare input.cycle) stage (Bare input.cycle) fun _ => True := by
  intro trace st bare
  constructor
  · intro next shown done
    obtain ⟨quiet, due⟩ := keeps bare.due done
    constructor
    · exact quiet.codebookUnit.wellFormed bare.wellFormed
    · exact quiet.codebookUnit.huffmanEnabled.trans bare.disabled
    · exact due
  · exact fun _ _ => trivial

theorem codebookStage_blank : Stage.Triple
    (fun _ st => st.codebookUnit.WellFormed ∧ ¬st.codebookUnit.Sampled ∧ Due input.cycle st)
    (codebookStage cfg input) (Blank input.cycle) fun _ => True := by
  rintro trace st ⟨well, nothing, due⟩
  constructor
  · intro next shown done
    obtain ⟨unit, begun, ran, rfl, -⟩ := codebookStage_ok done
    have cycled := CodebookUnit.codebookCycle_ok well ran
    exact ⟨cycled.wellFormed, fun primed => nothing (cycled.primed_iff.mp primed), due⟩
  · exact fun _ _ => trivial

theorem sampleStage_blank :
    Stage.Triple (Blank input.cycle) (sampleStage cfg input) (Blank input.cycle) fun _ => True := by
  intro trace st blank
  constructor
  · intro next shown done
    cases done
    obtain ⟨sampled, eq, -⟩ := st.codebookUnit.enqueueSampledSymbols_eq cfg.blockAddr input.memory
      input.cycle (st.mfToBeClassified.map st.request)
    have well := blank.wellFormed
    constructor
    · dsimp only
      rw [eq]
      exact ⟨well.finalTableSize, well.symbolLength, well.pending, well.begun⟩
    · dsimp only
      rw [eq]
      exact blank.unprimed
    · exact blank.due
  · exact fun _ _ => trivial

theorem initialBuildStage_bare :
    Stage.Triple (Blank input.cycle) (initialBuildStage cfg input) (Bare input.cycle) fun _ => True := by
  intro trace st blank
  constructor
  · intro next shown done
    obtain ⟨unit, ran, rfl, -⟩ := initialBuildStage_ok done
    have attempted := CodebookUnit.initialBuild_ok blank.wellFormed ran
    refine ⟨attempted.wellFormed, ?_, blank.due⟩
    cases on : unit.huffmanEnabled with
    | false => rfl
    | true => exact absurd (attempted.enabled_iff.mp on) blank.unprimed
  · exact fun _ _ => trivial

theorem Due.startCompression (due : Due input.cycle st)
    (done : startCompression cfg input st = .ok (next, shown)) : Due input.cycle next := by
  obtain ⟨-, rfl | ⟨mf, rest, -, -, rfl⟩⟩ := startCompression_ok done
  · exact due
  obtain ⟨readyCycle, first, others, front, ready⟩ := due
  refine ⟨readyCycle, first, others ++ [(input.cycle + compressorLatency, mf)], ?_, ready⟩
  simp [pushLatency, pop, front]

/-- The write-back cannot leave the compressor. -/
theorem completeCompression_bare : Stage.Triple (Bare input.cycle) (completeCompression cfg input)
    (fun _ _ => False) fun _ => True := by
  intro trace st bare
  constructor
  · intro next shown done
    obtain ⟨-, ⟨-, early⟩ | ⟨_, _, _, -, outcome, unit, updated, -⟩⟩ := completeCompression_ok done
    · obtain ⟨readyCycle, mf, rest, front, ready⟩ := bare.due
      exact absurd ready (not_le.mpr (early readyCycle mf rest front))
    · rw [(CodebookUnit.updateStats_none bare.wellFormed).mpr bare.disabled] at updated
      contradiction
  · exact fun _ _ => trivial

theorem never_triple (stage : PartitionStage) :
    Stage.Triple (fun _ _ => False) stage (fun _ _ => False) fun _ => True :=
  fun _ _ never => never.elim

theorem dramCycle_blank (late : samplingDuration ≤ input.cycle) : Stage.Triple
    (fun _ st => st.codebookUnit.WellFormed ∧ ¬st.codebookUnit.Sampled ∧ Due input.cycle st)
    (dramCycle cfg input) (fun _ _ => False) fun _ => True := by
  have returns : Stage.Triple
      (fun _ st => st.codebookUnit.WellFormed ∧ ¬st.codebookUnit.Sampled ∧ Due input.cycle st)
      (Stage.all (returnStages cfg input)) (Blank input.cycle) fun _ => True := by
    apply Stage.Triple.andThen codebookStage_blank
    apply Stage.Triple.andThen (blank_triple fun done => (returnFromDram_keeps done).imp_right And.left)
    apply Stage.Triple.andThen
      (blank_triple fun done => (completeDecompression_keeps done).imp_right And.left)
    apply Stage.Triple.andThen (blank_triple fun done => (returnToL2_keeps done).imp_right And.left)
    apply Stage.Triple.andThen (blank_triple fun done => (dramModelCycle_keeps done).imp_right And.left)
    exact Stage.Triple.andThen (blank_triple arbitrate_keeps) .idle
  have compression : Stage.Triple (Blank input.cycle) (Stage.all (compressionStages cfg input))
      (fun _ _ => False) fun _ => True := by
    apply Stage.Triple.andThen sampleStage_blank
    apply Stage.Triple.andThen initialBuildStage_bare
    apply Stage.Triple.andThen
      (bare_triple fun due done => (classify_keeps done).imp_right fun kept => kept.1.due due)
    apply Stage.Triple.andThen
      (bare_triple fun due done => (translate_keeps done).imp_right fun kept => kept.1.due due)
    apply Stage.Triple.andThen (bare_triple fun due done => (recompress_keeps done).imp_right fun kept => by
      rwa [Due, kept.1])
    apply Stage.Triple.andThen (bare_triple fun due done =>
      ⟨(startCompression_keeps done).1, due.startCompression done⟩)
    apply Stage.Triple.andThen completeCompression_bare
    exact Stage.Triple.all fun stage _ => never_triple stage
  have phase : Stage.Triple (Blank input.cycle) (Stage.all (phaseStages cfg input))
      (fun _ _ => False) fun _ => True := by
    rwa [phaseStages, if_pos late]
  exact (returns.append phase).append (.all fun stage _ => never_triple stage)

/-! ## Every call -/

/-- Calls that compress after a sample never update missing statistics, and a call
that does not cannot complete. -/
theorem interval_stats_present (run : Run cfg trace st) (input : CycleInput) :
    (CompressesAfterSample input.cycle st → dramCycle cfg input st ≠ .error .emptyIntervalStats) ∧
      ((∃ next shown, dramCycle cfg input st = .ok (next, shown)) →
        CompressesAfterSample input.cycle st) := by
  have settled : Settled cfg False trace st := RunOf.settled False.elim run
  constructor
  · intro sampled stopped
    have cycle : Stage.Triple (Entering cfg False True input.cycle) (dramCycle cfg input)
        (Settled cfg False) (Blameless cfg False True) := dramCycle_triple
    exact ((cycle trace st ⟨settled, fun _ => sampled⟩).2 _ stopped).statistics trivial rfl
  · rintro ⟨next, shown, done⟩ late due
    by_contra nothing
    exact (dramCycle_blank late trace st ⟨settled.1.wellFormed, nothing, due⟩).1 next shown done

/-- A read is sampled before the write-back behind it is compressed. -/
theorem interval_stats_present_after_read :
    ∃ trace st, Run small trace st ∧ Due 15046 st ∧ CompressesAfterSample 15046 st ∧
      dramCycle small (idleCall 15046) st ≠ .error .emptyIntervalStats := by
  obtain ⟨trace, st, run, found⟩ := reaches_of_arrives (show arrives small
    [.handOver 0 (plainRequest .globalAccR 0 128), .handOver 0 (plainRequest .l2WrbkAcc 128 128),
      .call (idleCall 14999), .call (idleCall 15000)] (create small)
      (fun _ st => decide (Due 15046 st) && decide (CompressesAfterSample 15046 st)) = true
      by decide +kernel)
  rw [Bool.and_eq_true, decide_eq_true_eq, decide_eq_true_eq] at found
  have run := AtomicFreeRun.run run
  exact ⟨trace, st, run, found.1, found.2, (interval_stats_present run (idleCall 15046)).1 found.2⟩

/-- A single write-back leaves the compressor before any codebook was built. -/
theorem write_back_finds_no_interval :
    ¬∀ trace st, Run small trace st → ∀ input : CycleInput, st.clock ≤ input.cycle →
      dramCycle small input st ≠ .error .emptyIntervalStats := by
  intro always
  obtain ⟨trace, st, run, found⟩ := reaches_of_arrives (show arrives small
    [.handOver 0 (plainRequest .l2WrbkAcc 0 128), .call (idleCall 15000)] (create small)
      (fun _ st => decide (st.clock ≤ 15046) && stopsWith small (idleCall 15046) .emptyIntervalStats st) =
        true by decide +kernel)
  rw [Bool.and_eq_true, decide_eq_true_eq] at found
  exact always trace st (AtomicFreeRun.run run) (idleCall 15046) found.1 (error_of_stopsWith found.2)

end GpgpuSim.Partition.MemoryPartitionUnit
