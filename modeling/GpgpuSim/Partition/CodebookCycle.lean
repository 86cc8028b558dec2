import GpgpuSim.Partition.CycleRuns

/-! What a whole call does to the codebook. The first stage takes the codebook's
turn; the other stages sample, may build the first codebook and count statistics. -/
namespace GpgpuSim.Partition
open GpgpuSim.Huffman GpgpuSim.Memory GpgpuSim.Cache Transition

namespace CodebookUnit

/-- How the codebook goes on after its turn: once enabled it stays as it is. -/
structure Continues (unit next : CodebookUnit) : Prop where
  wellFormed : next.WellFormed
  pendingRebuild : next.pendingRebuild = unit.pendingRebuild
  enabled : unit.huffmanEnabled = true → next.huffmanEnabled = true ∧ next.codebook = unit.codebook
  codes : unit.huffmanEnabled = false → next.huffmanEnabled = true → next.codebook.size ≠ 0

variable {unit next : CodebookUnit}

theorem Continues.refl (well : unit.WellFormed) : Continues unit unit where
  wellFormed := well
  pendingRebuild := rfl
  enabled on := ⟨on, rfl⟩
  codes off on := by simp [off] at on

theorem Continues.trans {a b c : CodebookUnit} (ab : Continues a b) (bc : Continues b c) :
    Continues a c := by
  constructor
  · exact bc.wellFormed
  · exact bc.pendingRebuild.trans ab.pendingRebuild
  · intro on
    obtain ⟨on, same⟩ := ab.enabled on
    obtain ⟨on, same'⟩ := bc.enabled on
    exact ⟨on, same'.trans same⟩
  · intro off on
    cases between : b.huffmanEnabled with
    | false => exact bc.codes between on
    | true =>
        rw [(bc.enabled between).2]
        exact ab.codes off between

theorem SameCodebook.continues (same : SameCodebook next unit) (well : unit.WellFormed) :
    Continues unit next where
  wellFormed := same.wellFormed well
  pendingRebuild := same.pendingRebuild
  enabled on := ⟨same.huffmanEnabled.trans on, same.codebook⟩
  codes off on := by simp [same.huffmanEnabled, off] at on

theorem Attempted.continues (attempted : Attempted unit next) : Continues unit next where
  wellFormed := attempted.wellFormed
  pendingRebuild := attempted.pendingRebuild
  enabled on := ⟨attempted.enabled_iff.mpr (.inl on), congrArg codebook (attempted.kept on)⟩
  codes := attempted.codes

end CodebookUnit

namespace MemoryPartitionUnit

variable {cfg : MemoryConfig} {input : CycleInput} {st next : MemoryPartitionUnit} {shown : List Event}

/-- A stage after the codebook's turn. -/
def FollowsCodebook (stage : PartitionStage) : Prop :=
  ∀ {st next shown}, st.codebookUnit.WellFormed → stage st = .ok (next, shown) →
    st.codebookUnit.Continues next.codebookUnit ∧ next.clock = st.clock ∧
      shown.filter Event.ofCodebook = []

theorem followsCodebook_of_quiet {stage : PartitionStage}
    (keeps : ∀ {st next shown}, stage st = .ok (next, shown) → Quiet st next shown) :
    FollowsCodebook stage := by
  intro st next shown well done
  have quiet := keeps done
  refine ⟨quiet.codebookUnit.continues well, quiet.clock, List.filter_eq_nil_iff.mpr ?_⟩
  intro e member
  simp [quiet.silent e member]

theorem followsCodebook_sampleStage : FollowsCodebook (sampleStage cfg input) := by
  intro st next shown well done
  cases done
  obtain ⟨sampled, eq, -⟩ := st.codebookUnit.enqueueSampledSymbols_eq cfg.blockAddr input.memory
    input.cycle (st.mfToBeClassified.map st.request)
  refine ⟨?_, rfl, rfl⟩
  dsimp only
  rw [eq]
  constructor
  · exact ⟨well.finalTableSize, well.symbolLength, well.pending, well.begun⟩
  · rfl
  · exact fun on => ⟨on, rfl⟩
  · intro off on
    rw [off] at on
    contradiction

theorem followsCodebook_initialBuildStage : FollowsCodebook (initialBuildStage cfg input) := by
  intro st next shown well done
  obtain ⟨unit, ran, rfl, rfl⟩ := initialBuildStage_ok done
  exact ⟨(CodebookUnit.initialBuild_ok well ran).continues, rfl, rfl⟩

theorem returnStages_follow : ∀ stage ∈ (returnStages cfg input).tail, FollowsCodebook stage := by
  simp only [returnStages, List.tail_cons, List.forall_mem_cons, List.not_mem_nil, false_implies,
    implies_true, and_true]
  exact ⟨followsCodebook_of_quiet fun done => (returnFromDram_keeps done).1,
    followsCodebook_of_quiet fun done => (completeDecompression_keeps done).1,
    followsCodebook_of_quiet fun done => (returnToL2_keeps done).1,
    followsCodebook_of_quiet fun done => (dramModelCycle_keeps done).1,
    followsCodebook_of_quiet fun done => (arbitrate_keeps done).1⟩

theorem compressionStages_follow : ∀ stage ∈ compressionStages cfg input, FollowsCodebook stage := by
  simp only [compressionStages, List.forall_mem_cons, List.not_mem_nil, false_implies, implies_true, and_true]
  refine ⟨followsCodebook_sampleStage, followsCodebook_initialBuildStage, ?_⟩
  exact ⟨followsCodebook_of_quiet fun done => (classify_keeps done).1,
    followsCodebook_of_quiet fun done => (translate_keeps done).1,
    followsCodebook_of_quiet fun done => (recompress_keeps done).1,
    followsCodebook_of_quiet fun done => (startCompression_keeps done).1,
    followsCodebook_of_quiet fun done => (completeCompression_keeps done).1,
    followsCodebook_of_quiet fun done => (metadataResponse_keeps done).1,
    followsCodebook_of_quiet fun done => (metadataFill_keeps done).1,
    followsCodebook_of_quiet fun done => (metadataCycle_keeps done).1,
    followsCodebook_of_quiet fun done => (metadataAccess_keeps done).1,
    followsCodebook_of_quiet fun done => (enterDramLatency_keeps done).1⟩

theorem phaseStages_follow : ∀ stage ∈ phaseStages cfg input, FollowsCodebook stage := by
  unfold phaseStages
  split
  · exact compressionStages_follow
  · simp only [samplingStages, List.forall_mem_cons, List.not_mem_nil, false_implies, implies_true, and_true]
    exact ⟨followsCodebook_sampleStage, followsCodebook_of_quiet fun done => (samplingPhase_keeps done).1⟩

/-- The stages of a call after the first. -/
def laterStages (cfg : MemoryConfig) (input : CycleInput) : List PartitionStage :=
  (returnStages cfg input).tail ++ phaseStages cfg input ++ [leaveDramLatency cfg input]

theorem laterStages_follow : ∀ stage ∈ laterStages cfg input, FollowsCodebook stage := by
  intro stage member
  rcases List.mem_append.mp member with early | last
  · rcases List.mem_append.mp early with returning | phase
    · exact returnStages_follow stage returning
    · exact phaseStages_follow stage phase
  · rw [List.mem_singleton.mp last]
    intro st next shown well done
    obtain ⟨unit, clock, -, silent⟩ := leaveDramLatency_keeps done
    refine ⟨?_, clock, List.filter_eq_nil_iff.mpr fun e member => ?_⟩
    · rw [unit]
      exact .refl well
    · simp [silent e member]

/-- The codebook's turn in a call, and how the call goes on. -/
structure Turned (unit : CodebookUnit) (cycle : Nat) (trace : List Event) (st : MemoryPartitionUnit)
    (turned : CodebookUnit) (begun : Bool) : Prop where
  cycled : unit.Cycled cycle turned begun
  continues : turned.Continues st.codebookUnit
  clock : st.clock = cycle
  events : trace.filter Event.ofCodebook =
    .called cycle :: if begun then [.rebuildStarted cycle] else []

/-- A completed call takes the codebook's turn once, before everything else. -/
theorem dramCycle_turn (well : st.codebookUnit.WellFormed) (done : dramCycle cfg input st = .ok (next, shown)) :
    ∃ turned begun, st.codebookUnit.codebookCycle input.choices cfg.fp input.cycle = .ok (turned, begun) ∧
      Turned st.codebookUnit input.cycle shown next turned begun := by
  have first : Stage.Triple (fun trace start => trace = [] ∧ start = st) (codebookStage cfg input)
      (fun trace now => ∃ turned begun,
        st.codebookUnit.codebookCycle input.choices cfg.fp input.cycle = .ok (turned, begun) ∧
          Turned st.codebookUnit input.cycle trace now turned begun)
      fun _ => True := by
    rintro trace start ⟨rfl, rfl⟩
    constructor
    · intro now seen ran
      obtain ⟨unit, begun, turn, rfl, rfl⟩ := codebookStage_ok ran
      have cycled := CodebookUnit.codebookCycle_ok well turn
      refine ⟨unit, begun, turn, cycled, .refl cycled.wellFormed, rfl, ?_⟩
      cases begun <;> rfl
    · exact fun _ _ => trivial
  have later : Stage.Triple
      (fun trace now => ∃ turned begun,
        st.codebookUnit.codebookCycle input.choices cfg.fp input.cycle = .ok (turned, begun) ∧
          Turned st.codebookUnit input.cycle trace now turned begun)
      (Stage.all (laterStages cfg input))
      (fun trace now => ∃ turned begun,
        st.codebookUnit.codebookCycle input.choices cfg.fp input.cycle = .ok (turned, begun) ∧
          Turned st.codebookUnit input.cycle trace now turned begun)
      fun _ => True := by
    apply Stage.Triple.all
    rintro stage member trace now ⟨turned, begun, turn, before⟩
    constructor
    · intro after seen ran
      obtain ⟨continues, clock, silent⟩ := laterStages_follow stage member before.continues.wellFormed ran
      refine ⟨turned, begun, turn, before.cycled, before.continues.trans continues,
        clock.trans before.clock, ?_⟩
      rw [List.filter_append, silent, List.append_nil, before.events]
    · exact fun _ _ => trivial
  exact ((first.andThen later) [] st ⟨rfl, rfl⟩).1 next shown done

theorem dramCycle_turned (well : st.codebookUnit.WellFormed) (done : dramCycle cfg input st = .ok (next, shown)) :
    ∃ turned begun, Turned st.codebookUnit input.cycle shown next turned begun := by
  obtain ⟨turned, begun, -, turn⟩ := dramCycle_turn well done
  exact ⟨turned, begun, turn⟩

end MemoryPartitionUnit

end GpgpuSim.Partition
