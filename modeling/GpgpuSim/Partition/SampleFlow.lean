import GpgpuSim.Partition.CodebookCycle
import GpgpuSim.Partition.Schedules

/-! Where sampled symbols go. A pending rebuild keeps the table and the codes as they
were when it was started; the queue holds what was sampled in the meantime. -/
namespace GpgpuSim.Partition
open GpgpuSim.Huffman GpgpuSim.Memory GpgpuSim.Cache Containers Transition

/-- What a partition does to its frequency table. -/
inductive TableChange
  | applied (symbol : Nat)
  | aged
  deriving DecidableEq, Repr

inductive TableChanged : FrequencyValueTable → List TableChange → FrequencyValueTable → Prop
  | applied {table : FrequencyValueTable} (ascending : Sorter lessFrequent) (symbol : Nat) :
      TableChanged table [.applied symbol] (table.updateFrequency ascending symbol).1
  | aged {table : FrequencyValueTable} : TableChanged table [.aged] (table.scaleDown 2)

/-- The symbols a history counts, in its order. -/
def appliedSymbols (history : List TableChange) : List Nat :=
  history.filterMap fun
    | .applied symbol => some symbol
    | .aged => none

@[simp] theorem appliedSymbols_append (history later : List TableChange) :
    appliedSymbols (history ++ later) = appliedSymbols history ++ appliedSymbols later :=
  List.filterMap_append

@[simp] theorem appliedSymbols_map (symbols : List Nat) :
    appliedSymbols (symbols.map .applied) = symbols := by
  induction symbols with
  | nil => rfl
  | cons symbol symbols ih => exact congrArg (symbol :: ·) ih

namespace CodebookUnit

variable {choices : Choices} {fp : FloatArithmetic} {unit next : CodebookUnit} {cycle : Nat}
  {method : CodebookBuildMethod} {accepted more : List Nat}

/-- Symbols enter the queue at its back and leave it at its front, each counted once when it leaves. -/
def Flows (unit : CodebookUnit) (accepted : List Nat) (next : CodebookUnit) : Prop :=
  ∃ history, Reaches TableChanged unit.codebook.freqTable history next.codebook.freqTable ∧
    unit.samplingSymbolFifo ++ accepted = appliedSymbols history ++ next.samplingSymbolFifo

theorem Flows.of_same (table : next.codebook.freqTable = unit.codebook.freqTable)
    (fifo : next.samplingSymbolFifo = unit.samplingSymbolFifo ++ accepted) : Flows unit accepted next :=
  ⟨[], table ▸ .refl, fifo.symm⟩

theorem Flows.trans {middle : CodebookUnit} (early : Flows unit accepted middle)
    (late : Flows middle more next) : Flows unit (accepted ++ more) next := by
  obtain ⟨history, changes, entered⟩ := early
  obtain ⟨later, others, left⟩ := late
  refine ⟨history ++ later, changes.append others, ?_⟩
  rw [← List.append_assoc, entered, List.append_assoc, left, appliedSymbols_append, List.append_assoc]

theorem SameCodebook.flows (same : SameCodebook next unit) : Flows unit [] next :=
  .of_same (congrArg _ same.codebook) (by rw [same.samplingSymbolFifo, List.append_nil])

/-! ## The functions of the unit -/

/-- The loop pops at most `count` symbols and counts them in their order. -/
theorem drainSamples_flows (choices : Choices) (count : Nat) (table : FrequencyValueTable) (fifo : List Nat) :
    Reaches TableChanged table ((fifo.take count).map TableChange.applied) (drainSamples choices count table fifo).1 ∧
      (drainSamples choices count table fifo).2 = fifo.drop count := by
  induction count generalizing table fifo with
  | zero => exact ⟨.refl, rfl⟩
  | succ count ih =>
      cases fifo with
      | nil => exact ⟨.refl, rfl⟩
      | cons symbol fifo =>
          obtain ⟨changes, rest⟩ := ih (table.updateFrequency choices.ascending symbol).1 fifo
          have first : Reaches TableChanged table [.applied symbol] _ :=
            Reaches.refl.next (.applied choices.ascending symbol)
          exact ⟨first.append changes, rest⟩

theorem samplingCycle_flows (choices : Choices) (unit : CodebookUnit) :
    Flows unit [] (unit.samplingCycle choices) := by
  unfold samplingCycle
  split
  · exact .of_same rfl (List.append_nil _).symm
  · obtain ⟨changes, rest⟩ := drainSamples_flows choices samplingSymbolUpdatesPerCycle
      unit.codebook.freqTable unit.samplingSymbolFifo
    refine ⟨_, changes, ?_⟩
    dsimp only
    rw [rest, appliedSymbols_map, List.append_nil, List.take_append_drop]

theorem samplingCycle_maxCodeLength (choices : Choices) (unit : CodebookUnit) :
    (unit.samplingCycle choices).codebook.maxCodeLength = unit.codebook.maxCodeLength := by
  unfold samplingCycle
  split <;> rfl

/-- A pending rebuild stops the counting. -/
theorem samplingCycle_pending (active : unit.pendingRebuild.active = true) :
    unit.samplingCycle choices = unit := if_pos active

theorem rebuild_flows {done : Bool} (well : unit.WellFormed)
    (ran : unit.rebuildCodebookAndAgeSamples choices fp cycle method = .ok (next, done)) :
    Flows unit [] next := by
  have final : 0 < unit.codebook.freqTable.finalTableSize := by
    rw [well.finalTableSize]
    decide
  rcases rebuild_ok final ran with ⟨-, -, rfl⟩ | ⟨-, good⟩
  · exact .of_same rfl (List.append_nil _).symm
  · refine ⟨[.aged], ?_, ?_⟩
    · rw [good.freqTable]
      exact Reaches.refl.next .aged
    · rw [good.samplingSymbolFifo, List.append_nil]
      rfl

theorem complete_flows (well : unit.WellFormed)
    (ran : unit.completeDynamicCodebookRebuildIfReady choices fp cycle = .ok next) : Flows unit [] next := by
  unfold completeDynamicCodebookRebuildIfReady at ran
  split at ran
  · cases ran
    exact .of_same rfl (List.append_nil _).symm
  · obtain ⟨⟨rebuilt, done⟩, rebuilding, ran⟩ := bind_ok.mp ran
    have flows := rebuild_flows well rebuilding
    cases done <;> (cases ran; exact flows)

theorem initialBuild_flows (well : unit.WellFormed) (ran : unit.initialBuild choices fp cycle = .ok next) :
    Flows unit [] next := by
  unfold initialBuild at ran
  split at ran
  · cases ran
    exact .of_same rfl (List.append_nil _).symm
  · obtain ⟨⟨rebuilt, done⟩, rebuilding, ran⟩ := bind_ok.mp ran
    have flows := rebuild_flows well rebuilding
    cases done <;> (cases ran; exact flows)

theorem startAtBoundary_flows (unit : CodebookUnit) (cycle : Nat) :
    Flows unit [] (unit.startAtBoundary cycle).1 := by
  unfold startAtBoundary startDynamicCodebookRebuild
  dsimp only
  split
  · split <;> exact .of_same rfl (List.append_nil _).symm
  · exact .of_same rfl (List.append_nil _).symm

theorem codebookCycle_flows {begun : Bool} (well : unit.WellFormed)
    (ran : unit.codebookCycle choices fp cycle = .ok (next, begun)) : Flows unit [] next := by
  obtain ⟨completed, completing, ran⟩ := bind_ok.mp ran
  cases ran
  have started : (unit.startAtBoundary cycle).1.WellFormed := by
    rcases startAtBoundary_cases well cycle with ⟨-, -, pending, -, -, eq, kept⟩ | ⟨-, eq, -⟩
    · rw [eq]
      exact kept
    · rw [eq]
      exact well
  exact ((startAtBoundary_flows unit cycle).trans (complete_flows started completing)).trans
    (samplingCycle_flows choices completed)

variable {begun : Bool}

/-! ## A pending rebuild -/

/-- A rebuild that starts is not ready yet, and nothing is counted from here on. -/
theorem codebookCycle_begun (ran : unit.codebookCycle choices fp cycle = .ok (next, true)) :
    next = { unit with pendingRebuild :=
      ⟨true, cycle, cycle + codebookRebuildDelay, selectedCodebookBuildMethod⟩ } := by
  obtain ⟨completed, completing, ran⟩ := bind_ok.mp ran
  obtain ⟨rfl, started⟩ := Prod.mk.inj (pure_ok.mp ran)
  have begins : (unit.startAtBoundary cycle).1 = { unit with pendingRebuild :=
      ⟨true, cycle, cycle + codebookRebuildDelay, selectedCodebookBuildMethod⟩ } := by
    unfold startAtBoundary startDynamicCodebookRebuild at started ⊢
    dsimp only at started ⊢
    split at started
    · split at started
      · contradiction
      · rw [if_pos ‹_›, if_neg ‹_›]
    · contradiction
  have early : ¬cycle + codebookRebuildDelay ≤ cycle := by simp [codebookRebuildDelay, huffmanTableSize]
  rw [begins] at completing
  unfold completeDynamicCodebookRebuildIfReady at completing
  simp only [Bool.not_true, Bool.false_or, decide_eq_true_eq] at completing
  rw [if_pos (not_le.mp early)] at completing
  obtain rfl := pure_ok.mp completing
  exact samplingCycle_pending rfl

theorem startAtBoundary_active (active : unit.pendingRebuild.active = true) (cycle : Nat) :
    unit.startAtBoundary cycle = (unit, false) := by
  simp [startAtBoundary, startDynamicCodebookRebuild, active]

/-- What a completed rebuild installs: the codes of a build from the table of this unit. -/
structure Installs (choices : Choices) (fp : FloatArithmetic) (method : CodebookBuildMethod)
    (before after : HuffmanCodebook) : Prop where
  built : ∃ built count, before.generateCodebook choices fp method = .ok (built, count) ∧
    after.codes = built.codes ∧ after.maxCodeLength = built.maxCodeLength

theorem rebuild_installs {method : CodebookBuildMethod} {done : Bool}
    (ran : unit.rebuildCodebookAndAgeSamples choices fp cycle method = .ok (next, done)) :
    Installs choices fp method unit.codebook next.codebook := by
  obtain ⟨⟨built, count⟩, generated, ran⟩ := bind_ok.mp ran
  dsimp only at ran
  split at ran
  · obtain ⟨rfl, -⟩ := Prod.mk.inj (pure_ok.mp ran)
    exact ⟨built, count, generated, rfl, rfl⟩
  · obtain ⟨rfl, -⟩ := Prod.mk.inj (pure_ok.mp ran)
    exact ⟨built, count, generated, rfl, rfl⟩

/-- While a rebuild is pending a turn changes nothing; the turn that finds it ready installs the codes
of the table as it is. -/
theorem codebookCycle_pending (active : unit.pendingRebuild.active = true)
    (ran : unit.codebookCycle choices fp cycle = .ok (next, begun)) :
    begun = false ∧
      ((cycle < unit.pendingRebuild.readyCycle ∧ next = unit) ∨
        (unit.pendingRebuild.readyCycle ≤ cycle ∧ next.pendingRebuild.active = false ∧
          Installs choices fp unit.pendingRebuild.method unit.codebook next.codebook)) := by
  obtain ⟨completed, completing, ran⟩ := bind_ok.mp ran
  obtain ⟨rfl, rfl⟩ := Prod.mk.inj (pure_ok.mp ran)
  rw [startAtBoundary_active active] at completing ⊢
  refine ⟨rfl, ?_⟩
  unfold completeDynamicCodebookRebuildIfReady at completing
  simp only [active, Bool.not_true, Bool.false_or, decide_eq_true_eq] at completing
  split at completing
  · obtain rfl := pure_ok.mp completing
    exact .inl ⟨‹_›, samplingCycle_pending active⟩
  · right
    obtain ⟨⟨rebuilt, done⟩, rebuilding, finish⟩ := bind_ok.mp completing
    obtain ⟨built, count, generated, codes, longest⟩ := rebuild_installs rebuilding
    obtain ⟨-, pending, codes_kept, -⟩ := samplingCycle_keeps choices completed
    have longest_kept := samplingCycle_maxCodeLength choices completed
    dsimp only at finish
    split at finish <;> obtain rfl := pure_ok.mp finish <;>
    exact ⟨not_lt.mp ‹_›, by rw [pending], built, count, generated, codes_kept.trans codes,
      longest_kept.trans longest⟩

end CodebookUnit

namespace MemoryPartitionUnit

variable {cfg : MemoryConfig} {input : CycleInput} {trace shown : List Event} {accepted more : List Nat}
  {st next : MemoryPartitionUnit} {turned : CodebookUnit} {begun : Bool}

/-! ## A call -/

/-- What happens to the queue after the codebook's turn: symbols are only added. -/
structure Grows (unit : CodebookUnit) (accepted : List Nat) (next : CodebookUnit) : Prop where
  flows : unit.Flows accepted next
  fifo : next.samplingSymbolFifo = unit.samplingSymbolFifo ++ accepted

theorem Grows.trans {a b c : CodebookUnit} (ab : Grows a accepted b) (bc : Grows b more c) :
    Grows a (accepted ++ more) c :=
  ⟨ab.flows.trans bc.flows, by rw [bc.fifo, ab.fifo, List.append_assoc]⟩

theorem Grows.of_same {unit next : CodebookUnit} (same : next.SameCodebook unit) : Grows unit [] next :=
  ⟨same.flows, by rw [same.samplingSymbolFifo, List.append_nil]⟩

/-- A stage that leaves the codebook alone, its statistics aside. -/
def KeepsCodebook (stage : PartitionStage) : Prop :=
  ∀ {st next shown}, stage st = .ok (next, shown) → next.codebookUnit.SameCodebook st.codebookUnit

theorem returnStages_keep : ∀ stage ∈ (returnStages cfg input).tail, KeepsCodebook stage := by
  simp only [returnStages, List.tail_cons, List.forall_mem_cons, List.not_mem_nil, false_implies,
    implies_true, and_true]
  exact ⟨fun done => (returnFromDram_keeps done).1.codebookUnit,
    fun done => (completeDecompression_keeps done).1.codebookUnit,
    fun done => (returnToL2_keeps done).1.codebookUnit,
    fun done => (dramModelCycle_keeps done).1.codebookUnit,
    fun done => (arbitrate_keeps done).1.codebookUnit⟩

/-- The stages of a call behind the sampling. -/
def afterSampling (cfg : MemoryConfig) (input : CycleInput) : List PartitionStage :=
  (phaseStages cfg input).tail ++ [leaveDramLatency cfg input]

theorem dramCycle_eq : dramCycle cfg input =
    Stage.all (returnStages cfg input ++ sampleStage cfg input :: afterSampling cfg input) := by
  have phase : phaseStages cfg input = sampleStage cfg input :: (phaseStages cfg input).tail := by
    unfold phaseStages
    split <;> rfl
  rw [dramCycle, afterSampling, List.append_assoc, phase]
  rfl

theorem phaseStages_keep : ∀ stage ∈ (phaseStages cfg input).tail,
    stage = initialBuildStage cfg input ∨ KeepsCodebook stage := by
  unfold phaseStages
  split
  · simp only [compressionStages, List.tail_cons, List.forall_mem_cons, List.not_mem_nil, false_implies,
      implies_true, and_true]
    exact ⟨.inl trivial,
      .inr fun done => (classify_keeps done).1.codebookUnit,
      .inr fun done => (translate_keeps done).1.codebookUnit,
      .inr fun done => (recompress_keeps done).1.codebookUnit,
      .inr fun done => (startCompression_keeps done).1.codebookUnit,
      .inr fun done => (completeCompression_keeps done).1.codebookUnit,
      .inr fun done => (metadataResponse_keeps done).1.codebookUnit,
      .inr fun done => (metadataFill_keeps done).1.codebookUnit,
      .inr fun done => (metadataCycle_keeps done).1.codebookUnit,
      .inr fun done => (metadataAccess_keeps done).1.codebookUnit,
      .inr fun done => (enterDramLatency_keeps done).1.codebookUnit⟩
  · simp only [samplingStages, List.tail_cons, List.forall_mem_cons, List.not_mem_nil, false_implies,
      implies_true, and_true]
    exact .inr fun done => (samplingPhase_keeps done).1.codebookUnit

theorem afterSampling_keep :
    ∀ stage ∈ afterSampling cfg input, stage = initialBuildStage cfg input ∨ KeepsCodebook stage := by
  intro stage member
  rcases List.mem_append.mp member with phase | leaving
  · exact phaseStages_keep stage phase
  · right
    rw [List.mem_singleton.mp leaving]
    intro st next shown done
    obtain ⟨unit, -, -, -⟩ := leaveDramLatency_keeps done
    rw [unit]
    exact .refl _

theorem grows_of_keeps {stage : PartitionStage} (well : st.codebookUnit.WellFormed)
    (keeps : stage = initialBuildStage cfg input ∨ KeepsCodebook stage) (ran : stage st = .ok (next, shown)) :
    Grows st.codebookUnit [] next.codebookUnit ∧ next.codebookUnit.WellFormed := by
  rcases keeps with rfl | keeps
  · obtain ⟨unit, building, rfl, -⟩ := initialBuildStage_ok ran
    have attempted := CodebookUnit.initialBuild_ok well building
    exact ⟨⟨CodebookUnit.initialBuild_flows well building,
      by rw [attempted.samplingSymbolFifo, List.append_nil]⟩, attempted.wellFormed⟩
  · exact ⟨.of_same (keeps ran), (keeps ran).wellFormed well⟩

/-- The symbols that `enqueue_sampled_symbols` appends in this call. -/
def acceptedSymbols (cfg : MemoryConfig) (input : CycleInput) (st : MemoryPartitionUnit) : List Nat :=
  match Stage.all (returnStages cfg input) st with
  | .error _ => []
  | .ok (issued, _) =>
      let sampled := issued.codebookUnit.enqueueSampledSymbols cfg.blockAddr input.memory input.cycle
        (issued.mfToBeClassified.map issued.request)
      sampled.samplingSymbolFifo.drop issued.codebookUnit.samplingSymbolFifo.length

theorem sampleStage_grows (done : sampleStage cfg input st = .ok (next, shown)) :
    Grows st.codebookUnit ((st.codebookUnit.enqueueSampledSymbols cfg.blockAddr input.memory input.cycle
      (st.mfToBeClassified.map st.request)).samplingSymbolFifo.drop st.codebookUnit.samplingSymbolFifo.length)
      next.codebookUnit := by
  cases done
  obtain ⟨sampled, eq, -⟩ := st.codebookUnit.enqueueSampledSymbols_eq cfg.blockAddr input.memory
    input.cycle (st.mfToBeClassified.map st.request)
  dsimp only
  rw [eq, List.drop_left]
  exact ⟨.of_same rfl rfl, rfl⟩

/-- After the codebook's turn a call only samples. -/
theorem dramCycle_grows (well : st.codebookUnit.WellFormed)
    (turn : st.codebookUnit.codebookCycle input.choices cfg.fp input.cycle = .ok (turned, begun))
    (done : dramCycle cfg input st = .ok (next, shown)) :
    Grows turned (acceptedSymbols cfg input st) next.codebookUnit := by
  rw [dramCycle_eq] at done
  obtain ⟨issued, early, late, returned, rest, -⟩ := Stage.all_append.mp done
  obtain ⟨sampled, _, _, sampling, rest, -⟩ := Stage.andThen_ok.mp rest
  obtain ⟨first, _, _, cycled, returning, -⟩ := Stage.andThen_ok.mp
    (show (codebookStage cfg input).andThen (Stage.all (returnStages cfg input).tail) st = _ from returned)
  obtain ⟨unit, started, turn', rfl, -⟩ := codebookStage_ok cycled
  obtain ⟨rfl, -⟩ := Prod.mk.inj (Except.ok.inj (turn'.symm.trans turn))
  have turnedWell := (CodebookUnit.codebookCycle_ok well turn).wellFormed
  have refl : ∀ s : MemoryPartitionUnit, Grows s.codebookUnit [] s.codebookUnit := fun s => .of_same (.refl _)
  obtain ⟨before, issuedWell⟩ := Stage.all_relates (I := fun s => s.codebookUnit.WellFormed)
    (R := fun s t => Grows s.codebookUnit [] t.codebookUnit) refl Grows.trans
    (fun stage member _ _ _ well ran => @grows_of_keeps cfg input _ _ _ stage well
      (.inr (returnStages_keep stage member)) ran) turnedWell returning
  have sampledWell := (followsCodebook_sampleStage issuedWell sampling).1.wellFormed
  obtain ⟨after, -⟩ := Stage.all_relates (I := fun s => s.codebookUnit.WellFormed)
    (R := fun s t => Grows s.codebookUnit [] t.codebookUnit) refl Grows.trans
    (fun stage member _ _ _ well ran => grows_of_keeps well (afterSampling_keep stage member) ran) sampledWell rest
  have whole := (before.trans (sampleStage_grows sampling)).trans after
  rw [List.nil_append, List.append_nil] at whole
  simpa only [acceptedSymbols, returned] using whole

variable {started mid : MemoryPartitionUnit}

/-! ## Runs -/

/-- The steps of a partition, labelled with the symbols they accept into the queue. -/
inductive SampledStep (cfg : MemoryConfig) (st : MemoryPartitionUnit) :
    List Nat → MemoryPartitionUnit → Prop
  | call (input : CycleInput) {next : MemoryPartitionUnit} {shown : List Event}
      (later : st.clock ≤ input.cycle) (done : dramCycle cfg input st = .ok (next, shown)) :
      SampledStep cfg st (acceptedSymbols cfg input st) next
  | handOver (spid : Nat) (mf : MemFetch) (here : spid < cfg.nSubPartition)
      (owned : mf.subPartitionId = cfg.id * cfg.nSubPartition + spid) (fresh : mf.Fresh) :
      SampledStep cfg st [] (st.handOver spid mf)
  | collect (spid : Nat) (mf : MfId) (rest : List MfId) (front : st.dramL2 spid = mf :: rest) :
      SampledStep cfg st [] { st with dramL2 := Function.update st.dramL2 spid rest }

abbrev SampledRun (cfg : MemoryConfig) (accepted : List Nat) (st : MemoryPartitionUnit) : Prop :=
  Reaches (SampledStep cfg) (create cfg) accepted st

/-- The steps that leave a rebuild pending. -/
def PendingStep (cfg : MemoryConfig) (st : MemoryPartitionUnit) (accepted : List Nat)
    (next : MemoryPartitionUnit) : Prop :=
  SampledStep cfg st accepted next ∧ next.codebookUnit.pendingRebuild.active = true

theorem sampledStep_of_step (step : Step cfg (fun _ => True) st shown next) :
    ∃ accepted, SampledStep cfg st accepted next := by
  cases step with
  | call input later done => exact ⟨_, .call input later done⟩
  | handOver spid mf here owned fresh admits => exact ⟨[], .handOver spid mf here owned fresh⟩
  | collect spid mf rest front => exact ⟨[], .collect spid mf rest front⟩

/-- Every run accepts some symbols. -/
theorem Run.sampled (run : Run cfg trace st) : ∃ accepted, SampledRun cfg accepted st := by
  induction run with
  | refl => exact ⟨[], .refl⟩
  | next run step ih =>
      obtain ⟨accepted, sampled⟩ := ih
      obtain ⟨more, stepped⟩ := sampledStep_of_step step
      exact ⟨accepted ++ more, sampled.next stepped⟩

theorem SampledStep.wellFormed (step : SampledStep cfg st accepted next)
    (well : st.codebookUnit.WellFormed) : next.codebookUnit.WellFormed := by
  cases step with
  | call input later done =>
      obtain ⟨turned, begun, turn⟩ := dramCycle_turned well done
      exact turn.continues.wellFormed
  | handOver spid mf here owned fresh => exact well
  | collect spid mf rest front => exact well

theorem SampledStep.flows (step : SampledStep cfg st accepted next) (well : st.codebookUnit.WellFormed) :
    st.codebookUnit.Flows accepted next.codebookUnit := by
  cases step with
  | call input later done =>
      obtain ⟨turned, begun, turn, -⟩ := dramCycle_turn well done
      exact (CodebookUnit.codebookCycle_flows well turn).trans (dramCycle_grows well turn done).flows
  | handOver spid mf here owned fresh => exact .of_same rfl (List.append_nil _).symm
  | collect spid mf rest front => exact .of_same rfl (List.append_nil _).symm

theorem SampledRun.flows (run : SampledRun cfg accepted st) :
    st.codebookUnit.WellFormed ∧ CodebookUnit.create.Flows accepted st.codebookUnit := by
  induction run with
  | refl => exact ⟨.create, .of_same rfl rfl⟩
  | next _ step ih =>
      obtain ⟨well, flows⟩ := ih
      exact ⟨step.wellFormed well, flows.trans (step.flows well)⟩

/-- What stays the same until a rebuild completes. -/
structure Frozen (unit : CodebookUnit) (cycle : Nat) (accepted : List Nat) (now : CodebookUnit) : Prop where
  wellFormed : now.WellFormed
  pending : now.pendingRebuild = ⟨true, cycle, cycle + codebookRebuildDelay, selectedCodebookBuildMethod⟩
  codebook : now.codebook = unit.codebook
  fifo : now.samplingSymbolFifo = unit.samplingSymbolFifo ++ accepted

theorem Frozen.enabled {unit now : CodebookUnit} {cycle : Nat} (frozen : Frozen unit cycle accepted now) :
    now.huffmanEnabled = true := frozen.wellFormed.pending (by rw [frozen.pending])

/-- The call that starts a rebuild. -/
theorem Frozen.start (well : st.codebookUnit.WellFormed)
    (done : dramCycle cfg input st = .ok (started, shown)) (begins : .rebuildStarted input.cycle ∈ shown) :
    Frozen st.codebookUnit input.cycle (acceptedSymbols cfg input st) started.codebookUnit := by
  obtain ⟨turned, begun, turn, turning⟩ := dramCycle_turn well done
  have grows := dramCycle_grows well turn done
  have begun_true : begun = true := by
    have member : .rebuildStarted input.cycle ∈ shown.filter Event.ofCodebook :=
      List.mem_filter.mpr ⟨begins, rfl⟩
    rw [turning.events] at member
    cases begun with
    | false => simp at member
    | true => rfl
  subst begun_true
  obtain rfl := CodebookUnit.codebookCycle_begun turn
  have on := turning.cycled.wellFormed.pending rfl
  exact ⟨turning.continues.wellFormed, turning.continues.pendingRebuild, (turning.continues.enabled on).2,
    grows.fifo⟩

/-- A call while the rebuild is pending: nothing changes before the rebuild is ready, and then the codes
of the frozen table are installed. -/
theorem Frozen.call {unit : CodebookUnit} {cycle : Nat} (frozen : Frozen unit cycle accepted mid.codebookUnit)
    (done : dramCycle cfg input mid = .ok (next, shown)) :
    (input.cycle < cycle + codebookRebuildDelay ∧
        Frozen unit cycle (accepted ++ acceptedSymbols cfg input mid) next.codebookUnit) ∨
      (cycle + codebookRebuildDelay ≤ input.cycle ∧ next.codebookUnit.pendingRebuild.active = false ∧
        CodebookUnit.Installs input.choices cfg.fp selectedCodebookBuildMethod unit.codebook
          next.codebookUnit.codebook) := by
  obtain ⟨turned, begun, turn, turning⟩ := dramCycle_turn frozen.wellFormed done
  have grows := dramCycle_grows frozen.wellFormed turn done
  have active : mid.codebookUnit.pendingRebuild.active = true := by rw [frozen.pending]
  have kept := turning.continues.enabled (turning.cycled.huffmanEnabled.trans frozen.enabled)
  obtain ⟨-, waits | ⟨ready, idle, installs⟩⟩ := CodebookUnit.codebookCycle_pending active turn
  · obtain ⟨early, rfl⟩ := waits
    rw [frozen.pending] at early
    refine .inl ⟨early, turning.continues.wellFormed, ?_, kept.2.trans frozen.codebook, ?_⟩
    · exact turning.continues.pendingRebuild.trans frozen.pending
    · rw [grows.fifo, frozen.fifo, List.append_assoc]
  · rw [frozen.pending] at ready installs
    rw [frozen.codebook] at installs
    refine .inr ⟨ready, ?_, ?_⟩
    · rw [turning.continues.pendingRebuild, idle]
    · rw [kept.2]
      exact installs

theorem Frozen.run {unit : CodebookUnit} {cycle : Nat} (frozen : Frozen unit cycle accepted started.codebookUnit)
    (waiting : Reaches (PendingStep cfg) started more mid) :
    Frozen unit cycle (accepted ++ more) mid.codebookUnit := by
  induction waiting with
  | refl => rwa [List.append_nil]
  | next _ step ih =>
      obtain ⟨step, active⟩ := step
      rw [← List.append_assoc]
      cases step with
      | call input later done =>
          rcases ih.call done with ⟨-, still⟩ | ⟨-, idle, -⟩
          · exact still
          · rw [idle] at active
            contradiction
      | handOver spid mf here owned fresh =>
          rw [List.append_nil]
          exact ih
      | collect spid mf rest front =>
          rw [List.append_nil]
          exact ih

end MemoryPartitionUnit

end GpgpuSim.Partition
