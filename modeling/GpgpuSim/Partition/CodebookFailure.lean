import GpgpuSim.Partition.CodebookCycle
import GpgpuSim.Partition.Schedules

/-! Rebuilds that find no symbol. The codes are cleared before the frequencies are
looked at, so such a rebuild fails and leaves an enabled codebook without codes. -/
namespace GpgpuSim.Partition
open GpgpuSim.Huffman GpgpuSim.Memory GpgpuSim.Cache Transition

namespace CodebookUnit

/-- The codebook with its frequency table and the intervals are as before. -/
def Untouched (unit next : CodebookUnit) : Prop :=
  next.codebook = unit.codebook ∧ next.intervalCompressionStats = unit.intervalCompressionStats ∧
    next.intervalCodebookSnapshots = unit.intervalCodebookSnapshots

/-- If the rebuild returns false, then nothing has changed. -/
def FailureKeeps (choices : Choices) (fp : FloatArithmetic) (unit : CodebookUnit) (cycle : Nat)
    (method : CodebookBuildMethod) : Prop :=
  ∀ next, unit.rebuildCodebookAndAgeSamples choices fp cycle method = .ok (next, false) →
    unit.Untouched next

variable {choices : Choices} {fp : FloatArithmetic} {unit : CodebookUnit} {cycle : Nat} {method : CodebookBuildMethod}

/-- A failure keeps the codes exactly if there are none. -/
theorem failureKeeps_iff (well : unit.WellFormed) :
    unit.FailureKeeps choices fp cycle method ↔
      unit.codebook.freqTable.pairs ≠ [] ∨ (unit.codebook.codes = ∅ ∧ unit.codebook.maxCodeLength = 0) := by
  have final : 0 < unit.codebook.freqTable.finalTableSize := by
    rw [well.finalTableSize]
    decide
  constructor
  · intro keeps
    by_cases empty : unit.codebook.freqTable.pairs = []
    · right
      have same := (keeps _ (rebuild_empty final empty)).1
      exact ⟨congrArg HuffmanCodebook.codes same.symm, congrArg HuffmanCodebook.maxCodeLength same.symm⟩
    · exact .inl empty
  · intro condition next ran
    rcases rebuild_ok final ran with ⟨-, empty, rfl⟩ | ⟨yes, -⟩
    · obtain ⟨codes, maxCodeLength⟩ := condition.resolve_left (fun some => some empty)
      refine ⟨?_, rfl, rfl⟩
      rw [HuffmanCodebook.clearCodes, ← codes, ← maxCodeLength]
    · contradiction

end CodebookUnit

namespace MemoryPartitionUnit

variable {cfg : MemoryConfig} {input : CycleInput} {trace shown : List Event} {st next : MemoryPartitionUnit}

/-- A step in which a due rebuild has symbols. -/
def SteadyStep (cfg : MemoryConfig) (st : MemoryPartitionUnit) (shown : List Event)
    (next : MemoryPartitionUnit) : Prop :=
  Step cfg (fun _ => True) st shown next ∧
    ∀ cycle, .called cycle ∈ shown → st.codebookUnit.FindsSymbols cycle

/-- The runs in which every due rebuild has symbols. -/
abbrev SteadyRun (cfg : MemoryConfig) (trace : List Event) (st : MemoryPartitionUnit) : Prop :=
  Reaches (SteadyStep cfg) (create cfg) trace st

theorem SteadyRun.run (steady : SteadyRun cfg trace st) : Run cfg trace st := by
  apply Reaches.mono _ steady
  exact fun step => step.1

theorem Run.wellFormed (run : Run cfg trace st) : st.codebookUnit.WellFormed := run.accounted.wellFormed

/-- Events of the codebook in a completed call. -/
theorem called_of_dramCycle (well : st.codebookUnit.WellFormed)
    (done : dramCycle cfg input st = .ok (next, shown)) : .called input.cycle ∈ shown := by
  obtain ⟨turned, begun, turn⟩ := dramCycle_turned well done
  have first : .called input.cycle ∈ shown.filter Event.ofCodebook := by
    rw [turn.events]
    exact List.mem_cons_self
  exact List.mem_of_mem_filter first

/-- A call with an enabled codebook leaves codes in it exactly if a due rebuild has symbols. -/
theorem dramCycle_codes_iff (well : st.codebookUnit.WellFormed) (enabled : st.codebookUnit.huffmanEnabled = true)
    (some : st.codebookUnit.codebook.size ≠ 0) (done : dramCycle cfg input st = .ok (next, shown)) :
    next.codebookUnit.codebook.size ≠ 0 ↔ st.codebookUnit.FindsSymbols input.cycle := by
  obtain ⟨turned, begun, turn⟩ := dramCycle_turned well done
  have on := turn.cycled.huffmanEnabled.trans enabled
  rw [(turn.continues.enabled on).2]
  exact turn.cycled.codes some

theorem SteadyRun.codes (steady : SteadyRun cfg trace st) (enabled : st.codebookUnit.huffmanEnabled = true) :
    st.codebookUnit.codebook.size ≠ 0 := by
  revert enabled
  apply steady.invariant (P := fun _ st => st.codebookUnit.huffmanEnabled = true →
    st.codebookUnit.codebook.size ≠ 0)
  · intro on
    contradiction
  · intro trace st shown next before codes step on
    obtain ⟨step, finds⟩ := step
    cases step with
    | call input later done =>
        have well := (SteadyRun.run before).wellFormed
        cases was : st.codebookUnit.huffmanEnabled with
        | true =>
            apply (dramCycle_codes_iff well was (codes was) done).mpr
            exact finds input.cycle (called_of_dramCycle well done)
        | false =>
            obtain ⟨turned, begun, turn⟩ := dramCycle_turned well done
            exact turn.continues.codes (turn.cycled.huffmanEnabled.trans was) on
    | handOver spid mf here owned fresh admits => exact codes on
    | collect spid mf rest front => exact codes on

/-- Before the first build no rebuild is pending, so none can fail. -/
theorem Run.steady_of_disabled (run : Run cfg trace st) (off : st.codebookUnit.huffmanEnabled = false) :
    SteadyRun cfg trace st := by
  induction run with
  | refl => exact .refl
  | @next trace shown st next run step ih =>
      have well := Run.wellFormed run
      have before : st.codebookUnit.huffmanEnabled = false := by
        cases step with
        | call input later done =>
            obtain ⟨turned, begun, turn⟩ := dramCycle_turned well done
            cases was : st.codebookUnit.huffmanEnabled with
            | false => rfl
            | true =>
                rw [(turn.continues.enabled (turn.cycled.huffmanEnabled.trans was)).1] at off
                contradiction
        | handOver spid mf here owned fresh admits => exact off
        | collect spid mf rest front => exact off
      refine (ih before).next ⟨step, fun cycle _ due => ?_⟩
      rw [well.pending due.1] at before
      contradiction

/-! ## Every state and every run -/

/-- In a reachable state a failed rebuild keeps the codebook exactly if the table has
symbols or there are no codes to lose, whatever the method. In runs whose due
rebuilds have symbols an enabled codebook has codes, and the next call keeps codes
in it exactly if it meets this condition too. -/
theorem failed_rebuild_keeps_codebook (run : Run cfg trace st) :
    (∀ choices fp cycle method, st.codebookUnit.FailureKeeps choices fp cycle method ↔
      st.codebookUnit.codebook.freqTable.pairs ≠ [] ∨
        (st.codebookUnit.codebook.codes = ∅ ∧ st.codebookUnit.codebook.maxCodeLength = 0)) ∧
    (SteadyRun cfg trace st → st.codebookUnit.huffmanEnabled = true →
      st.codebookUnit.codebook.size ≠ 0 ∧
      ∀ input next shown, dramCycle cfg input st = .ok (next, shown) →
        (next.codebookUnit.codebook.size ≠ 0 ↔ st.codebookUnit.FindsSymbols input.cycle)) := by
  constructor
  · exact fun choices fp cycle method => CodebookUnit.failureKeeps_iff run.wellFormed
  · intro steady enabled
    have codes := steady.codes enabled
    exact ⟨codes, fun input next shown done => dramCycle_codes_iff run.wellFormed enabled codes done⟩

/-- The first call of the compression phase builds a codebook, and no rebuild was due. -/
theorem failed_rebuild_keeps_codebook_at_first_build :
    ∃ trace st, SteadyRun small trace st ∧ st.codebookUnit.huffmanEnabled = true ∧
      st.codebookUnit.codebook.size ≠ 0 := by
  obtain ⟨trace, st, run, found⟩ := reaches_of_arrives (show arrives small
    [.handOver 0 (plainRequest .globalAccR 0 128), .call (idleCall 14990)] (create small)
      (fun _ st => !st.codebookUnit.huffmanEnabled && decide (st.clock ≤ 15000) &&
        succeedsWith (dramCycle small (idleCall 15000) st) fun cycled => cycled.1.codebookUnit.huffmanEnabled) = true by
      decide +kernel)
  have run := AtomicFreeRun.run run
  simp only [Bool.and_eq_true, Bool.not_eq_true', decide_eq_true_eq] at found
  obtain ⟨⟨off, later⟩, built⟩ := found
  obtain ⟨⟨next, shown⟩, done, built⟩ := exists_of_succeedsWith built
  have step : SteadyStep small st shown next := by
    refine ⟨.call (idleCall 15000) later done, fun cycle _ due => ?_⟩
    rw [run.wellFormed.pending due.1] at off
    contradiction
  have steady := (run.steady_of_disabled off).next step
  have run := SteadyRun.run steady
  exact ⟨_, next, steady, built, ((failed_rebuild_keeps_codebook run).2 steady built).1⟩

/-- One read is sampled. The first rebuild builds codes for its symbols and ages them
to nothing, and another rebuild is started. -/
def oneReadSchedule : List Action :=
  [.handOver 0 (plainRequest .globalAccR 0 128), .call (idleCall 14990)] ++
    ((List.range 16).map fun i => .call (idleCall (15000 + i))) ++
    [.call (idleCall 20000), .call (idleCall 20534), .call (idleCall 25000)]

/-- The rebuild that follows loses the sixty codes, and so the codebook stays enabled without codes. -/
theorem empty_rebuild_loses_codes :
    (¬∀ trace st, Run small trace st → ∀ choices fp cycle method,
      st.codebookUnit.FailureKeeps choices fp cycle method) ∧
    ¬∀ trace st, Run small trace st → st.codebookUnit.huffmanEnabled = true →
      st.codebookUnit.codebook.size ≠ 0 := by
  obtain ⟨trace, st, run, found⟩ := reaches_of_arrives (show arrives small oneReadSchedule (create small)
    (fun _ st => decide (st.codebookUnit.codebook.freqTable.pairs = []) &&
      decide (st.codebookUnit.codebook.size = 60) &&
      arrives small [.call (idleCall 25534)] st fun _ next =>
        next.codebookUnit.huffmanEnabled && decide (next.codebookUnit.codebook.size = 0)) = true
    by decide +kernel)
  rw [Bool.and_eq_true, Bool.and_eq_true, decide_eq_true_eq, decide_eq_true_eq] at found
  obtain ⟨⟨empty, size⟩, later⟩ := found
  constructor
  · intro keeps
    have run := AtomicFreeRun.run run
    have condition := (CodebookUnit.failureKeeps_iff run.wellFormed).mp
      (keeps trace st run .stable .exact 25534 .shannon)
    have none := (condition.resolve_left fun some => some empty).1
    rw [HuffmanCodebook.size, none] at size
    contradiction
  · intro codes
    obtain ⟨trace', next, run', found⟩ := reaches_of_arrives later
    rw [Bool.and_eq_true, decide_eq_true_eq] at found
    exact codes _ next (AtomicFreeRun.run (run.append run')) found.1 found.2

end MemoryPartitionUnit

end GpgpuSim.Partition
