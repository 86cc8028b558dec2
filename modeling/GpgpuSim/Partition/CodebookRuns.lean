import GpgpuSim.Containers.Sampling
import GpgpuSim.Huffman.BuildOutcome
import GpgpuSim.Partition.CodebookUnit

/-! How the codebook of a partition develops. Sampled symbols are never lost
before the first build, and the codebook stays enabled from then on. -/
namespace GpgpuSim.Partition.CodebookUnit
open GpgpuSim.Huffman GpgpuSim.Memory Containers Transition

variable {choices : Choices} {fp : FloatArithmetic} {unit next : CodebookUnit} {cycle : Nat}
  {method : CodebookBuildMethod}

/-- Rebuilds are started only once the codebook is enabled, and an interval has
begun exactly when it is. -/
structure WellFormed (unit : CodebookUnit) : Prop where
  finalTableSize : unit.codebook.freqTable.finalTableSize = huffmanTableSize
  symbolLength : unit.codebook.freqTable.symbolLength = huffmanSymbolLength
  pending : unit.pendingRebuild.active = true → unit.huffmanEnabled = true
  begun : unit.intervalCompressionStats ≠ [] ↔ unit.huffmanEnabled = true

theorem WellFormed.create : CodebookUnit.create.WellFormed where
  finalTableSize := rfl
  symbolLength := rfl
  pending active := by contradiction
  begun := by simp [CodebookUnit.create]

/-- The next attempt to build the codebook succeeds, or one has succeeded. -/
def Primed (unit : CodebookUnit) : Prop :=
  unit.huffmanEnabled = true ∨ unit.codebook.freqTable.pairs ≠ []

/-- A sample has been taken. -/
def Sampled (unit : CodebookUnit) : Prop := Primed unit ∨ unit.samplingSymbolFifo ≠ []

instance (unit : CodebookUnit) : Decidable unit.Primed := inferInstanceAs (Decidable (_ ∨ _))

instance (unit : CodebookUnit) : Decidable unit.Sampled := inferInstanceAs (Decidable (_ ∨ _))

/-- What no step takes back. -/
structure Advances (unit next : CodebookUnit) : Prop where
  wellFormed : unit.WellFormed → next.WellFormed
  enabled : unit.huffmanEnabled = true → next.huffmanEnabled = true
  sampled : unit.WellFormed → unit.Sampled → next.Sampled

theorem Advances.refl (unit : CodebookUnit) : Advances unit unit := ⟨id, id, fun _ => id⟩

/-- Only the statistics differ. -/
structure SameCodebook (next unit : CodebookUnit) : Prop where
  codebook : next.codebook = unit.codebook
  huffmanEnabled : next.huffmanEnabled = unit.huffmanEnabled
  pendingRebuild : next.pendingRebuild = unit.pendingRebuild
  samplingSymbolFifo : next.samplingSymbolFifo = unit.samplingSymbolFifo
  intervals : next.intervalCompressionStats = [] ↔ unit.intervalCompressionStats = []

theorem SameCodebook.refl (unit : CodebookUnit) : SameCodebook unit unit := ⟨rfl, rfl, rfl, rfl, .rfl⟩

theorem SameCodebook.primed (same : SameCodebook next unit) : next.Primed ↔ unit.Primed := by
  simp only [Primed, same.huffmanEnabled, same.codebook]

theorem SameCodebook.wellFormed (same : SameCodebook next unit) (well : unit.WellFormed) :
    next.WellFormed := by
  constructor
  · rw [same.codebook]; exact well.finalTableSize
  · rw [same.codebook]; exact well.symbolLength
  · rw [same.pendingRebuild, same.huffmanEnabled]; exact well.pending
  · rw [same.huffmanEnabled, ← well.begun]; exact not_congr same.intervals

theorem SameCodebook.advances (same : SameCodebook next unit) : Advances unit next := by
  constructor
  · exact same.wellFormed
  · rw [same.huffmanEnabled]; exact id
  · rw [Sampled, Sampled, same.primed, same.samplingSymbolFifo]; exact fun _ => id

/-! ## Rebuilds -/

/-- A rebuild that finds no symbol leaves no codes. -/
structure FailedRebuild (unit next : CodebookUnit) : Prop where
  empty : unit.codebook.freqTable.pairs = []
  next : next = { unit with codebook := unit.codebook.clearCodes }

/-- A rebuild that finds symbols begins an interval and ages them. -/
structure GoodRebuild (unit next : CodebookUnit) : Prop where
  nonempty : unit.codebook.freqTable.pairs ≠ []
  codes : next.codebook.size ≠ 0
  freqTable : next.codebook.freqTable = unit.codebook.freqTable.scaleDown 2
  huffmanEnabled : next.huffmanEnabled = unit.huffmanEnabled
  pendingRebuild : next.pendingRebuild = unit.pendingRebuild
  samplingSymbolFifo : next.samplingSymbolFifo = unit.samplingSymbolFifo
  intervals : next.intervalCompressionStats = unit.intervalCompressionStats ++ [({} : CompressionStats)]

theorem rebuild_empty (final : 0 < unit.codebook.freqTable.finalTableSize)
    (empty : unit.codebook.freqTable.pairs = []) :
    unit.rebuildCodebookAndAgeSamples choices fp cycle method =
      .ok ({ unit with codebook := unit.codebook.clearCodes }, false) := by
  have nothing : unit.codebook.topFrequencies choices = [] :=
    (HuffmanCodebook.topFrequencies_eq_nil final).mpr empty
  unfold rebuildCodebookAndAgeSamples
  rw [HuffmanCodebook.generateCodebook_empty nothing]
  rfl

theorem rebuild_ok {done : Bool} (final : 0 < unit.codebook.freqTable.finalTableSize)
    (ran : unit.rebuildCodebookAndAgeSamples choices fp cycle method = .ok (next, done)) :
    (done = false ∧ FailedRebuild unit next) ∨ (done = true ∧ GoodRebuild unit next) := by
  by_cases empty : unit.codebook.freqTable.pairs = []
  · rw [rebuild_empty final empty] at ran
    cases ran
    exact .inl ⟨rfl, empty, rfl⟩
  · obtain ⟨⟨built, count⟩, generated, ran⟩ := bind_ok.mp ran
    have some : unit.codebook.topFrequencies choices ≠ [] :=
      fun none => empty ((HuffmanCodebook.topFrequencies_eq_nil final).mp none)
    have filled := HuffmanCodebook.generateCodebook_filled some generated
    have counted : count ≠ 0 := by
      rw [filled.count]
      exact filled.size_ne_zero
    dsimp only at ran
    rw [if_neg counted] at ran
    cases ran
    refine .inr ⟨rfl, empty, filled.size_ne_zero, ?_, rfl, rfl, rfl, rfl⟩
    exact congrArg (FrequencyValueTable.scaleDown 2) filled.same.freqTable

/-- A completed rebuild: the pending flag is cleared afterwards. -/
theorem complete_ok (well : unit.WellFormed)
    (ran : unit.completeDynamicCodebookRebuildIfReady choices fp cycle = .ok next) :
    ((unit.pendingRebuild.active = false ∨ cycle < unit.pendingRebuild.readyCycle) ∧ next = unit) ∨
      (unit.pendingRebuild.active = true ∧ unit.pendingRebuild.readyCycle ≤ cycle ∧
        next.pendingRebuild.active = false ∧ next.huffmanEnabled = unit.huffmanEnabled ∧
        next.samplingSymbolFifo = unit.samplingSymbolFifo ∧ next.WellFormed ∧
        (next.codebook.size ≠ 0 ↔ unit.codebook.freqTable.pairs ≠ [])) := by
  have final : 0 < unit.codebook.freqTable.finalTableSize := by
    rw [well.finalTableSize]
    decide
  unfold completeDynamicCodebookRebuildIfReady at ran
  split at ran
  · rename_i waits
    cases ran
    exact .inl ⟨by simpa using waits, rfl⟩
  · rename_i due
    simp only [Bool.or_eq_true, Bool.not_eq_true', decide_eq_true_eq, not_or, Bool.not_eq_false,
      not_lt] at due
    obtain ⟨⟨rebuilt, done⟩, rebuilding, ran⟩ := bind_ok.mp ran
    have enabled := well.pending due.1
    rcases rebuild_ok final rebuilding with ⟨rfl, empty, rfl⟩ | ⟨rfl, good⟩
    · cases ran
      refine .inr ⟨due.1, due.2, rfl, rfl, rfl, ?_, fun some => absurd rfl some, fun some => absurd empty some⟩
      exact ⟨well.finalTableSize, well.symbolLength, fun active => by contradiction, well.begun⟩
    · cases ran
      refine .inr ⟨due.1, due.2, rfl, good.huffmanEnabled, good.samplingSymbolFifo, ?_,
        fun _ => good.nonempty, fun _ => good.codes⟩
      constructor
      · exact (congrArg _ good.freqTable).trans
          ((FrequencyValueTable.finalTableSize_scaleDown 2).trans well.finalTableSize)
      · exact (congrArg _ good.freqTable).trans
          ((FrequencyValueTable.symbolLength_scaleDown 2).trans well.symbolLength)
      · exact fun active => by contradiction
      · have some : rebuilt.intervalCompressionStats ≠ [] := by
          rw [good.intervals]
          simp
        exact ⟨fun _ => good.huffmanEnabled.trans enabled, fun _ => some⟩

/-! ## Samples -/

theorem drainSamples_keeps (choices : Choices) (count : Nat) (table : FrequencyValueTable) (fifo : List Nat) :
    (drainSamples choices count table fifo).1.finalTableSize = table.finalTableSize ∧
      (drainSamples choices count table fifo).1.symbolLength = table.symbolLength ∧
      (table.pairs ≠ [] → (drainSamples choices count table fifo).1.pairs ≠ []) := by
  induction count generalizing table fifo with
  | zero => exact ⟨rfl, rfl, id⟩
  | succ count ih =>
      cases fifo with
      | nil => exact ⟨rfl, rfl, id⟩
      | cons symbol fifo =>
          obtain ⟨final, length, kept⟩ := ih (table.updateFrequency choices.ascending symbol).1 fifo
          rw [FrequencyValueTable.finalTableSize_update] at final
          rw [FrequencyValueTable.symbolLength_update] at length
          exact ⟨final, length, fun _ => kept (FrequencyValueTable.pairs_update_ne_nil _ _ _)⟩

/-- A waiting symbol reaches the table. -/
theorem drainSamples_fills (choices : Choices) (count : Nat) (table : FrequencyValueTable)
    {fifo : List Nat} (some : fifo ≠ []) :
    (drainSamples choices (count + 1) table fifo).1.pairs ≠ [] := by
  cases fifo with
  | nil => contradiction
  | cons symbol fifo =>
      exact (drainSamples_keeps choices count _ fifo).2.2 (FrequencyValueTable.pairs_update_ne_nil _ _ _)

theorem drainSamples_nil (choices : Choices) (count : Nat) (table : FrequencyValueTable) :
    drainSamples choices count table [] = (table, []) := by
  cases count <;> rfl

/-- What a sampling cycle keeps besides the samples. -/
theorem samplingCycle_keeps (choices : Choices) (unit : CodebookUnit) :
    (unit.samplingCycle choices).huffmanEnabled = unit.huffmanEnabled ∧
      (unit.samplingCycle choices).pendingRebuild = unit.pendingRebuild ∧
      (unit.samplingCycle choices).codebook.codes = unit.codebook.codes ∧
      (unit.WellFormed → (unit.samplingCycle choices).WellFormed) := by
  unfold samplingCycle
  split
  · exact ⟨rfl, rfl, rfl, id⟩
  · obtain ⟨final, length, -⟩ := drainSamples_keeps choices samplingSymbolUpdatesPerCycle
      unit.codebook.freqTable unit.samplingSymbolFifo
    exact ⟨rfl, rfl, rfl, fun well => ⟨final.trans well.finalTableSize, length.trans well.symbolLength,
      well.pending, well.begun⟩⟩

theorem samplingCycle_primed (well : unit.WellFormed) (sampled : unit.Sampled) :
    (unit.samplingCycle choices).Primed := by
  cases on : unit.huffmanEnabled with
  | true => exact .inl ((samplingCycle_keeps choices unit).1.trans on)
  | false =>
      have idle : unit.pendingRebuild.active = false := by
        cases active : unit.pendingRebuild.active with
        | false => rfl
        | true => rw [well.pending active] at on; contradiction
      right
      unfold samplingCycle
      rw [if_neg (by simp [idle])]
      rcases sampled with (enabled | counted) | waiting
      · rw [on] at enabled
        contradiction
      · exact (drainSamples_keeps choices _ _ _).2.2 counted
      · exact drainSamples_fills choices 3 _ waiting

/-- What is sampled from a line goes to the back of the queue, up to its capacity. -/
theorem sampleLine_eq (symbolLength available count : Nat) (data : List UInt8) (fifo : List Nat) :
    sampleLine symbolLength available count data fifo =
      fifo ++ ((spreadPositions available count).map fun p =>
        (extractSymbolFromBitstream data memoryRequestSize (p * symbolLength) symbolLength).1).take
          (samplingFifoCapacity - fifo.length) := by
  rw [spreadPositions, List.map_map]
  exact foldl_push_eq samplingFifoCapacity _ (List.range count) fifo

/-- Sampling a line leaves something in the queue. -/
theorem sampleLine_ne_nil {symbolLength available count : Nat} {data : List UInt8} {fifo : List Nat}
    (positive : 0 < count) : sampleLine symbolLength available count data fifo ≠ [] := by
  rw [sampleLine_eq]
  cases fifo with
  | cons symbol fifo => exact List.cons_ne_nil _ _
  | nil =>
      apply List.ne_nil_of_length_pos
      rw [List.nil_append, List.length_take, List.length_map, spreadPositions, List.length_map, List.length_range]
      exact lt_min (by decide) positive

/-- Sampling only adds to the back of the queue, and a read is always sampled. -/
theorem enqueueSampledSymbols_eq (unit : CodebookUnit) (blockAddr : Nat → Nat) (memory : GlobalMemory)
    (cycle : Nat) (mf : Option MemFetch) :
    ∃ sampled, unit.enqueueSampledSymbols blockAddr memory cycle mf =
        { unit with samplingSymbolFifo := unit.samplingSymbolFifo ++ sampled } ∧
      (unit.WellFormed → shouldSampleRequest mf = true → unit.samplingSymbolFifo ++ sampled ≠ []) := by
  unfold enqueueSampledSymbols
  split
  · rename_i skipped
    refine ⟨[], by rw [List.append_nil], fun _ read => ?_⟩
    rw [read] at skipped
    exact absurd skipped (by simp [samplingEnabled, dynamicUpdateFlag])
  · split
    · exact ⟨[], by rw [List.append_nil], fun _ read => by contradiction⟩
    · dsimp only
      split
      · rename_i zero
        refine ⟨[], by rw [List.append_nil], fun well _ => ?_⟩
        rw [well.symbolLength] at zero
        contradiction
      · refine ⟨_, by rw [sampleLine_eq], fun well _ => ?_⟩
        rw [← sampleLine_eq, well.symbolLength]
        exact sampleLine_ne_nil (by decide)

/-! ## The cycle of the unit -/

/-- A rebuild is pending whose delay is over. -/
def RebuildDue (unit : CodebookUnit) (cycle : Nat) : Prop :=
  unit.pendingRebuild.active = true ∧ unit.pendingRebuild.readyCycle ≤ cycle

/-- A due rebuild has symbols to build codes for. -/
def FindsSymbols (unit : CodebookUnit) (cycle : Nat) : Prop :=
  unit.RebuildDue cycle → unit.codebook.freqTable.pairs ≠ []

/-- The cycle starts an interval. -/
def Boundary (cycle : Nat) : Prop :=
  samplingDuration ≤ cycle ∧ (cycle - samplingDuration) % dynamicUpdateInterval = 0

/-- How the first lines of a cycle can leave the unit. -/
structure Cycled (unit : CodebookUnit) (cycle : Nat) (next : CodebookUnit) (begun : Bool) : Prop where
  wellFormed : next.WellFormed
  huffmanEnabled : next.huffmanEnabled = unit.huffmanEnabled
  primed_iff : next.Primed ↔ unit.Sampled
  begun_iff : begun = true ↔
    unit.huffmanEnabled = true ∧ Boundary cycle ∧ unit.pendingRebuild.active = false
  started : begun = true → next.pendingRebuild.active = true ∧
    next.pendingRebuild.readyCycle = cycle + codebookRebuildDelay
  pending : begun = false → next.pendingRebuild = unit.pendingRebuild ∨
    (unit.RebuildDue cycle ∧ next.pendingRebuild.active = false)
  codes : unit.codebook.size ≠ 0 → (next.codebook.size ≠ 0 ↔ unit.FindsSymbols cycle)

theorem Cycled.advances {begun : Bool} (cycled : Cycled unit cycle next begun) : Advances unit next :=
  ⟨fun _ => cycled.wellFormed, fun on => cycled.huffmanEnabled.trans on,
    fun _ sampled => .inl (cycled.primed_iff.mpr sampled)⟩

/-- The unit between the boundary test and the completion of a rebuild. -/
theorem startAtBoundary_cases (well : unit.WellFormed) (cycle : Nat) :
    ((unit.startAtBoundary cycle).2 = true ∧
        (unit.huffmanEnabled = true ∧ Boundary cycle ∧ unit.pendingRebuild.active = false) ∧
        ∃ pending : PendingCodebookRebuild, pending.active = true ∧
          pending.readyCycle = cycle + codebookRebuildDelay ∧
          (unit.startAtBoundary cycle).1 = { unit with pendingRebuild := pending } ∧
          WellFormed { unit with pendingRebuild := pending }) ∨
      ((unit.startAtBoundary cycle).2 = false ∧ (unit.startAtBoundary cycle).1 = unit ∧
        ¬(unit.huffmanEnabled = true ∧ Boundary cycle ∧ unit.pendingRebuild.active = false)) := by
  unfold startAtBoundary
  dsimp only
  split
  · rename_i reached
    simp only [dynamicUpdateFlag, Bool.true_and, Bool.and_eq_true, decide_eq_true_eq, beq_iff_eq] at reached
    unfold startDynamicCodebookRebuild
    split
    · rename_i active
      exact .inr ⟨rfl, rfl, fun both => by simp [both.2.2] at active⟩
    · rename_i idle
      exact .inl ⟨rfl, ⟨reached.1, reached.2, by simpa using idle⟩, _, rfl, rfl, rfl,
        ⟨well.finalTableSize, well.symbolLength, fun _ => reached.1, well.begun⟩⟩
  · rename_i missed
    refine .inr ⟨rfl, rfl, fun both => missed ?_⟩
    simpa [dynamicUpdateFlag, both.1, Boundary] using both.2.1

theorem codebookCycle_ok {begun : Bool} (well : unit.WellFormed)
    (ran : unit.codebookCycle choices fp cycle = .ok (next, begun)) : Cycled unit cycle next begun := by
  obtain ⟨completed, completing, ran⟩ := bind_ok.mp ran
  cases ran
  obtain ⟨enabled_kept, pending_kept, codes_kept, well_kept⟩ := samplingCycle_keeps choices completed
  have size_kept : (completed.samplingCycle choices).codebook.size = completed.codebook.size := by
    unfold HuffmanCodebook.size
    rw [codes_kept]
  have blank : ∀ {other : CodebookUnit}, ¬other.Sampled → ¬(other.samplingCycle choices).Primed := by
    intro other nothing
    simp only [Sampled, Primed, not_or, not_not] at nothing
    unfold samplingCycle
    split
    · simpa [Primed] using nothing.1
    · rw [nothing.2, drainSamples_nil]
      simpa [Primed] using nothing.1
  rcases startAtBoundary_cases well cycle with ⟨begins, reached, pending, active, ready, eq, started_well⟩ |
      ⟨quiet, eq, missed⟩
  · rw [eq] at completing
    have on := reached.1
    have waits : completed = { unit with pendingRebuild := pending } := by
      rcases complete_ok started_well completing with ⟨-, rfl⟩ | ⟨-, due, -⟩
      · rfl
      · rw [show PendingCodebookRebuild.readyCycle _ = _ from ready] at due
        exact absurd due (by simp [codebookRebuildDelay])
    subst waits
    have enabled_next := enabled_kept.trans on
    constructor
    · exact well_kept started_well
    · exact enabled_kept
    · exact ⟨fun _ => .inl (.inl on), fun _ => .inl enabled_next⟩
    · exact ⟨fun _ => reached, fun _ => begins⟩
    · intro _
      rw [pending_kept]
      exact ⟨active, ready⟩
    · intro none
      exact absurd (begins.symm.trans none) (by simp)
    · intro some
      rw [size_kept]
      exact ⟨fun _ due => absurd due.1 (by simp [reached.2.2]), fun _ => some⟩
  · rw [eq] at completing
    have begins : ∀ {P : Prop}, _ = true → P := fun yes => absurd (quiet.symm.trans yes) (by simp)
    rcases complete_ok well completing with
      ⟨waits, rfl⟩ | ⟨active, due, cleared, same, fifo, rebuilt_well, codes⟩
    · constructor
      · exact well_kept well
      · exact enabled_kept
      · constructor
        · intro primed
          by_contra nothing
          exact blank nothing primed
        · exact samplingCycle_primed well
      · exact ⟨begins, fun yes => absurd yes missed⟩
      · exact begins
      · exact fun _ => .inl pending_kept
      · intro some
        rw [size_kept]
        refine ⟨fun _ due => ?_, fun _ => some⟩
        rcases waits with idle | early
        · exact absurd due.1 (by simp [idle])
        · exact absurd due.2 (not_le.mpr early)
    · have on := well.pending active
      constructor
      · exact well_kept rebuilt_well
      · exact enabled_kept.trans same
      · exact ⟨fun _ => .inl (.inl on), fun _ => .inl ((enabled_kept.trans same).trans on)⟩
      · exact ⟨begins, fun yes => absurd yes missed⟩
      · exact begins
      · exact fun _ => .inr ⟨⟨active, due⟩, by rw [pending_kept, cleared]⟩
      · intro _
        rw [size_kept, codes]
        exact ⟨fun some _ => some, fun found => found ⟨active, due⟩⟩

/-- The initial build: it enables the codebook as soon as there are symbols. -/
structure Attempted (unit next : CodebookUnit) : Prop where
  wellFormed : next.WellFormed
  enabled_iff : next.huffmanEnabled = true ↔ unit.Primed
  samplingSymbolFifo : next.samplingSymbolFifo = unit.samplingSymbolFifo
  pendingRebuild : next.pendingRebuild = unit.pendingRebuild
  kept : unit.huffmanEnabled = true → next = unit
  codes : unit.huffmanEnabled = false → next.huffmanEnabled = true → next.codebook.size ≠ 0

theorem Attempted.advances (attempted : Attempted unit next) : Advances unit next := by
  constructor
  · exact fun _ => attempted.wellFormed
  · exact fun on => attempted.enabled_iff.mpr (.inl on)
  · rintro _ (primed | waiting)
    · exact .inl (.inl (attempted.enabled_iff.mpr primed))
    · exact .inr (by rwa [attempted.samplingSymbolFifo])

theorem initialBuild_ok (well : unit.WellFormed) (ran : unit.initialBuild choices fp cycle = .ok next) :
    Attempted unit next := by
  have final : 0 < unit.codebook.freqTable.finalTableSize := by
    rw [well.finalTableSize]
    decide
  unfold initialBuild at ran
  split at ran
  · rename_i on
    cases ran
    exact ⟨well, ⟨.inl, fun _ => on⟩, rfl, rfl, fun _ => rfl, fun off => by simp [on] at off⟩
  · rename_i off
    obtain ⟨⟨rebuilt, done⟩, rebuilding, ran⟩ := bind_ok.mp ran
    rcases rebuild_ok final rebuilding with ⟨rfl, empty, rfl⟩ | ⟨rfl, good⟩
    · cases ran
      refine ⟨⟨well.finalTableSize, well.symbolLength, well.pending, well.begun⟩, ?_, rfl, rfl,
        fun on => absurd on off, fun _ on => absurd on off⟩
      exact ⟨fun on => absurd on off, fun primed => absurd empty (primed.resolve_left off)⟩
    · cases ran
      refine ⟨?_, ⟨fun _ => .inr good.nonempty, fun _ => rfl⟩, good.samplingSymbolFifo,
        good.pendingRebuild, fun on => absurd on off, fun _ _ => good.codes⟩
      constructor
      · exact (congrArg _ good.freqTable).trans
          ((FrequencyValueTable.finalTableSize_scaleDown 2).trans well.finalTableSize)
      · exact (congrArg _ good.freqTable).trans
          ((FrequencyValueTable.symbolLength_scaleDown 2).trans well.symbolLength)
      · exact fun _ => rfl
      · refine ⟨fun _ => rfl, fun _ => ?_⟩
        rw [show CodebookUnit.intervalCompressionStats _ = _ from good.intervals]
        simp

/-- Statistics can be updated exactly once an interval has begun. -/
theorem updateStats_none {outcome : CompressOutcome} (well : unit.WellFormed) :
    unit.updateStats outcome = none ↔ unit.huffmanEnabled = false := by
  rw [← Bool.not_eq_true, ← well.begun, not_not]
  unfold updateStats
  split
  · rename_i empty
    simpa using List.getLast?_eq_none_iff.mp empty
  · rename_i current last
    have some : unit.intervalCompressionStats ≠ [] := by
      intro empty
      simp [empty] at last
    simpa using some

theorem updateStats_some {outcome : CompressOutcome} (updated : unit.updateStats outcome = some next) :
    SameCodebook next unit := by
  unfold updateStats at updated
  split at updated
  · contradiction
  · rename_i current last
    cases updated
    refine ⟨rfl, rfl, rfl, rfl, ?_⟩
    constructor
    · intro empty
      simp at empty
    · intro empty
      simp [empty] at last

end GpgpuSim.Partition.CodebookUnit
