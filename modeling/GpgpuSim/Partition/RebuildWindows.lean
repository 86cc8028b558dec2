import GpgpuSim.Partition.CodebookCycle
import GpgpuSim.Partition.Schedules

/-! The rebuilds of a run. A window of the update interval starts a rebuild only in
a call at its first core cycle; a window whose first cycle the DRAM clock skips
starts none. -/
namespace GpgpuSim.Partition
open GpgpuSim.Huffman GpgpuSim.Memory GpgpuSim.Cache Transition

/-- The core cycles at which `dram_cycle` was called. -/
def calls (trace : List Event) : List Nat :=
  trace.filterMap fun
    | .called cycle => some cycle
    | _ => none

/-- The core cycles at which `start_dynamic_codebook_rebuild` returned true. -/
def rebuildStarts (trace : List Event) : List Nat :=
  trace.filterMap fun
    | .rebuildStarted cycle => some cycle
    | _ => none

/-- The first core cycle of a window. -/
def windowStart (k : Nat) : Nat := samplingDuration + k * dynamicUpdateInterval

@[simp] theorem calls_append (trace shown : List Event) : calls (trace ++ shown) = calls trace ++ calls shown :=
  List.filterMap_append

@[simp] theorem rebuildStarts_append (trace shown : List Event) :
    rebuildStarts (trace ++ shown) = rebuildStarts trace ++ rebuildStarts shown :=
  List.filterMap_append

theorem calls_filter (trace : List Event) : calls (trace.filter Event.ofCodebook) = calls trace := by
  unfold calls
  rw [List.filterMap_filter]
  congr
  funext e
  cases e <;> rfl

theorem rebuildStarts_filter (trace : List Event) :
    rebuildStarts (trace.filter Event.ofCodebook) = rebuildStarts trace := by
  unfold rebuildStarts
  rw [List.filterMap_filter]
  congr
  funext e
  cases e <;> rfl

/-- Within a window only the first cycle is a boundary. -/
theorem boundary_iff {k cycle : Nat} (from_start : windowStart k ≤ cycle)
    (before_next : cycle < windowStart (k + 1)) :
    CodebookUnit.Boundary cycle ↔ cycle = windowStart k := by
  simp only [CodebookUnit.Boundary, windowStart, samplingDuration, dynamicUpdateInterval] at *
  omega

namespace MemoryPartitionUnit

variable {cfg : MemoryConfig} {input : CycleInput} {trace seg shown : List Event} {k : Nat}
  {st next : MemoryPartitionUnit}

theorem Turned.calls {unit turned : CodebookUnit} {cycle : Nat} {begun : Bool}
    (turn : Turned unit cycle shown next turned begun) : calls shown = [cycle] := by
  rw [← calls_filter, turn.events]
  cases begun <;> rfl

theorem Turned.rebuildStarts {unit turned : CodebookUnit} {cycle : Nat} {begun : Bool}
    (turn : Turned unit cycle shown next turned begun) :
    rebuildStarts shown = if begun then [cycle] else [] := by
  rw [← rebuildStarts_filter, turn.events]
  cases begun <;> rfl

/-- A window before its first cycle was seen, and after. -/
inductive InWindow (k : Nat) (seg : List Event) (st : MemoryPartitionUnit) : Prop
  | waiting (none : rebuildStarts seg = []) (unseen : windowStart k ∉ calls seg)
      (idle : st.codebookUnit.pendingRebuild.active = false)
  | rebuilding (one : rebuildStarts seg = [windowStart k]) (seen : windowStart k ∈ calls seg)
      (active : st.codebookUnit.pendingRebuild.active = true)
      (later : windowStart k < st.codebookUnit.pendingRebuild.readyCycle)
  | rebuilt (one : rebuildStarts seg = [windowStart k]) (seen : windowStart k ∈ calls seg)
      (idle : st.codebookUnit.pendingRebuild.active = false) (past : windowStart k < st.clock)

/-- Steps between the calls do not touch the codebook. -/
theorem InWindow.of_same (window : InWindow k seg st) (unit : next.codebookUnit = st.codebookUnit)
    (clock : next.clock = st.clock) : InWindow k seg next := by
  cases window with
  | waiting none unseen idle => exact .waiting none unseen (unit ▸ idle)
  | rebuilding one seen active later => exact .rebuilding one seen (unit ▸ active) (unit ▸ later)
  | rebuilt one seen idle past => exact .rebuilt one seen (unit ▸ idle) (clock ▸ past)

/-- A call in the window. -/
theorem InWindow.call (window : InWindow k seg st) (well : st.codebookUnit.WellFormed)
    (enabled : st.codebookUnit.huffmanEnabled = true) (later : st.clock ≤ input.cycle)
    (from_start : windowStart k ≤ input.cycle) (before_next : input.cycle < windowStart (k + 1))
    (done : dramCycle cfg input st = .ok (next, shown)) : InWindow k (seg ++ shown) next := by
  obtain ⟨turned, begun, turn⟩ := dramCycle_turned well done
  have pending := turn.continues.pendingRebuild
  have first := turn.cycled.begun_iff
  rw [boundary_iff from_start before_next] at first
  cases window with
  | waiting none unseen idle =>
      by_cases boundary : input.cycle = windowStart k
      · have begins := first.mpr ⟨enabled, boundary, idle⟩
        obtain ⟨active, ready⟩ := turn.cycled.started begins
        apply InWindow.rebuilding
        · rw [rebuildStarts_append, none, turn.rebuildStarts, begins, boundary]
          rfl
        · simp [turn.calls, boundary]
        · rw [pending, active]
        · rw [pending, ready, boundary]
          simp [codebookRebuildDelay]
      · have quiet : begun = false := by
          rw [← Bool.not_eq_true]
          exact fun begins => boundary (first.mp begins).2.1
        apply InWindow.waiting
        · rw [rebuildStarts_append, none, turn.rebuildStarts, quiet]
          rfl
        · simp [turn.calls, unseen, Ne.symm boundary]
        · rw [pending]
          rcases turn.cycled.pending quiet with same | ⟨-, cleared⟩
          · rw [same, idle]
          · exact cleared
  | rebuilding one seen active ready =>
      have quiet : begun = false := by
        rw [← Bool.not_eq_true]
        intro begins
        rw [(first.mp begins).2.2] at active
        contradiction
      have one' : rebuildStarts (seg ++ shown) = [windowStart k] := by
        rw [rebuildStarts_append, one, turn.rebuildStarts, quiet]
        rfl
      have seen' : windowStart k ∈ calls (seg ++ shown) := by
        rw [calls_append]
        exact List.mem_append_left _ seen
      rcases turn.cycled.pending quiet with same | ⟨due, cleared⟩
      · apply InWindow.rebuilding one' seen'
        · rw [pending, same, active]
        · rw [pending, same]
          exact ready
      · apply InWindow.rebuilt one' seen'
        · rw [pending, cleared]
        · rw [turn.clock]
          exact ready.trans_le due.2
  | rebuilt one seen idle past =>
      have quiet : begun = false := by
        rw [← Bool.not_eq_true]
        intro begins
        have boundary := (first.mp begins).2.1
        omega
      apply InWindow.rebuilt
      · rw [rebuildStarts_append, one, turn.rebuildStarts, quiet]
        rfl
      · rw [calls_append]
        exact List.mem_append_left _ seen
      · rw [pending]
        rcases turn.cycled.pending quiet with same | ⟨-, cleared⟩
        · rw [same, idle]
        · exact cleared
      · rw [turn.clock]
        omega

/-- The calls of a window that begins without a pending rebuild. -/
theorem inWindow_of_reaches (well : st.codebookUnit.WellFormed) (enabled : st.codebookUnit.huffmanEnabled = true)
    (idle : st.codebookUnit.pendingRebuild.active = false) (window : Reaches (Step cfg fun _ => True) st seg next)
    (within : ∀ cycle ∈ calls seg, windowStart k ≤ cycle ∧ cycle < windowStart (k + 1)) :
    next.codebookUnit.WellFormed ∧ next.codebookUnit.huffmanEnabled = true ∧ InWindow k seg next := by
  induction window with
  | refl => exact ⟨well, enabled, .waiting rfl (by simp [calls]) idle⟩
  | @next seg shown before after _ step ih =>
      obtain ⟨well, enabled, inside⟩ := ih fun cycle member => within cycle (by simp [member])
      cases step with
      | call input later done =>
          obtain ⟨turned, begun, turn⟩ := dramCycle_turned well done
          have here := within input.cycle (by simp [turn.calls])
          refine ⟨turn.continues.wellFormed, ?_, inside.call well enabled later here.1 here.2 done⟩
          exact (turn.continues.enabled (turn.cycled.huffmanEnabled.trans enabled)).1
      | handOver spid mf here owned fresh admits =>
          rw [List.append_nil]
          exact ⟨well, enabled, inside.of_same rfl rfl⟩
      | collect spid mf rest front =>
          rw [List.append_nil]
          exact ⟨well, enabled, inside.of_same rfl rfl⟩

/-- In a window that begins with an enabled codebook and no pending rebuild, exactly
one rebuild starts if `dram_cycle` is called at its first core cycle, else none. -/
theorem window_starts_one_rebuild_iff (run : Run cfg trace st) (enabled : st.codebookUnit.huffmanEnabled = true)
    (idle : st.codebookUnit.pendingRebuild.active = false) (window : Reaches (Step cfg fun _ => True) st seg next)
    (within : ∀ cycle ∈ calls seg, windowStart k ≤ cycle ∧ cycle < windowStart (k + 1)) :
    ((rebuildStarts seg).length = 1 ↔ windowStart k ∈ calls seg) ∧
      (windowStart k ∉ calls seg → rebuildStarts seg = []) := by
  obtain ⟨-, -, inside⟩ := inWindow_of_reaches run.accounted.wellFormed enabled idle window within
  cases inside with
  | waiting none unseen => simp [none, unseen]
  | rebuilding one seen => simp [one, seen]
  | rebuilt one seen => simp [one, seen]

/-- The codebook is built in the first window, and the call at the start of the next one is not missed. -/
theorem window_starts_one_rebuild_at_boundary :
    ∃ trace st seg next, Run small trace st ∧ st.codebookUnit.huffmanEnabled = true ∧
      Reaches (Step small fun _ => True) st seg next ∧ calls seg = [20000] ∧ (rebuildStarts seg).length = 1 := by
  obtain ⟨trace, st, run, found⟩ := reaches_of_arrives (show arrives small
    [.handOver 0 (plainRequest .globalAccR 0 128), .call (idleCall 15000), .call (idleCall 15001)] (create small)
    (fun _ st => st.codebookUnit.huffmanEnabled && !st.codebookUnit.pendingRebuild.active &&
      arrives small [.call (idleCall 20000)] st fun seg _ => decide (calls seg = [20000])) = true
    by decide +kernel)
  rw [Bool.and_eq_true, Bool.and_eq_true, Bool.not_eq_true'] at found
  obtain ⟨⟨enabled, idle⟩, later⟩ := found
  obtain ⟨seg, next, window, found⟩ := reaches_of_arrives later
  have called := of_decide_eq_true found
  have run := AtomicFreeRun.run run
  have window := AtomicFreeRun.reaches window
  have within : ∀ cycle ∈ calls seg, windowStart 1 ≤ cycle ∧ cycle < windowStart 2 := by
    rw [called]
    decide
  refine ⟨trace, st, seg, next, run, enabled, window, called, ?_⟩
  apply (window_starts_one_rebuild_iff run enabled idle window within).1.mpr
  rw [called]
  decide

/-- A call at 20001, one cycle late, and no other call before the next window. -/
theorem skipped_boundary_starts_no_rebuild :
    ¬∀ trace st seg next more last, Run small trace st → st.codebookUnit.huffmanEnabled = true →
      st.codebookUnit.pendingRebuild.active = false → Reaches (Step small fun _ => True) st seg next →
      Reaches (Step small fun _ => True) next more last → calls seg ≠ [] →
      (∀ cycle ∈ calls seg, windowStart 1 ≤ cycle ∧ cycle < windowStart 2) → windowStart 2 ∈ calls more →
      (rebuildStarts seg).length = 1 := by
  intro always
  obtain ⟨trace, st, run, found⟩ := reaches_of_arrives (show arrives small
    [.handOver 0 (plainRequest .globalAccR 0 128), .call (idleCall 15000), .call (idleCall 15001)] (create small)
    (fun _ st => st.codebookUnit.huffmanEnabled && !st.codebookUnit.pendingRebuild.active &&
      arrives small [.call (idleCall 20001)] st fun seg next =>
        decide (calls seg = [20001]) && decide (rebuildStarts seg = []) &&
          arrives small [.call (idleCall 25000)] next fun more _ => decide (calls more = [25000])) = true
    by decide +kernel)
  simp only [Bool.and_eq_true, Bool.not_eq_true'] at found
  obtain ⟨⟨enabled, idle⟩, later⟩ := found
  obtain ⟨seg, next, window, found⟩ := reaches_of_arrives later
  simp only [Bool.and_eq_true, decide_eq_true_eq] at found
  obtain ⟨⟨called, none⟩, afterwards⟩ := found
  obtain ⟨more, last, rest, found⟩ := reaches_of_arrives afterwards
  have one := always trace st seg next more last (AtomicFreeRun.run run) enabled idle
    (AtomicFreeRun.reaches window) (AtomicFreeRun.reaches rest) (by simp [called])
    (by rw [called]; decide) (by rw [of_decide_eq_true found]; decide)
  rw [none] at one
  contradiction

end MemoryPartitionUnit

end GpgpuSim.Partition
