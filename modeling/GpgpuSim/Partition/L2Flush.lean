import GpgpuSim.Cache.Flushing
import GpgpuSim.Cache.Pinning
import GpgpuSim.Cache.Victims

/-! The flush of the L2 slices in `gpgpu_sim::cycle`, along runs in which the slices take accesses, fills
and the forced fills of copies between flushes. -/
namespace GpgpuSim.Partition
open GpgpuSim.Cache GpgpuSim.Memory Transition

structure L2Config where
  nMem : Nat
  nSubPartitionPerMemoryChannel : Nat
  l2 : DataCacheConfig

def L2Config.nMemSubPartition (cfg : L2Config) : Nat := cfg.nMem * cfg.nSubPartitionPerMemoryChannel

/-- The L2 of a sub partition, with the `is_used` of its tag array. -/
structure L2Unit where
  system : CacheSystem
  isUsed : Bool

namespace L2Unit

def tags (unit : L2Unit) : TagArray := unit.system.cache.tagArray

def setTags (unit : L2Unit) (tagArray : TagArray) : L2Unit :=
  { unit with system := { unit.system with cache := { unit.system.cache with tagArray } } }

/-- `flushL2`, of an L2 that is not disabled. -/
def flushL2 (cfg : DataCacheConfig) (unit : L2Unit) : Except CacheFault L2Unit := do
  let tagArray ← unit.tags.flush cfg.toCacheConfig unit.isUsed
  return { unit.setTags tagArray with isUsed := false }

/-- Only an access that gets to the tag array sets the flag. -/
def sets (cfg : DataCacheConfig) (unit : L2Unit) : CacheAction → Bool
  | .access mf _ _ => unit.system.cache.touches cfg unit.system.pool mf
  | _ => false

def HasModifiedLine (unit : L2Unit) : Prop := ∃ i, (unit.tags.lines i).isModifiedLine = true

end L2Unit

abbrev L2Units := Nat → L2Unit

def flushUnit (cfg : DataCacheConfig) (units : L2Units) (i : Nat) : Except CacheFault L2Units := do
  let unit ← (units i).flushL2 cfg
  return Function.update units i unit

/-- The loop of `cycle`, which runs to `m_n_mem` over the sub partitions. -/
def flushL2s (cfg : L2Config) (units : L2Units) : Except CacheFault L2Units :=
  if cfg.l2.numLines ≠ 0 then (List.range cfg.nMem).foldlM (flushUnit cfg.l2) units else .ok units

/-- A forced fill has the mask of one sector. -/
inductive L2Event
  | inside (p : Nat) (action : CacheAction)
  | forceTagAccess (p addr time sector : Nat)
  | flush

inductive L2Step (cfg : L2Config) : L2Units → L2Event → L2Units → Prop
  | inside {units : L2Units} {p : Nat} {action : CacheAction} {t : CacheSystem} (known : p < cfg.nMemSubPartition)
      (step : CacheSystem.Step .data cfg.l2 (units p).system action t) :
      L2Step cfg units (.inside p action)
        (Function.update units p ⟨t, (units p).isUsed || (units p).sets cfg.l2 action⟩)
  | forceTagAccess {units : L2Units} {p addr time sector : Nat} {mf : MemFetch} {tagArray : TagArray}
      (known : p < cfg.nMemSubPartition) (small : sector < sectorChunckSize) (mask : mf.sectorMask = 1#4 <<< sector)
      (done : (units p).tags.fillAddr cfg.l2.toCacheConfig addr time mf = .ok tagArray) :
      L2Step cfg units (.forceTagAccess p addr time sector) (Function.update units p ((units p).setTags tagArray))
  | flush {units next : L2Units} (done : flushL2s cfg units = .ok next) : L2Step cfg units .flush next

structure L2Entry where
  before : L2Units
  event : L2Event
  after : L2Units

def L2Moves (cfg : L2Config) (units : L2Units) (entries : List L2Entry) (next : L2Units) : Prop :=
  ∃ event, entries = [⟨units, event, next⟩] ∧ L2Step cfg units event next

def freshUnits (cfg : L2Config) (pools : Nat → MfPool) : L2Units := fun p => ⟨.create cfg.l2 (pools p), false⟩

abbrev L2Run (cfg : L2Config) (pools : Nat → MfPool) := Reaches (L2Moves cfg) (freshUnits cfg pools)

/-- The flush has left no modified line. -/
def L2Entry.Flushes (cfg : L2Config) (e : L2Entry) : Prop :=
  ∀ p < cfg.nMemSubPartition, ¬ (e.after p).HasModifiedLine

/-- Before a flush, an L2 that has a modified line is in the reach of the loop and its array is marked used. -/
def L2Entry.Reached (cfg : L2Config) (e : L2Entry) : Prop :=
  ∀ p < cfg.nMemSubPartition, (e.before p).HasModifiedLine → p < cfg.nMem ∧ (e.before p).isUsed = true

/-! ## What a unit keeps -/

/-- The registers agree with what is sent, and only lines of the configuration are in use. -/
structure L2Unit.Sound (cfg : DataCacheConfig) (unit : L2Unit) : Prop where
  outstanding : Outstanding cfg unit.system
  arrayed : CacheSystem.Arrayed cfg unit.system

namespace L2Unit

variable {cfg : DataCacheConfig} {unit next : L2Unit}

theorem hasModifiedLine_iff : unit.HasModifiedLine ↔ ∃ i, (unit.tags.view i).Modified :=
  exists_congr fun _ => CacheBlock.isModifiedLine_iff

theorem Sound.setTags (sound : unit.Sound cfg) {tagArray : TagArray} (typed : tagArray.Typed cfg.toCacheConfig)
    (outside : ∀ i, cfg.numLines ≤ i → ¬ (tagArray.view i).Modified) (isUsed : Bool) :
    Sound cfg { unit.setTags tagArray with isUsed } where
  outstanding := sound.outstanding.of_same ⟨rfl, rfl⟩ le_rfl (fun _ _ => rfl) typed
  arrayed := ⟨outside, sound.arrayed.indices⟩

/-- A flush that is not skipped clears the lines, and one that is changes none. -/
theorem Sound.flushL2 (sound : unit.Sound cfg) :
    ∃ next, unit.flushL2 cfg = .ok next ∧ next.Sound cfg ∧
      (next.HasModifiedLine ↔ unit.HasModifiedLine ∧ unit.isUsed = false) := by
  obtain ⟨tagArray, done, typed, skipped, cleared, beyond⟩ := TagArray.flush_ok sound.outstanding.typed unit.isUsed
  have outside : ∀ i, cfg.numLines ≤ i → ¬ (tagArray.view i).Modified := by
    intro i far
    rw [TagArray.view, beyond i far]
    exact sound.arrayed.outside i far
  refine ⟨{ unit.setTags tagArray with isUsed := false }, bind_ok.mpr ⟨tagArray, done, rfl⟩,
    sound.setTags typed outside false, ?_⟩
  rw [hasModifiedLine_iff, hasModifiedLine_iff]
  change (∃ i, (tagArray.view i).Modified) ↔ _
  cases used : unit.isUsed with
  | false =>
      rw [skipped used]
      exact ⟨fun modified => ⟨modified, rfl⟩, And.left⟩
  | true =>
      constructor
      · rintro ⟨i, modified⟩
        by_cases inside : i < cfg.numLines
        · exact absurd modified (cleared used i inside)
        · exact absurd modified (outside i (Nat.not_lt.mp inside))
      · rintro ⟨-, unused⟩
        contradiction

end L2Unit

/-! ## What a step keeps -/

variable {cfg : L2Config} {pools : Nat → MfPool} {units next : L2Units} {event : L2Event}

theorem flushUnits_ok (sound : ∀ p, (units p).Sound cfg.l2) (count : Nat) :
    ∃ next, (List.range count).foldlM (flushUnit cfg.l2) units = .ok next ∧ (∀ p, (next p).Sound cfg.l2) ∧
      (∀ p < count, (next p).HasModifiedLine ↔ (units p).HasModifiedLine ∧ (units p).isUsed = false) ∧
      ∀ p, count ≤ p → next p = units p := by
  induction count with
  | zero => exact ⟨units, rfl, sound, by simp, fun _ _ => rfl⟩
  | succ count ih =>
      obtain ⟨middle, done, middle_sound, cleared, kept⟩ := ih
      obtain ⟨unit, flushed, unit_sound, modified⟩ := (middle_sound count).flushL2
      rw [kept count le_rfl] at modified
      refine ⟨Function.update middle count unit, ?_, ?_, ?_, ?_⟩
      · rw [List.range_succ, List.foldlM_append]
        refine bind_ok.mpr ⟨middle, done, ?_⟩
        rw [List.foldlM_cons]
        exact bind_ok.mpr ⟨_, bind_ok.mpr ⟨unit, flushed, rfl⟩, rfl⟩
      · intro p
        by_cases same : p = count
        · rw [same, Function.update_self]
          exact unit_sound
        · rw [Function.update_of_ne same]
          exact middle_sound p
      · intro p below
        by_cases same : p = count
        · rw [same, Function.update_self]
          exact modified
        · rw [Function.update_of_ne same]
          exact cleared p (by omega)
      · intro p beyond
        have apart : p ≠ count := by omega
        rw [Function.update_of_ne apart]
        exact kept p (by omega)

theorem flushL2s_ok (sound : ∀ p, (units p).Sound cfg.l2) :
    ∃ next, flushL2s cfg units = .ok next ∧ (∀ p, (next p).Sound cfg.l2) ∧
      (∀ p, (next p).HasModifiedLine ↔ (units p).HasModifiedLine ∧ ¬ (p < cfg.nMem ∧ (units p).isUsed = true)) ∧
      ∀ p, cfg.nMem ≤ p → next p = units p := by
  unfold flushL2s
  split_ifs with empty
  · obtain ⟨next, done, next_sound, cleared, kept⟩ := flushUnits_ok sound cfg.nMem
    refine ⟨next, done, next_sound, ?_, kept⟩
    intro p
    by_cases inside : p < cfg.nMem
    · simp [cleared p inside, inside]
    · simp [kept p (Nat.not_lt.mp inside), inside]
  · refine ⟨units, rfl, sound, ?_, fun _ _ => rfl⟩
    intro p
    have none : ¬ (units p).HasModifiedLine := by
      rw [L2Unit.hasModifiedLine_iff]
      rintro ⟨i, modified⟩
      exact (sound p).arrayed.outside i (by omega) modified
    simp [none]

theorem L2Step.sound (step : L2Step cfg units event next) (sound : ∀ p, (units p).Sound cfg.l2) :
    ∀ p, (next p).Sound cfg.l2 := by
  have update : ∀ {p unit}, unit.Sound cfg.l2 → ∀ q, (Function.update units p unit q).Sound cfg.l2 := by
    intro p unit here q
    by_cases same : q = p
    · rw [same, Function.update_self]
      exact here
    · rw [Function.update_of_ne same]
      exact sound q
  cases step with
  | @inside p action t known step =>
      exact update ⟨(sound p).outstanding.step step, (sound p).arrayed.step (sound p).outstanding step⟩
  | @forceTagAccess p addr time sector mf tagArray known small mask done =>
      have typed := (sound p).outstanding.typed
      obtain ⟨c, cell⟩ := cfg.l2.cell_oneHot small
      rw [← mask] at cell
      obtain ⟨i, status, probed, -, is_typed, view⟩ := TagArray.fillAddr_ok typed cell done
      have inside := TagArray.line_lt typed cell probed
      refine update ((sound p).setTags is_typed ?_ (units p).isUsed)
      refine CacheSystem.Arrayed.outside_update (sound p).arrayed.outside inside ?_
      intro j apart
      rw [view, Function.update_of_ne apart]
  | flush done =>
      obtain ⟨flushed, same, next_sound, -⟩ := flushL2s_ok sound
      obtain rfl := Except.ok.inj (same.symm.trans done)
      exact next_sound

/-! ## Runs -/

theorem L2Run.sound {trace : List L2Entry} (run : L2Run cfg pools trace units) : ∀ p, (units p).Sound cfg.l2 := by
  induction run with
  | refl => exact fun p => ⟨.create cfg.l2 (pools p), .create cfg.l2 (pools p)⟩
  | next _ stepped ih =>
      obtain ⟨event, -, step⟩ := stepped
      exact step.sound ih

/-- Each entry of a run is a step from a sound state. -/
theorem L2Run.entries {trace : List L2Entry} (run : L2Run cfg pools trace units) :
    ∀ e ∈ trace, L2Step cfg e.before e.event e.after ∧ ∀ p, (e.before p).Sound cfg.l2 := by
  induction run with
  | refl => simp
  | next earlier stepped ih =>
      obtain ⟨event, rfl, step⟩ := stepped
      intro e within
      rcases List.mem_append.mp within with within | within
      · exact ih e within
      · obtain rfl := List.mem_singleton.mp within
        exact ⟨step, L2Run.sound earlier⟩

theorem flushes_iff_reached (sound : ∀ p, (units p).Sound cfg.l2) (done : flushL2s cfg units = .ok next) :
    L2Entry.Flushes cfg ⟨units, .flush, next⟩ ↔ L2Entry.Reached cfg ⟨units, .flush, next⟩ := by
  obtain ⟨flushed, same, -, modified, -⟩ := flushL2s_ok sound
  obtain rfl := Except.ok.inj (same.symm.trans done)
  apply forall₂_congr
  intro p _
  rw [modified p, not_and, not_not]

/-! ## Runs that are computed -/

inductive L2Op
  | inside (p : Nat) (op : CacheOp)
  | flush

def performL2 (cfg : L2Config) (units : L2Units) : L2Op → Except CacheFault L2Entry
  | .inside p op =>
      if p < cfg.nMemSubPartition then do
        let move ← CacheSystem.perform .data cfg.l2 (units p).system op
        return ⟨units, .inside p move.action,
          Function.update units p ⟨move.after, (units p).isUsed || (units p).sets cfg.l2 move.action⟩⟩
      else throw .assertion
  | .flush => do
      let next ← flushL2s cfg units
      return ⟨units, .flush, next⟩

def performL2s (cfg : L2Config) : L2Units → List L2Op → Except CacheFault (List L2Entry × L2Units)
  | units, [] => .ok ([], units)
  | units, op :: rest => do
      let entry ← performL2 cfg units op
      let (later, last) ← performL2s cfg entry.after rest
      return (entry :: later, last)

theorem performL2_ok {op : L2Op} {entry : L2Entry} (done : performL2 cfg units op = .ok entry) :
    L2Moves cfg units [entry] entry.after := by
  cases op with
  | inside p op =>
      simp only [performL2] at done
      split at done
      next known =>
        obtain ⟨move, performed, done⟩ := bind_ok.mp done
        cases done
        obtain ⟨-, step⟩ := CacheSystem.perform_ok performed
        exact ⟨_, rfl, .inside known step⟩
      next => cases done
  | flush =>
      obtain ⟨next, flushed, done⟩ := bind_ok.mp done
      cases done
      exact ⟨_, rfl, .flush flushed⟩

theorem reaches_performL2s {ops : List L2Op} {trace : List L2Entry} {last : L2Units}
    (done : performL2s cfg units ops = .ok (trace, last)) : Reaches (L2Moves cfg) units trace last := by
  induction ops generalizing units trace with
  | nil =>
      cases done
      exact .refl
  | cons op rest ih =>
      obtain ⟨entry, performed, done⟩ := bind_ok.mp done
      obtain ⟨⟨later, final⟩, rested, done⟩ := bind_ok.mp done
      cases done
      have first : Reaches (L2Moves cfg) units [entry] entry.after := Reaches.refl.next (performL2_ok performed)
      exact first.append (ih rested)

theorem exists_l2Run {ops : List L2Op} {test : List L2Entry × L2Units → Bool}
    (passed : succeedsWith (performL2s cfg (freshUnits cfg pools) ops) test = true) :
    ∃ trace last, L2Run cfg pools trace last ∧ test (trace, last) = true := by
  obtain ⟨⟨trace, last⟩, done, passed⟩ := exists_of_succeedsWith passed
  exact ⟨trace, last, reaches_performL2s done, passed⟩

def L2Event.isFlush : L2Event → Bool
  | .flush => true
  | _ => false

theorem L2Event.isFlush_iff {event : L2Event} : event.isFlush = true ↔ event = .flush := by
  cases event <;> simp [isFlush]

/-- After some flush line 0 of unit `p` is modified. -/
def leavesModified (p : Nat) (out : List L2Entry × L2Units) : Bool :=
  out.1.any fun e => e.event.isFlush && ((e.after p).tags.lines 0).isModifiedLine

theorem exists_unclean_flush {ops : List L2Op} {p : Nat} (known : p < cfg.nMemSubPartition)
    (passed : succeedsWith (performL2s cfg (freshUnits cfg pools) ops) (leavesModified p) = true) :
    ∃ trace last, L2Run cfg pools trace last ∧ ∃ e ∈ trace, e.event = .flush ∧ ¬ e.Flushes cfg := by
  obtain ⟨trace, last, run, test⟩ := exists_l2Run passed
  obtain ⟨e, within, test⟩ := List.any_eq_true.mp test
  obtain ⟨is_flush, modified⟩ := (Bool.and_eq_true _ _).mp test
  exact ⟨trace, last, run, e, within, L2Event.isFlush_iff.mp is_flush, fun flushes => flushes p known ⟨0, modified⟩⟩

/-! ## When every flush is clean -/

/-- Every flush of a run leaves no modified line if and only if each finds the modified lines in units that the
loop reaches and that have been accessed since they were flushed. -/
theorem flush_clean_iff {trace : List L2Entry} {last : L2Units} (run : L2Run cfg pools trace last) :
    (∀ e ∈ trace, e.event = .flush → e.Flushes cfg) ↔ ∀ e ∈ trace, e.event = .flush → e.Reached cfg := by
  apply forall₂_congr
  intro e within
  obtain ⟨step, sound⟩ := run.entries e within
  obtain ⟨before, event, after⟩ := e
  cases event with
  | inside p action => simp
  | forceTagAccess p addr time sector => simp
  | flush =>
      cases step with
      | flush done => exact imp_congr_right fun _ => flushes_iff_reached sound done

/-- One line in each L2. -/
def smallL2s (nMem nSub : Nat) (writeAllocPolicy : WriteAllocatePolicy) : L2Config :=
  ⟨nMem, nSub, oneLine .writeBack writeAllocPolicy⟩

def oneWrite : Nat → MfPool := fun _ => poolOf [requestTo .globalAccW 0]

theorem flush_clean_iff_write : ∃ trace last, L2Run (smallL2s 1 1 .lazyFetchOnRead) oneWrite trace last ∧
    trace.length = 2 ∧ ∀ e ∈ trace, e.event = .flush → e.Flushes (smallL2s 1 1 .lazyFetchOnRead) := by
  have passed : succeedsWith (performL2s (smallL2s 1 1 .lazyFetchOnRead)
      (freshUnits (smallL2s 1 1 .lazyFetchOnRead) oneWrite) [.inside 0 (.access (.request 0) 0), .flush])
      (fun out => out.1.length == 2 && out.1.all fun e => !e.event.isFlush || (e.before 0).isUsed) = true := rfl
  obtain ⟨trace, last, run, test⟩ := exists_l2Run passed
  obtain ⟨size, test⟩ := (Bool.and_eq_true _ _).mp test
  refine ⟨trace, last, run, beq_iff_eq.mp size, (flush_clean_iff run).mpr ?_⟩
  intro e within is_flush p inside _
  have used := List.all_eq_true.mp test e within
  rw [is_flush] at used
  obtain rfl : p = 0 := Nat.lt_one_iff.mp inside
  exact ⟨Nat.one_pos, used⟩

/-- The second sub partition of a channel is not flushed, and a line that a fill modifies after a flush outlives
the next one. -/
theorem flush_leaves_modified_line :
    (∃ trace last, L2Run (smallL2s 1 2 .lazyFetchOnRead) oneWrite trace last ∧
      ∃ e ∈ trace, e.event = .flush ∧ ¬ e.Flushes (smallL2s 1 2 .lazyFetchOnRead)) ∧
    ∃ trace last, L2Run (smallL2s 1 1 .fetchOnWrite) oneWrite trace last ∧
      ∃ e ∈ trace, e.event = .flush ∧ ¬ e.Flushes (smallL2s 1 1 .fetchOnWrite) := by
  constructor
  · have passed : succeedsWith (performL2s (smallL2s 1 2 .lazyFetchOnRead)
        (freshUnits (smallL2s 1 2 .lazyFetchOnRead) oneWrite) [.inside 1 (.access (.request 0) 0), .flush])
        (leavesModified 1) = true := rfl
    exact exists_unclean_flush (by decide) passed
  · have passed : succeedsWith (performL2s (smallL2s 1 1 .fetchOnWrite)
        (freshUnits (smallL2s 1 1 .fetchOnWrite) oneWrite)
        [.inside 0 (.access (.request 0) 0), .flush, .inside 0 (.fill (.request 1) 1), .flush])
        (leavesModified 0) = true := rfl
    exact exists_unclean_flush (by decide) passed

end GpgpuSim.Partition
