import GpgpuSim.Shader.FrontEndRuns

/-! What holds in every run of the front end: its assertions, its counts, and what an atomic operation does to the warp
that waits for it. -/
namespace GpgpuSim.Shader
open Cache Functional Memory Simt Transition

variable {w : Nat} {μ : Type}

namespace FrontEnd

open FrontEndEvent

/-- Runs start with nothing issued. -/
def Run (cfg : FrontEndConfig) (model : ThreadModel w μ) (program : InstructionMemory) (core : FrontEnd w μ) :
    List (FrontEndEvent w μ) → Issuing w μ → Prop :=
  Reaches (Step cfg model program) ⟨core, fun _ => 0⟩

variable {cfg : FrontEndConfig} {model : ThreadModel w μ} {program : InstructionMemory} {core next : FrontEnd w μ}
  {s t u : Issuing w μ} {i : Nat} {events later trace : List (FrontEndEvent w μ)} {numRegisters : IssuePort → Nat}
  {scoreboard : Scoreboard} {barriers : BarrierSet} {pool : MfPool} {m : μ}

theorem Does.refl (sound : Sound cfg model program s.flight s.core) : Does cfg model program s [] s where
  sound := sound
  acts := .nil
  resident _ := rfl
  flight _ := rfl
  stores _ := rfl
  nAtomic _ := rfl
  waits _ := .nil
  exits _ := .nil

theorem Does.trans (first : Does cfg model program s events t) (second : Does cfg model program t later u) :
    Does cfg model program s (events ++ later) u where
  sound := second.sound
  acts := first.acts.append second.acts
  resident i := by
    have before := first.resident i
    have after := second.resident i
    rw [List.countP_append, List.countP_append]
    omega
  flight i := by
    have before := first.flight i
    have after := second.flight i
    rw [List.countP_append, List.countP_append]
    omega
  stores i := by
    have before := first.stores i
    have after := second.stores i
    rw [List.countP_append, List.countP_append]
    omega
  nAtomic i := by rw [second.nAtomic, first.nAtomic, List.foldl_append]
  waits i := by
    refine (first.waits i).append_all ((second.waits i).imp fun before event _ waited issue => ?_)
    rw [List.foldl_append, ← first.nAtomic]
    exact waited issue
  exits i := by
    refine (first.exits i).append_all ((second.exits i).imp fun before event _ idle exit => ?_)
    obtain ⟨running, stores⟩ := idle exit
    have counted := first.flight i
    have sent := first.stores i
    simp only [List.countP_append]
    omega

theorem does_of_reaches (sound : Sound cfg model program s.flight s.core)
    (reaches : Reaches (Step cfg model program) s trace t) :
    Does cfg model program s trace t := by
  apply reaches.invariant (P := fun trace t => Does cfg model program s trace t)
  · exact .refl sound
  · intro trace t events u _ does step
    exact does.trans (step.does does.sound)

theorem does_of_run (none : ∀ i, ¬ Machine.Live model m i)
    (run : Run cfg model program (create cfg numRegisters scoreboard barriers pool m) trace s) :
    Does cfg model program ⟨create cfg numRegisters scoreboard barriers pool m, fun _ => 0⟩ trace s :=
  does_of_reaches (.create none) run

/-- In every run: what a warp counts as under way in the pipelines is what is in its buffer and what has been issued
and not completed, and its stores are those not acknowledged. A warp is given back when nothing of it is under way,
once for each launch; and the counts of the core are those of the warps that it has. -/
theorem books_of_run (none : ∀ i, ¬ Machine.Live model m i)
    (run : Run cfg model program (create cfg numRegisters scoreboard barriers pool m) trace s) :
    (∀ i, (s.core.warp i).instInPipeline + trace.countP (isCompletion i) =
        (s.core.warp i).numInstInBuffer + trace.countP (isIssue i) ∧
      (s.core.warp i).storesOutstanding + trace.countP (isAck i) = trace.countP (isStore i) ∧
      s.core.resident i + trace.countP (isExit i) = trace.countP (isLaunch i) ∧
      Along (fun before event => event.isExit i = true → before.countP (isIssue i) = before.countP (isCompletion i) ∧
        before.countP (isStore i) = before.countP (isAck i)) trace) ∧
    s.core.notCompleted = ∑ i ∈ Finset.range cfg.maxWarpsPerShader, (s.core.threadActive i).card ∧
    s.core.activeWarps = ((Finset.range cfg.maxWarpsPerShader).filter
      fun i => (s.core.warp i).doneExit = false).card := by
  have does := does_of_run none run
  refine ⟨fun i => ?_, does.sound.counted.notCompleted, does.sound.counted.activeWarps⟩
  have counted := (does.sound.warps i).counted
  have running : s.flight i + trace.countP (isCompletion i) = trace.countP (isIssue i) := by simpa using does.flight i
  have stores := does.stores i
  have resident := does.resident i
  refine ⟨by omega, ?_, ?_, (does.exits i).imp fun before event _ idle exit => ?_⟩
  · simpa [FrontEnd.create] using stores
  · simpa [FrontEnd.create, FrontEnd.resident] using resident
  · simpa [FrontEnd.create] using idle exit

theorem smallStart_idle {model : ThreadModel 1 (Nat → AddressType × Bool)}
    (read : ∀ m i lane, model.pc m i lane = (m i).1 ∧ model.done m i lane = (m i).2) (i : Nat) :
    ¬ Machine.Live model (fun _ => (0, true)) i := by
  rintro ⟨lane, live⟩
  rw [(read _ _ _).2] at live
  contradiction

/-- A warp from its launch to its end. -/
theorem books_of_run_small : ∃ program s trace, Run smallCore oneThread program smallStart trace s ∧
    trace.countP (isIssue 0) = 1 ∧ trace.countP (isCompletion 0) = 1 ∧ trace.countP (isExit 0) = 1 ∧
    (s.core.warp 0).instInPipeline = (s.core.warp 0).numInstInBuffer := by
  obtain ⟨program, core, s, events, launch, -, -, ran, counts⟩ :=
    exists_of_testSmall oneThread 0 [[plainInst .exitOps nullPc]]
    [.fetch 0, .fill (.request 0) 1, .fetch 2, .decode, .schedule 0 [some 0], .complete 0, .fetch 3]
    (fun _ events => events.countP (isIssue 0) == 1 && events.countP (isCompletion 0) == 1 &&
      events.countP (isExit 0) == 1) (fun _ _ _ => ⟨rfl, rfl⟩) (by decide) rfl
  simp only [Bool.and_eq_true, beq_iff_eq] at counts
  obtain ⟨⟨issues, completions⟩, exits⟩ := counts
  have run : Run smallCore oneThread program smallStart (.launched 0 :: events) s := launch.append ran
  obtain ⟨counted, -⟩ := (books_of_run (smallStart_idle fun _ _ _ => ⟨rfl, rfl⟩) run).1 0
  refine ⟨program, s, _, run, issues, completions, exits, ?_⟩
  rw [List.countP_cons_of_neg (by decide), List.countP_cons_of_neg (by decide), issues, completions] at counted
  omega

theorem fetch_of_wraps {time : Nat} {memportFull : Bool} (sound : Sound cfg model program s.flight core)
    (wraps : core.Wraps) :
    core.fetch cfg time memportFull = .error .assertion := by
  obtain ⟨free, mf, l1i, ready, left, high⟩ := wraps
  have accepted := sound.acceptMiss left
  rw [if_neg (Nat.not_lt.mpr high)] at accepted
  rw [fetch, fetchNext, free, if_neg (by simp), if_pos ready, accepted]
  rfl

/-- In every run: the assertions of the front end hold, in whatever order fetch, decode, the schedulers, the pipelines
and the memory system take their steps, with two exceptions. The assertion on the PC of a miss that comes back fails
exactly for the PCs from 2 to the 28th on; and those on the choice of a pipeline fail only where a register set has
no register for the scheduler or the program has an instruction for a unit that there is not. The faults of what issue
calls are left aside: those of the SIMT stack, of lanes out of step, of the scoreboard and of the barriers. -/
theorem assertions_hold (none : ∀ i, ¬ Machine.Live model m i)
    (run : Run cfg model program (create cfg numRegisters scoreboard barriers pool m) trace s) :
    (∀ time memportFull, s.core.fetch cfg time memportFull = .error .assertion ↔ s.core.Wraps) ∧
    (∀ sched order, schedulerCycle cfg model sched order s.core ≠ .error .assertion ∧
      (schedulerCycle cfg model sched order s.core = .error .register → Unequipped cfg program sched s.core)) ∧
    (∀ i threads ctaId startPc (mask : SimtMask w), i < cfg.maxWarpsPerShader → (s.core.warp i).doneExit = true →
      mask.Nonempty →
      (∀ lane, model.done threads i lane = decide (lane ∉ mask)) →
      (∀ j, j ≠ i → ∀ lane, model.done threads j lane = model.done s.core.machine.threads j lane) →
      ∃ next, s.core.launchWarp threads i ctaId startPc mask = .ok next) ∧
    ∀ i, trace.countP (isCompletion i) < trace.countP (isIssue i) →
      ∃ warp, (s.core.warp i).decInstInPipeline = .ok warp := by
  have does := does_of_run none run
  have sound := does.sound
  refine ⟨fun time memportFull => ⟨fun failed => sound.fetch.fault failed rfl, fetch_of_wraps sound⟩,
    fun sched order => ⟨fun failed => ?_, fun failed => ?_⟩,
    fun i threads ctaId startPc mask inside vacant nonempty fresh others => ?_, fun i underWay => ?_⟩
  · exact ((ends_schedulerCycle sound).fault failed).1 rfl
  · exact ((ends_schedulerCycle sound).fault failed).2 rfl
  · obtain ⟨next, done, -⟩ := (sound.launchWarp inside vacant nonempty fresh others).exists_ok
    exact ⟨next, done⟩
  · have counted := (sound.warps i).counted
    have running : s.flight i + trace.countP (isCompletion i) = trace.countP (isIssue i) := by simpa using does.flight i
    rw [ShdWarp.decInstInPipeline, if_pos (by omega)]
    exact ⟨_, rfl⟩

/-- A warp that starts at a PC whose address is taken round. -/
theorem assertions_hold_small : ∃ program s trace, Run smallCore oneThread program smallStart trace s ∧
    s.core.fetch smallCore 2 false = .error .assertion ∧ s.core.Wraps := by
  obtain ⟨program, core, s, events, launch, -, -, ran, failed⟩ :=
    exists_of_testSmall oneThread (2 ^ 28) [[plainInst .exitOps nullPc]]
    [.fetch 0, .fill (.request 0) 1]
    (fun s _ => match s.core.fetch smallCore 2 false with
      | .error fault => fault == .assertion
      | .ok _ => false) (fun _ _ _ => ⟨rfl, rfl⟩) (by decide) rfl
  have failed : s.core.fetch smallCore 2 false = .error .assertion := by
    split at failed
    next fault stopped => rw [stopped, beq_iff_eq.mp failed]
    next => contradiction
  have run : Run smallCore oneThread program smallStart (.launched 0 :: events) s := launch.append ran
  exact ⟨program, s, _, run, failed,
    ((assertions_hold (smallStart_idle fun _ _ _ => ⟨rfl, rfl⟩) run).1 2 false).mp failed⟩

/-! ## Atomic operations -/

/-- The threads for which the memory system has answered. -/
def answered (i : Nat) : FrontEndEvent w μ → Nat
  | .atomicDone j lanes => if j = i then lanes.card else 0
  | _ => 0

theorem le_foldl_pendingAtomics (i : Nat) (events : List (FrontEndEvent w μ)) (n : Nat)
    (launches : ∀ event ∈ events, event.isLaunch i = false) :
    n ≤ events.foldl (pendingAtomics i) n + (events.map (answered i)).sum := by
  induction events generalizing n with
  | nil => exact Nat.le_refl n
  | cons event rest ih =>
      have step : n ≤ event.pendingAtomics i n + answered i event := by
        have launch := launches event List.mem_cons_self
        cases event <;> simp only [pendingAtomics, answered, isLaunch, beq_eq_false_iff_ne] at launch ⊢ <;> grind
      have later := ih (event.pendingAtomics i n) fun other member => launches other (List.mem_cons_of_mem _ member)
      rw [List.foldl_cons, List.map_cons, List.sum_cons]
      omega

/-- A warp lives on until it executes. -/
theorem live_of_acts {a b : Machine w μ} {event : FrontEndEvent w μ} (acts : Acts model program a event b)
    (calm : event.isIssue i = false ∧ event.isLaunch i = false) (live : Machine.Live model a.threads i) :
    Machine.Live model b.threads i := by
  obtain ⟨lane, alive⟩ := live
  cases acts with
  | @issued _ j _ _ _ _ _ stepped _ =>
      have apart : i ≠ j := by
        rintro rfl
        simp [isIssue] at calm
      exact ⟨lane, ((stepped.other apart).2 lane).2.trans alive⟩
  | still => exact ⟨lane, alive⟩
  | @launched _ j _ _ _ _ _ _ others =>
      have apart : i ≠ j := by
        rintro rfl
        simp [isLaunch] at calm
      exact ⟨lane, (others i apart lane).2.trans alive⟩
  | memory same => exact ⟨lane, (same i lane).2.trans alive⟩

/-- An atomic operation is counted for each thread of the entry that executes the instruction. In every run: after an
atomic instruction that its predicate has kept some of its threads from executing, the warp issues nothing more, as
long as the memory system answers for no more threads than have executed it. While one of its threads lives, it is not
given back either. -/
theorem predicated_atomic_blocks {before after : List (FrontEndEvent w μ)} {inst : DecodedInst} {top : SimtStackEntry w}
    {active : SimtMask w} {threads : μ} (none : ∀ i, ¬ Machine.Live model m i)
    (run : Run cfg model program (create cfg numRegisters scoreboard barriers pool m)
      (before ++ .issued i inst top active threads :: after) s)
    (atomic : inst.isAtomic = true) (skipped : active ≠ top.activeMask)
    (answers : (after.map (answered i)).sum ≤ active.card) (launches : ∀ event ∈ after, event.isLaunch i = false) :
    (∀ event ∈ after, event.isIssue i = false) ∧
      (Machine.Live model threads i → (s.core.warp i).doneExit = false) := by
  have does := does_of_run none run
  obtain ⟨x, -, rest⟩ := does.acts.split
  cases rest with
  | @cons _ y _ _ _ acts later =>
      obtain ⟨-, -, -, executed, same⟩ := acts.of_issued
      have fewer : active.card < top.activeMask.card :=
        Finset.card_lt_card (Finset.ssubset_iff_subset_ne.mpr ⟨executed, skipped⟩)
      have quiet : ∀ event ∈ after, event.isIssue i = false := by
        intro event member
        by_contra issue
        rw [Bool.not_eq_false] at issue
        obtain ⟨between, following, rfl⟩ := List.append_of_mem member
        have waited := does.waits i (before ++ .issued i inst top active threads :: between) event following
          (by simp) issue
        rw [List.foldl_append, List.foldl_cons] at waited
        have least := le_foldl_pendingAtomics i between
          (pendingAtomics i (before.foldl (pendingAtomics i) 0) (.issued i inst top active threads)) fun other member =>
          launches other (List.mem_append_left _ member)
        have lanes : top.activeMask.card ≤
            pendingAtomics i (before.foldl (pendingAtomics i) 0) (.issued i inst top active threads) := by
          simp [pendingAtomics, atomic]
        rw [List.map_append, List.sum_append] at answers
        dsimp only [create] at waited
        omega
      refine ⟨quiet, fun alive => ?_⟩
      rw [← same] at alive
      have live := later.keeps (P := fun a => Machine.Live model a.threads i)
        (fun event member a b acts => live_of_acts acts ⟨quiet event member, launches event member⟩) alive
      by_contra gone
      exact ((does.sound.warps i).idle (by simpa using gone)).2.2.2 live

/-- Threads whose predicates keep them from executing atomic instructions. -/
def predicatedOff : ThreadModel 1 (Nat → AddressType × Bool) :=
  { oneThread with execInst := fun inst i lane m => ((oneThread.execInst inst i lane m).1, inst.isAtomic) }

/-- The one instruction issued is atomic, and no lane executes it. -/
def skipsAtomic : List (FrontEndEvent 1 (Nat → AddressType × Bool)) → Bool
  | [.elsewhere, .issued 0 inst top active _, .completed 0] =>
      inst.isAtomic && decide (active = ∅) && decide (active ≠ top.activeMask)
  | _ => false

theorem predicated_atomic_blocks_small : ∃ program s before inst top threads after,
    Run smallCore predicatedOff program smallStart (before ++ .issued 0 inst top ∅ threads :: after) s ∧
      inst.isAtomic = true ∧ after ≠ [] ∧ ∀ event ∈ after, event.isIssue 0 = false := by
  obtain ⟨program, core, s, events, launch, -, -, ran, found⟩ := exists_of_testSmall predicatedOff 0
    [[{ plainInst .loadOp nullPc with isAtomic := true }, plainInst .exitOps nullPc]]
    [.fetch 0, .fill (.request 0) 1, .fetch 2, .decode, .schedule 0 [some 0], .complete 0, .schedule 0 [some 0]]
    (fun _ events => skipsAtomic events) (fun _ _ _ => ⟨rfl, rfl⟩) (by decide) rfl
  unfold skipsAtomic at found
  split at found
  next inst top active threads =>
    simp only [Bool.and_eq_true, decide_eq_true_eq] at found
    obtain ⟨⟨atomic, rfl⟩, skipped⟩ := found
    have run : Run smallCore predicatedOff program smallStart
      ([.launched 0, .elsewhere] ++ .issued 0 inst top ∅ threads :: [.completed 0]) s := launch.append ran
    have blocked := predicated_atomic_blocks (smallStart_idle fun _ _ _ => ⟨rfl, rfl⟩) run atomic skipped
      (by simp [answered]) (by simp [isLaunch])
    exact ⟨program, s, [.launched 0, .elsewhere], inst, top, threads, [.completed 0], run, atomic, by simp, blocked.1⟩
  next => contradiction

end FrontEnd

end GpgpuSim.Shader
