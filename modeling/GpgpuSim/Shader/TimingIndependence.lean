import GpgpuSim.Functional.CoreSimulation
import GpgpuSim.Shader.FrontEndBooks

/-! The front end as a schedule of the machine that it drives: what it does to the threads does not depend on caches,
schedulers and pipelines, as long as the warps do not depend on one another. -/
namespace GpgpuSim.Shader
open Cache Functional Memory Simt Transition

variable {w : Nat} {μ : Type}

namespace FrontEndEvent

/-- What the machine sees of an event. -/
def actions : FrontEndEvent w μ → List Machine.Action
  | issued i .. => [.execute i]
  | launched i => [.launch i]
  | memory => [.memory]
  | _ => []

/-- The warp whose instruction is issued. -/
def issuing : FrontEndEvent w μ → List Nat
  | issued i .. => [i]
  | _ => []

/-- The threads move with the instructions of their warps only. -/
def isTurn : FrontEndEvent w μ → Bool
  | launched _ | memory => false
  | _ => true

end FrontEndEvent

namespace FrontEnd

open FrontEndEvent

variable {cfg : FrontEndConfig} {model : ThreadModel w μ} {program : InstructionMemory} {s t : Issuing w μ} {i : Nat}
  {a b : Machine w μ} {events trace : List (FrontEndEvent w μ)} {numRegisters : IssuePort → Nat}
  {scoreboard : Scoreboard} {barriers : BarrierSet} {pool : MfPool} {m : μ}

/-- An event whose instruction keeps its promise is a step of the machine. -/
theorem steps_of_acts {event : FrontEndEvent w μ} (acts : Acts model program a event b)
    (promised : ∀ i inst top active threads, event = .issued i inst top active threads →
      Machine.Promised model threads i inst top) : Reaches (Machine.Step model program) a event.actions b := by
  cases acts with
  | issued live done stepped executed =>
      exact Reaches.refl.next (.execute done stepped (promised _ _ _ _ _ rfl))
  | still still =>
      cases event <;> first | contradiction | exact .refl
  | launched some real ended fresh others => exact Reaches.refl.next (.launch _ _ some real ended fresh others)
  | memory same => exact Reaches.refl.next (.memory same)

/-- Every run of the front end is a run of the machine, when the instructions that are issued keep their promise. So
each of them is executed by the threads that are at its PC, and the stacks follow the threads, whatever has been
fetched and buffered when. -/
theorem machine_run_of_run (none : ∀ i, ¬ Machine.Live model m i)
    (run : Run cfg model program (create cfg numRegisters scoreboard barriers pool m) trace s)
    (promised : ∀ i inst top active threads, .issued i inst top active threads ∈ trace →
      Machine.Promised model threads i inst top) :
    Machine.Run model program m (trace.flatMap actions) s.core.machine ∧
      ∀ i, Machine.InStep model s.core.machine i := by
  have does := does_of_run none run
  have simulated : Machine.Run model program m (trace.flatMap actions) s.core.machine :=
    does.acts.simulates fun event member a b acts => steps_of_acts acts fun i inst top active threads same =>
      promised i inst top active threads (same ▸ member)
  exact ⟨simulated, Machine.inStep_of_run none simulated⟩

/-- A thread alone keeps all promises. -/
theorem promised_of_oneThread {threads : Nat → AddressType × Bool} {i : Nat} {inst : DecodedInst}
    {top : SimtStackEntry 1}
    (real : (threads i).2 = false → (threads i).1 ≠ nullPc) : Machine.Promised oneThread threads i inst top := by
  have alone : ∀ (mask : SimtMask 1) (nextPc : Fin 1 → AddressType), (mask.image nextPc).card ≤ 1 := fun mask nextPc =>
    Finset.card_image_le.trans (Finset.card_le_univ mask)
  refine ⟨fun lane _ alive => ?_, (alone _ _).trans (by decide), fun _ => alone _ _,
    fun two => absurd two (Nat.ne_of_lt (Nat.lt_succ_of_le (alone _ _)))⟩
  rw [ThreadModel.mem_threadDone, Bool.not_eq_true] at alive
  rw [ThreadModel.nextPc, alive]
  exact real alive

/-- The one instruction issued ends the thread. -/
def endsThread : List (FrontEndEvent 1 (Nat → AddressType × Bool)) → Bool
  | [.elsewhere, .issued 0 _ _ _ threads] => (threads 0).2
  | _ => false

theorem machine_run_of_run_small : ∃ program s trace, Run smallCore oneThread program smallStart trace s ∧
    trace.countP (isIssue 0) = 1 ∧
      Machine.Run oneThread program (fun _ => (0, true)) (trace.flatMap actions) s.core.machine := by
  obtain ⟨program, core, s, events, launch, -, -, ran, found⟩ :=
    exists_of_testSmall oneThread 0 [[plainInst .exitOps nullPc]]
    [.fetch 0, .fill (.request 0) 1, .fetch 2, .decode, .schedule 0 [some 0]]
    (fun _ events => endsThread events) (fun _ _ _ => ⟨rfl, rfl⟩) (by decide) rfl
  have run : Run smallCore oneThread program smallStart (.launched 0 :: events) s := launch.append ran
  unfold endsThread at found
  split at found
  next inst top active threads =>
    refine ⟨program, s, _, run, rfl, (machine_run_of_run (smallStart_idle fun _ _ _ => ⟨rfl, rfl⟩) run ?_).1⟩
    intro i inst top active after member
    simp only [List.mem_cons, List.not_mem_nil, or_false, reduceCtorEq, false_or, FrontEndEvent.issued.injEq] at member
    obtain ⟨rfl, -, -, -, rfl⟩ := member
    exact promised_of_oneThread fun alive => absurd (found.symm.trans alive) (by decide)
  next => contradiction

/-! ## The functional simulation -/

/-- What is issued is a schedule of the moves of the warps. -/
theorem runSchedule_of_follows (follows : Follows (Acts model program) a events b)
    (turns : ∀ event ∈ events, event.isTurn = true) :
    runSchedule (Machine.move model program) (events.flatMap issuing) a = some b := by
  induction follows with
  | nil => rfl
  | @cons a b c event rest acts _ ih =>
      have later := ih fun other member => turns other (List.mem_cons_of_mem _ member)
      have turn := turns event List.mem_cons_self
      cases acts with
      | issued live done stepped executed =>
          rw [List.flatMap_cons, issuing, List.singleton_append]
          refine runSchedule_cons.mpr ⟨_, ?_, later⟩
          rw [Machine.move, if_pos live, done]
          rfl
      | still still =>
          have none : event.issuing = [] := by cases event <;> first | contradiction | rfl
          rw [List.flatMap_cons, none, List.nil_append]
          exact later
      | launched => contradiction
      | memory => contradiction

/-- A warp that has no live thread stays without. -/
theorem not_live_of_runSchedule {schedule : List Nat}
    (ran : runSchedule (Machine.move model program) schedule a = some b)
    (dead : ¬ Machine.Live model a.threads i) : ¬ Machine.Live model b.threads i := by
  induction schedule generalizing a with
  | nil =>
      obtain rfl := Option.some.inj ran
      exact dead
  | cons j rest ih =>
      obtain ⟨c, moved, ran⟩ := runSchedule_cons.mp ran
      refine ih ran ?_
      rw [Machine.move] at moved
      split at moved
      next live =>
        have apart : i ≠ j := by
          rintro rfl
          exact dead live
        obtain ⟨c', done⟩ : ∃ c', a.step model program j = .ok c' ∧ c' = c := by
          cases stepped : a.step model program j with
          | ok c' =>
              rw [stepped] at moved
              exact ⟨c', rfl, Option.some.inj moved⟩
          | error fault =>
              rw [stepped] at moved
              contradiction
        obtain ⟨done, rfl⟩ := done
        obtain ⟨top, inst, stepped⟩ := Machine.step_ok done
        rintro ⟨lane, live⟩
        exact dead ⟨lane, ((stepped.other apart).2 lane).2.symm.trans live⟩
      next => contradiction

theorem atRest_of_dead (dead : ∀ i, ¬ Machine.Live model a.threads i) : AtRest (Machine.move model program) a := by
  intro i
  rw [Machine.move, if_neg (dead i)]

/-- A core that has no warp left has no live thread. -/
theorem dead_of_empty {core : FrontEnd w μ} {flight : Nat → Nat} (sound : Sound cfg model program flight core)
    (empty : core.activeWarps = 0) (i : Nat) : ¬ Machine.Live model core.machine.threads i := by
  have vacant : (core.warp i).doneExit = true := by
    by_cases inside : i < cfg.maxWarpsPerShader
    · have counted := sound.counted.activeWarps
      rw [empty, eq_comm, Nat.cast_eq_zero, Finset.card_eq_zero, Finset.filter_eq_empty_iff] at counted
      simpa using counted (Finset.mem_range.mpr inside)
    · exact sound.counted.outside i (Nat.not_lt.mp inside)
  exact ((sound.warps i).idle vacant).2.2.2

/-- A CTA without atomic operations whose warps do not disturb one another. Whatever the timing of fetch, caches,
schedulers and pipelines, once the core has no warp left its threads and its memory are those that the functional
simulation of the CTA ends with, and each warp has issued as many instructions as there. -/
theorem timing_agrees_with_functional {P : Machine w μ → Prop} {warpCount fuel : Nat} {m' : μ} {sim ended : CoreSim w μ}
    {turns : List Turn} (none : ∀ i, ¬ Machine.Live model m i)
    (independent : Independent (Machine.move model program) P) (holds : P sim.machine)
    (created : CoreSim.initializeCta model warpCount m' = .ok sim)
    (outside : ∀ i, warpCount ≤ i → ¬ Machine.Live model m' i)
    (ran : CoreSim.execute model program warpCount fuel sim = .ok (some ended, turns))
    (plain : ∀ turn ∈ turns, turn.2.isAtomic = false)
    (run : Run cfg model program (create cfg numRegisters scoreboard barriers pool m) trace s)
    (launched : s.core.machine = sim.machine) (more : Reaches (Step cfg model program) s events t)
    (onlyTurns : ∀ event ∈ events, event.isTurn = true) (empty : t.core.activeWarps = 0) :
    t.core.machine = ended.machine ∧ (events.flatMap issuing).Perm (turns.map Prod.fst) := by
  have does := does_of_reaches (does_of_run none run).sound more
  have scheduled := runSchedule_of_follows does.acts onlyTurns
  rw [launched] at scheduled
  obtain ⟨-, -, finished, simulated⟩ := CoreSim.execute_in_phases created ran
  obtain ⟨u, functional, same⟩ := simulated plain
  have ends := same ended rfl
  subst ends
  refine independent.confluent holds scheduled (atRest_of_dead (dead_of_empty does.sound empty)) functional
    (atRest_of_dead fun i => ?_)
  by_cases inside : i < warpCount
  · exact finished ended rfl i inside
  · refine not_live_of_runSchedule functional ?_
    rw [(CoreSim.initializeCta_ok created).1]
    exact outside i (Nat.not_lt.mp inside)

/-- A core of two warps. -/
def twoCore : FrontEndConfig := { smallCore with maxWarpsPerShader := 2 }

def twoStart : FrontEnd 1 (Nat → AddressType × Bool) :=
  create twoCore (fun _ => 8) .initial ⟨1, 1, 2, 1, fun _ => none, fun _ => ∅, ∅, ∅⟩ ⟨fun _ => default, 0⟩
    fun _ => (0, true)

/-- Warp 1 branches to the end of the program, warp 0 comes to it one instruction later. -/
def branchProgram : List DecodedInst := [plainInst .branchOp 16, plainInst .aluOp nullPc, plainInst .exitOps nullPc]

/-- Both warps are launched at PC 0 and do what they are asked. -/
def testTwo (functions : List (List DecodedInst)) (commands : List Command)
    (test : Issuing 1 (Nat → AddressType × Bool) → List (FrontEndEvent 1 (Nat → AddressType × Bool)) → Bool) : Bool :=
  match InstructionMemory.assemble functions with
  | .error _ => false
  | .ok program => succeedsWith (do
      let core ← twoStart.launchWarp (Function.update (fun _ => (0, true)) 0 (0, false)) 0 0 0 Finset.univ
      let core ← core.launchWarp (fun i => (0, decide (2 ≤ i))) 1 0 0 Finset.univ
      performAll twoCore oneThread program commands ⟨core, fun _ => 0⟩) fun result => test result.1 result.2

theorem exists_of_testTwo (functions : List (List DecodedInst)) (commands : List Command)
    (test : Issuing 1 (Nat → AddressType × Bool) → List (FrontEndEvent 1 (Nat → AddressType × Bool)) → Bool)
    (passed : testTwo functions commands test = true) :
    ∃ program core s events, Run twoCore oneThread program twoStart [.launched 0, .launched 1] ⟨core, fun _ => 0⟩ ∧
      core.machine = ⟨fun i => (0, decide (2 ≤ i)), Function.update (Function.update (fun _ => []) 0
        (SimtStack.launch 0 Finset.univ)) 1 (SimtStack.launch 0 Finset.univ)⟩ ∧
      InstructionMemory.assemble functions = .ok program ∧
      Reaches (Step twoCore oneThread program) ⟨core, fun _ => 0⟩ events s ∧ test s events = true := by
  rw [testTwo] at passed
  split at passed
  · contradiction
  next program assembled =>
    obtain ⟨⟨s, events⟩, done, holds⟩ := exists_of_succeedsWith passed
    obtain ⟨one, launched, done⟩ := bind_ok.mp done
    obtain ⟨core, launched', performed⟩ := bind_ok.mp done
    have first : Step twoCore oneThread program ⟨twoStart, fun _ => 0⟩ [.launched 0] ⟨one, fun _ => 0⟩ := by
      refine .launch (by decide) rfl ⟨0, Finset.mem_univ 0⟩ (by decide) (fun lane => ?_)
        (fun j apart lane => ?_) launched
      · obtain rfl : lane = 0 := Subsingleton.elim _ _
        simp [oneThread]
      · simp [oneThread, apart, twoStart, create]
    obtain ⟨vacant, threads⟩ : (one.warp 1).doneExit = true ∧
        one.machine.threads = Function.update (fun _ => (0, true)) 0 (0, false) := by
      rw [launchWarp_eq rfl rfl rfl] at launched
      cases launched
      exact ⟨rfl, rfl⟩
    have second : Step twoCore oneThread program ⟨one, fun _ => 0⟩ [.launched 1] ⟨core, fun _ => 0⟩ := by
      refine .launch (by decide) vacant ⟨0, Finset.mem_univ 0⟩ (by decide) (fun lane => ?_)
        (fun j apart lane => ?_) launched'
      · obtain rfl : lane = 0 := Subsingleton.elim _ _
        simp [oneThread]
      · rw [threads]
        rcases Nat.eq_zero_or_pos j with rfl | positive
        · simp [oneThread]
        · have later : 2 ≤ j := by omega
          simp [oneThread, later, positive.ne']
    rw [launchWarp_eq rfl rfl rfl] at launched
    obtain rfl := Except.ok.inj launched
    rw [launchWarp_eq rfl rfl rfl] at launched'
    obtain rfl := Except.ok.inj launched'
    exact ⟨program, _, s, events, (Reaches.refl.next first).next second, rfl, assembled,
      reaches_of_performAll performed, holds⟩

/-- The core issues all of warp 1 before any of warp 0, the functional simulation has them take turns. -/
theorem timing_agrees_with_functional_two : ∃ program sim ended turns core t events,
    CoreSim.initializeCta oneThread 2 (fun i => (0, decide (2 ≤ i))) = .ok sim ∧
    CoreSim.execute oneThread program 2 8 sim = .ok (some ended, turns) ∧ turns.map Prod.fst = [0, 1, 0, 1, 0] ∧
    Run twoCore oneThread program twoStart [.launched 0, .launched 1] ⟨core, fun _ => 0⟩ ∧
    Reaches (Step twoCore oneThread program) ⟨core, fun _ => 0⟩ events t ∧
    events.flatMap issuing = [1, 1, 0, 0, 0] ∧ t.core.machine = ended.machine := by
  obtain ⟨program, core, t, events, launch, machine, assembled, more, found⟩ := exists_of_testTwo [branchProgram]
    [.fetch 0, .fill (.request 0) 1, .fetch 2, .decode, .schedule 0 [some 1, some 0], .fetch 3, .decode, .fetch 4,
      .decode, .schedule 0 [some 1, some 0], .schedule 0 [some 1, some 0], .schedule 0 [some 1, some 0], .fetch 5,
      .decode, .schedule 0 [some 1, some 0], .complete 1, .complete 1, .complete 0, .complete 0, .complete 0, .fetch 6,
      .fetch 7]
    (fun s events => events.all isTurn && s.core.activeWarps == 0 && events.flatMap issuing == [1, 1, 0, 0, 0])
    rfl
  simp only [Bool.and_eq_true, List.all_eq_true, beq_iff_eq] at found
  obtain ⟨⟨onlyTurns, empty⟩, issued⟩ := found
  obtain ⟨program', sim, result, turns, assembled', created, ran, holds⟩ := CoreSim.exists_of_testTwo [branchProgram] 8
    (fun result turns => result.isSome && (turns.all fun turn => !turn.2.isAtomic) &&
      turns.map Prod.fst == [0, 1, 0, 1, 0]) rfl
  simp only [Bool.and_eq_true, Option.isSome_iff_exists, List.all_eq_true, Bool.not_eq_true', beq_iff_eq] at holds
  obtain ⟨⟨⟨ended, rfl⟩, plain⟩, order⟩ := holds
  obtain rfl := Except.ok.inj (assembled.symm.trans assembled')
  have launched : core.machine = sim.machine := by
    rw [machine]
    have same : CoreSim.initializeCta oneThread 2 (fun i => (0, decide (2 ≤ i))) = .ok
        ⟨⟨fun i => (0, decide (2 ≤ i)), Function.update (Function.update (fun _ => []) 0
          (SimtStack.launch 0 Finset.univ)) 1 (SimtStack.launch 0 Finset.univ)⟩,
        fun _ => false, Function.update (Function.update (fun _ => 0) 0 1) 1 1⟩ := rfl
    rw [same] at created
    rw [← Except.ok.inj created]
  have idle : ∀ i, 2 ≤ i → ¬ Machine.Live oneThread (fun i => (0, decide (2 ≤ i))) i := by
    rintro i outside ⟨lane, live⟩
    simp [oneThread, outside] at live
  obtain ⟨agree, -⟩ := timing_agrees_with_functional (smallStart_idle fun _ _ _ => ⟨rfl, rfl⟩)
    oneThread_separate.independent trivial created idle ran plain launch launched more onlyTurns empty
  exact ⟨program, sim, ended, turns, core, t, events, created, ran, order, launch, more, issued, agree⟩

end FrontEnd

end GpgpuSim.Shader
