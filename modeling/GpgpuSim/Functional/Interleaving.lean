import GpgpuSim.Functional.WarpExecution

/-! Warps that execute their instructions in any order. Each one executes the instruction at the top entry of
its SIMT stack, and the threads of that entry that live are at that instruction: the functional threads
and the stack never fall out of step. -/
namespace GpgpuSim.Functional
open Simt Shader Transition

variable {w : Nat} {μ : Type}

/-- What the performance model and the functional model both drive. -/
structure Machine (w : Nat) (μ : Type) where
  threads : μ
  simtStack : Nat → Stack w

namespace Machine

/-- `getExecuteWarp`, with the entry that it reads. -/
def getExecuteWarp (program : InstructionMemory) (s : Machine w μ) (i : Nat) :
    Except ExecFault (SimtStackEntry w × DecodedInst) :=
  match s.simtStack i with
  | [] => .error .emptyStack
  | top :: _ =>
      match program.fetch top.pc with
      | none => .error .noInstruction
      | some inst => .ok (top, inst)

/-- The next instruction of a warp. -/
def step (model : ThreadModel w μ) (program : InstructionMemory) (i : Nat) (s : Machine w μ) :
    Except ExecFault (Machine w μ) := do
  let (top, inst) ← s.getExecuteWarp program i
  let ended ← model.executeWarpInst (fun _ _ _ => .ok ()) inst i top.activeMask s.threads ()
  let stack ← model.updateSimtStack ended.threads i inst (s.simtStack i)
  return ⟨ended.threads, Function.update s.simtStack i stack⟩

/-- Some thread of the warp has not finished. -/
def Live (model : ThreadModel w μ) (m : μ) (i : Nat) : Prop := ∃ lane, model.done m i lane = false

instance (model : ThreadModel w μ) (m : μ) (i : Nat) : Decidable (Live model m i) :=
  inferInstanceAs (Decidable (∃ lane, model.done m i lane = false))

/-- The move of a warp, as long as it lives and nothing fails. -/
def move (model : ThreadModel w μ) (program : InstructionMemory) (i : Nat) (s : Machine w μ) : Option (Machine w μ) :=
  if Live model s.threads i then (s.step model program i).toOption else none

variable {model : ThreadModel w μ} {program : InstructionMemory} {s t : Machine w μ} {i j : Nat} {m : μ}
  {inst : DecodedInst} {top : SimtStackEntry w} {rest : Stack w}

theorem getExecuteWarp_ok (done : s.getExecuteWarp program i = .ok (top, inst)) :
    (∃ rest, s.simtStack i = top :: rest) ∧ program.fetch top.pc = some inst ∧ inst.pc = top.pc := by
  rw [getExecuteWarp] at done
  split at done
  · contradiction
  next found rest entries =>
    split at done
    · contradiction
    next fetched =>
      cases done
      exact ⟨⟨rest, entries⟩, fetched, InstructionMemory.fetch_pc fetched⟩

/-- What a step has done. -/
structure Stepped (model : ThreadModel w μ) (program : InstructionMemory) (i : Nat) (s : Machine w μ)
    (top : SimtStackEntry w) (inst : DecodedInst) (t : Machine w μ) : Prop where
  atTop : ∃ rest, s.simtStack i = top :: rest
  fetched : program.fetch top.pc = some inst
  pc : inst.pc = top.pc
  inSync : ∀ lane ∈ top.activeMask, model.pc s.threads i lane = inst.pc
  live : ∀ lane ∈ top.activeMask, model.done s.threads i lane = false
  threads : t.threads = model.execWarp inst i top.activeMask s.threads
  updated : ∃ stack, model.updateSimtStack t.threads i inst (s.simtStack i) = .ok stack ∧
    t.simtStack = Function.update s.simtStack i stack

theorem step_ok (done : s.step model program i = .ok t) : ∃ top inst, Stepped model program i s top inst t := by
  obtain ⟨⟨top, inst⟩, found, done⟩ := bind_ok.mp done
  obtain ⟨ended, executed, done⟩ := bind_ok.mp done
  obtain ⟨stack, updated, done⟩ := bind_ok.mp done
  obtain rfl := pure_ok.mp done
  obtain ⟨atTop, fetched, pc⟩ := getExecuteWarp_ok found
  have executed := ThreadModel.executeWarpInst_ok executed
  exact ⟨top, inst, atTop, fetched, pc, executed.inSync, executed.live, executed.threads, stack, updated, rfl⟩

/-- The other warps stay as they are. -/
theorem Stepped.other (stepped : Stepped model program i s top inst t) (apart : j ≠ i) :
    t.simtStack j = s.simtStack j ∧ ∀ lane, model.pc t.threads j lane = model.pc s.threads j lane ∧
      model.done t.threads j lane = model.done s.threads j lane := by
  obtain ⟨stack, -, same⟩ := stepped.updated
  refine ⟨by rw [same, Function.update_of_ne apart], ?_⟩
  intro lane
  rw [stepped.threads]
  exact ThreadModel.execWarp_other apart lane

theorem move_eq_some :
    move model program i s = some t ↔ Live model s.threads i ∧ s.step model program i = .ok t := by
  rw [move]
  split
  next live => cases s.step model program i <;> simp [live, Except.toOption]
  next dead => simp [dead]

/-! ## Warps that do not disturb one another -/

/-- Instructions of different warps have the same effect in either order, and change no return PC of another warp. -/
structure Separate (model : ThreadModel w μ) : Prop where
  commute : ∀ {i j : Nat} (inst other : DecodedInst) (mask mask' : SimtMask w) (m : μ), i ≠ j →
    model.execWarp inst i mask (model.execWarp other j mask' m) =
      model.execWarp other j mask' (model.execWarp inst i mask m)
  returnPc : ∀ {i j : Nat} (inst : DecodedInst) (mask : SimtMask w) (m : μ) (lane : Fin w), i ≠ j →
    model.returnPc (model.execWarp inst i mask m) j lane = model.returnPc m j lane

namespace Separate

theorem updateSimtStack (separate : Separate model) (apart : i ≠ j) {mask : SimtMask w} {other : DecodedInst}
    {stack : Stack w} : model.updateSimtStack (model.execWarp inst i mask m) j other stack =
      model.updateSimtStack m j other stack := by
  have same : ∀ lane, model.pc (model.execWarp inst i mask m) j lane = model.pc m j lane ∧
      model.done (model.execWarp inst i mask m) j lane = model.done m j lane := ThreadModel.execWarp_other apart.symm
  have reconvergence : model.reconvergencePc (model.execWarp inst i mask m) j other =
      model.reconvergencePc m j other := by
    simp only [ThreadModel.reconvergencePc, (same _).2, separate.returnPc inst mask m _ apart]
  rw [ThreadModel.updateSimtStack, ThreadModel.updateSimtStack, ThreadModel.threadDone_congr fun lane => (same lane).2,
    ThreadModel.nextPc_congr same, reconvergence]

/-- A warp steps after another one as it would have stepped before it. -/
theorem step_after (separate : Separate model) (apart : i ≠ j) {u : Machine w μ}
    (first : Stepped model program i s top inst t) (second : s.step model program j = .ok u) :
    t.step model program j =
      .ok ⟨model.execWarp inst i top.activeMask u.threads, Function.update u.simtStack i (t.simtStack i)⟩ := by
  obtain ⟨⟨top', other⟩, found, second⟩ := bind_ok.mp second
  obtain ⟨ended, executed, second⟩ := bind_ok.mp second
  obtain ⟨stack, updated, second⟩ := bind_ok.mp second
  obtain rfl := pure_ok.mp second
  have executed := ThreadModel.executeWarpInst_ok executed
  obtain ⟨sameStack, same⟩ := first.other apart.symm
  have ready : ∀ lane ∈ top'.activeMask, model.pc t.threads j lane = other.pc ∧
      model.done t.threads j lane = false := by
    intro lane active
    rw [(same lane).1, (same lane).2]
    exact ⟨executed.inSync lane active, executed.live lane active⟩
  obtain ⟨ended', executes⟩ :=
    ThreadModel.exists_executeWarpInst (fun _ _ _ => .ok ()) () (fun _ _ _ => ⟨(), rfl⟩) ready
  have threads : ended'.threads = model.execWarp inst i top.activeMask ended.threads := by
    rw [(ThreadModel.executeWarpInst_ok executes).threads, first.threads, executed.threads,
      separate.commute other inst _ _ _ apart.symm]
  have stays : t.getExecuteWarp program j = .ok (top', other) := by
    rw [getExecuteWarp, sameStack]
    exact found
  refine bind_ok.mpr ⟨(top', other), stays, bind_ok.mpr ⟨ended', executes, bind_ok.mpr ⟨stack, ?_, ?_⟩⟩⟩
  · rw [threads, sameStack, separate.updateSimtStack apart]
    exact updated
  · obtain ⟨stack', -, moved⟩ := first.updated
    rw [threads, moved, Function.update_self, Function.update_comm apart]
    rfl

theorem independent (separate : Separate model) : Independent (move model program) fun _ => True where
  kept _ _ := trivial
  commute := by
    intro i j s t u _ apart first second
    obtain ⟨live, first⟩ := move_eq_some.mp first
    obtain ⟨live', second⟩ := move_eq_some.mp second
    obtain ⟨top, inst, stepped⟩ := step_ok first
    obtain ⟨top', other, stepped'⟩ := step_ok second
    have after := separate.step_after apart stepped second
    have after' := separate.step_after apart.symm stepped' first
    have same : (⟨model.execWarp other j top'.activeMask t.threads, Function.update t.simtStack j (u.simtStack j)⟩ :
        Machine w μ) = ⟨model.execWarp inst i top.activeMask u.threads,
          Function.update u.simtStack i (t.simtStack i)⟩ := by
      obtain ⟨stack, -, moved⟩ := stepped.updated
      obtain ⟨stack', -, moved'⟩ := stepped'.updated
      rw [stepped.threads, stepped'.threads, separate.commute inst other _ _ _ apart, moved, moved',
        Function.update_self, Function.update_self, Function.update_comm apart]
    refine ⟨_, move_eq_some.mpr ⟨?_, after⟩, move_eq_some.mpr ⟨?_, after'.trans (congrArg _ same)⟩⟩
    · obtain ⟨lane, alive⟩ := live'
      exact ⟨lane, ((stepped.other apart.symm).2 lane).2.trans alive⟩
    · obtain ⟨lane, alive⟩ := live
      exact ⟨lane, ((stepped'.other apart).2 lane).2.trans alive⟩

end Separate

/-! ## Threads and stacks in step -/

/-- A warp as its stack sees it. -/
def warp (model : ThreadModel w μ) (s : Machine w μ) (i : Nat) : SimtStack.Warp w :=
  ⟨s.simtStack i, model.threadDone s.threads i, model.nextPc s.threads i⟩

/-- The stack of a warp follows its threads. -/
def InStep (model : ThreadModel w μ) (s : Machine w μ) (i : Nat) : Prop :=
  SimtStack.Invariant (s.warp model i).threadDone (s.warp model i).nextPc (s.warp model i).stack

/-- What is promised of the instruction that warp `i` has executed at the entry `top`, with the threads `m` after it:
at most two next PCs, one after a call or a return from one, and the reconvergence PC of a divergence. -/
def Promised (model : ThreadModel w μ) (m : μ) (i : Nat) (inst : DecodedInst) (top : SimtStackEntry w) : Prop :=
  SimtStack.Executed (model.threadDone m i) (model.nextPc m i) (model.reconvergencePc m i inst) (simtOp inst.op) top

theorem InStep.congr {t : Machine w μ} (inStep : InStep model s i) (stack : t.simtStack i = s.simtStack i)
    (same : ∀ lane, model.pc t.threads i lane = model.pc s.threads i lane ∧
      model.done t.threads i lane = model.done s.threads i lane) : InStep model t i := by
  rw [InStep, warp, ThreadModel.threadDone_congr fun lane => (same lane).2, ThreadModel.nextPc_congr same, stack]
  exact inStep

/-- The live threads of the top entry are at its PC. -/
theorem InStep.pc_eq (inStep : InStep model s i) (atTop : s.simtStack i = top :: rest) {lane : Fin w}
    (active : lane ∈ top.activeMask) (live : model.done s.threads i lane = false) :
    model.pc s.threads i lane = top.pc := by
  have located := inStep.located lane (by simp [warp, ThreadModel.mem_threadDone, live])
  rw [warp, atTop, SimtStack.pcOf, if_pos active] at located
  rw [Option.some.inj located]
  simp [ThreadModel.nextPc, live]

/-- What executing the instruction leaves to the update of the stack. -/
theorem executes_execWarp (live : ∀ lane ∈ top.activeMask, model.done s.threads i lane = false)
    (promised : Promised model (model.execWarp inst i top.activeMask s.threads) i inst top) :
    SimtStack.Executes (s.warp model i) top
      (model.threadDone (model.execWarp inst i top.activeMask s.threads) i)
      (model.nextPc (model.execWarp inst i top.activeMask s.threads) i)
      (model.reconvergencePc (model.execWarp inst i top.activeMask s.threads) i inst) (simtOp inst.op) where
  toExecuted := promised
  grows := by
    intro lane gone
    rw [warp, ThreadModel.mem_threadDone] at gone
    have idle : lane ∉ top.activeMask := by
      intro active
      rw [live lane active] at gone
      contradiction
    rw [ThreadModel.mem_threadDone]
    rw [(ThreadModel.execWarp_idle idle).2, gone]
  idle := by
    intro lane _ idle
    exact ThreadModel.nextPc_execWarp idle

theorem InStep.step (inStep : InStep model s i) (stepped : Stepped model program i s top inst t)
    (promised : Promised model t.threads i inst top) : InStep model t i := by
  obtain ⟨rest, atTop⟩ := stepped.atTop
  obtain ⟨stack, updated, same⟩ := stepped.updated
  rw [stepped.threads] at promised updated
  have executes := executes_execWarp stepped.live promised
  obtain ⟨next, ok, kept⟩ := SimtStack.Invariant.of_update inStep atTop executes inst.isize
  rw [warp] at ok
  rw [ThreadModel.updateSimtStack, stepped.pc, ok] at updated
  rw [InStep, warp, same, Function.update_self, stepped.threads, ← Except.ok.inj updated]
  exact kept

/-- A warp is launched on threads that have finished; what else the memory system does moves no thread. -/
inductive Action
  | execute (i : Nat)
  | launch (i : Nat)
  | memory
  deriving DecidableEq, Repr

inductive Step (model : ThreadModel w μ) (program : InstructionMemory) : Machine w μ → List Action → Machine w μ → Prop
  | execute {s t : Machine w μ} {i : Nat} {top : SimtStackEntry w} {inst : DecodedInst}
      (done : s.step model program i = .ok t) (stepped : Stepped model program i s top inst t)
      (promised : Promised model t.threads i inst top) : Step model program s [.execute i] t
  | launch {s : Machine w μ} {i : Nat} {threads : μ} (startPc : AddressType) (mask : SimtMask w)
      (some : mask.Nonempty) (real : startPc ≠ nullPc)
      (ended : ¬ Live model s.threads i)
      (fresh : ∀ lane, model.done threads i lane = decide (lane ∉ mask) ∧
        (lane ∈ mask → model.pc threads i lane = startPc))
      (others : ∀ j, j ≠ i → ∀ lane, model.pc threads j lane = model.pc s.threads j lane ∧
        model.done threads j lane = model.done s.threads j lane) :
      Step model program s [.launch i] ⟨threads, Function.update s.simtStack i (SimtStack.launch startPc mask)⟩
  | memory {s : Machine w μ} {threads : μ} (same : ∀ j lane, model.pc threads j lane = model.pc s.threads j lane ∧
      model.done threads j lane = model.done s.threads j lane) : Step model program s [.memory] ⟨threads, s.simtStack⟩

/-- Runs start with no live thread and empty stacks. -/
def Run (model : ThreadModel w μ) (program : InstructionMemory) (m : μ) : List Action → Machine w μ → Prop :=
  Reaches (Step model program) ⟨m, fun _ => []⟩

theorem InStep.launched {startPc : AddressType} {mask : SimtMask w} {threads : μ} (some : mask.Nonempty)
    (real : startPc ≠ nullPc) (fresh : ∀ lane, model.done threads i lane = decide (lane ∉ mask) ∧
      (lane ∈ mask → model.pc threads i lane = startPc)) (simtStack : Nat → Stack w) :
    InStep model ⟨threads, Function.update simtStack i (SimtStack.launch startPc mask)⟩ i := by
  have invariant := SimtStack.Invariant.launch some real
  have doneSame : model.threadDone threads i = maskᶜ := by
    ext lane
    rw [ThreadModel.mem_threadDone, (fresh lane).1]
    simp
  rw [InStep, warp]
  dsimp only
  rw [doneSame, Function.update_self]
  refine ⟨invariant.sound, invariant.nested, ?_⟩
  intro lane live
  rw [invariant.located lane live]
  have member : lane ∈ mask := by simpa using live
  simp [ThreadModel.nextPc, (fresh lane).1, (fresh lane).2 member, member]

theorem inStep_of_run {trace : List Action} (none : ∀ i, ¬ Live model m i) (run : Run model program m trace s) :
    ∀ i, InStep model s i := by
  apply run.invariant (P := fun _ s => ∀ i, InStep model s i)
  · intro i
    refine ⟨trivial, trivial, ?_⟩
    intro lane live
    rw [warp, ThreadModel.mem_threadDone, Bool.not_eq_true] at live
    exact absurd ⟨lane, live⟩ (none i)
  · intro trace s events t _ inStep step j
    cases step with
    | @execute _ i top inst done stepped promised =>
        by_cases same : j = i
        · subst same
          exact (inStep j).step stepped promised
        · obtain ⟨stack, others⟩ := stepped.other same
          exact (inStep j).congr stack others
    | @launch i threads startPc mask some real _ fresh others =>
        by_cases same : j = i
        · subst same
          exact .launched some real fresh s.simtStack
        · exact (inStep j).congr (Function.update_of_ne same _ _) (others j same)
    | memory same => exact (inStep j).congr rfl (same j)

/-- In every run: an instruction that keeps its promise is executed exactly when the threads of the top entry live.
The threads that live are at the PC of the entry, and the stack accepts what the instruction leaves. -/
theorem step_ok_iff {trace : List Action} (none : ∀ i, ¬ Live model m i) (run : Run model program m trace s)
    (atTop : s.simtStack i = top :: rest) (fetched : program.fetch top.pc = some inst)
    (promised : (∀ lane ∈ top.activeMask, model.done s.threads i lane = false) →
      Promised model (model.execWarp inst i top.activeMask s.threads) i inst top) :
    (∃ t, s.step model program i = .ok t ∧ t.threads = model.execWarp inst i top.activeMask s.threads) ↔
      ∀ lane ∈ top.activeMask, model.done s.threads i lane = false := by
  have inStep := inStep_of_run none run i
  have found : s.getExecuteWarp program i = .ok (top, inst) := by
    rw [getExecuteWarp, atTop]
    dsimp only
    rw [fetched]
  constructor
  · rintro ⟨t, done, -⟩
    obtain ⟨top', inst', stepped⟩ := step_ok done
    obtain ⟨rest', atTop'⟩ := stepped.atTop
    obtain ⟨rfl, -⟩ := List.cons.inj (atTop.symm.trans atTop')
    exact stepped.live
  · intro live
    have ready : ∀ lane ∈ top.activeMask, model.pc s.threads i lane = inst.pc ∧
      model.done s.threads i lane = false := by
      intro lane active
      rw [InstructionMemory.fetch_pc fetched]
      exact ⟨inStep.pc_eq atTop active (live lane active), live lane active⟩
    obtain ⟨ended, executed⟩ :=
      ThreadModel.exists_executeWarpInst (fun _ _ _ => .ok ()) () (fun _ _ _ => ⟨(), rfl⟩) ready
    have threads := (ThreadModel.executeWarpInst_ok executed).threads
    obtain ⟨stack, updated, -⟩ := SimtStack.Invariant.of_update inStep atTop
      (executes_execWarp live (promised live)) inst.isize
    rw [warp] at updated
    have updated : model.updateSimtStack ended.threads i inst (s.simtStack i) = .ok stack := by
      rw [ThreadModel.updateSimtStack, threads, InstructionMemory.fetch_pc fetched, updated]
    refine ⟨⟨ended.threads, Function.update s.simtStack i stack⟩, ?_, threads⟩
    rw [step, found]
    refine bind_ok.mpr ⟨(top, inst), rfl, bind_ok.mpr ⟨ended, executed, bind_ok.mpr ⟨stack, updated, rfl⟩⟩⟩

end Machine

/-- Warps of one thread, each with its PC and whether it has finished. A branch is taken by warp 1 only. -/
def oneThread : ThreadModel 1 (Nat → AddressType × Bool) where
  pc m i _ := (m i).1
  done m i _ := (m i).2
  returnPc _ _ _ := 0
  barrier _ _ _ := ⟨.sync, 0, unset⟩
  execInst inst i _ m :=
    (Function.update m i
      (if inst.op = .branchOp ∧ i = 1 then inst.reconvergencePc else (m i).1 + inst.isize, inst.op == .exitOps), false)
  doAtomic _ _ _ m := m
  own inst i lane m j other apart := by
    have elsewhere : j ≠ i := by
      rintro rfl
      exact apart (by rw [Subsingleton.elim other lane])
    dsimp only
    rw [Function.update_of_ne elsewhere]
    exact ⟨rfl, rfl⟩
  atomic _ _ _ _ _ _ := ⟨rfl, rfl⟩

theorem oneThread_separate : Machine.Separate oneThread where
  commute inst other mask mask' m apart := by
    simp only [ThreadModel.execWarp, ThreadModel.execLanes, List.finRange_succ, List.finRange_zero, List.map_nil,
      List.foldl_cons, List.foldl_nil]
    split <;> split <;>
      simp only [oneThread, Function.update_of_ne apart, Function.update_of_ne apart.symm, Function.update_comm apart]
  returnPc _ _ _ _ _ := rfl

theorem Machine.step_ok_iff_one : ∃ program s t, Run oneThread program (fun _ => (0, true)) [.launch 0] s ∧
    s.step oneThread program 0 = .ok t ∧ t.threads 0 = (8, false) := by
  obtain ⟨program, assembled, found⟩ : ∃ program, InstructionMemory.assemble [[plainInst .aluOp nullPc]] =
      .ok program ∧ program.fetch 0 == some (plainInst .aluOp nullPc) :=
    exists_of_succeedsWith rfl
  rw [beq_iff_eq] at found
  have none : ∀ i, ¬ Live oneThread (fun _ => (0, true)) i := by
    rintro i ⟨lane, live⟩
    contradiction
  have run : Run oneThread program (fun _ => (0, true)) [.launch 0] ⟨Function.update (fun _ => (0, true)) 0 (0, false),
      Function.update (fun _ => []) 0 (SimtStack.launch 0 Finset.univ)⟩ := by
    refine Reaches.next .refl (.launch 0 Finset.univ ⟨0, Finset.mem_univ _⟩ (by decide) (none 0) ?_ ?_)
    · intro lane
      obtain rfl : lane = 0 := Subsingleton.elim _ _
      simp [oneThread]
    · intro j apart lane
      simp [oneThread, Function.update_of_ne apart]
  have atTop : (Function.update (fun _ => []) 0 (SimtStack.launch 0 Finset.univ) : Nat → Stack 1) 0 =
      [{ pc := 0, activeMask := Finset.univ, type := .normal }] := rfl
  have alone : ∀ (mask : SimtMask 1) (nextPc : Fin 1 → AddressType), (mask.image nextPc).card ≤ 1 := fun mask nextPc =>
    Finset.card_image_le.trans (Finset.card_le_univ mask)
  have stepped := step_ok_iff (i := 0) none run atTop found fun _ =>
    ⟨by decide, (alone _ _).trans (by decide), fun _ => alone _ _,
      fun two => absurd two (Nat.ne_of_lt (Nat.lt_succ_of_le (alone _ _)))⟩
  obtain ⟨t, done, threads⟩ := stepped.mpr (by simp [oneThread])
  exact ⟨program, _, t, run, done, by rw [threads]; decide⟩

end GpgpuSim.Functional
