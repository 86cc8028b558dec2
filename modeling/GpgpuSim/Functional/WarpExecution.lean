import GpgpuSim.Functional.InstructionMemory
import GpgpuSim.Shader.Barriers
import GpgpuSim.Simt.StackRuns
import GpgpuSim.Transition.Commuting
import GpgpuSim.Transition.Outcomes

/-! The execution of one instruction of a warp, as the performance model and the functional model share it:
the active threads execute it one after the other, and the SIMT stack follows their next PCs. -/
namespace GpgpuSim.Functional
open Simt Shader Cache Transition

/-- The threads in a state `μ` of the functional model. `execInst` is `ptx_exec_inst` past its assertions, with
whether its predicate kept the thread from executing, and `doAtomic` performs what the executed lanes of an
atomic operation have left to do. -/
structure ThreadModel (w : Nat) (μ : Type) where
  pc : μ → Nat → Fin w → AddressType
  done : μ → Nat → Fin w → Bool
  returnPc : μ → Nat → Fin w → AddressType
  barrier : μ → Nat → DecodedInst → BarrierInst
  execInst : DecodedInst → Nat → Fin w → μ → μ × Bool
  doAtomic : DecodedInst → Nat → SimtMask w → μ → μ
  /-- A thread moves by its own instructions only. -/
  own : ∀ inst i lane m j other, (j, other) ≠ (i, lane) →
    pc (execInst inst i lane m).1 j other = pc m j other ∧ done (execInst inst i lane m).1 j other = done m j other
  atomic : ∀ inst i mask m j other,
    pc (doAtomic inst i mask m) j other = pc m j other ∧ done (doAtomic inst i mask m) j other = done m j other

inductive ExecFault
  | emptyStack
  | noInstruction
  | outOfSync
  | alreadyDone
  | assertion
  | stack (fault : StackFault)
  | barrier (fault : BarrierFault)
  | scoreboard (fault : ScoreboardFault)
  | cache (fault : CacheFault)
  | register
  deriving DecidableEq, Repr

/-- `RECONVERGE_RETURN_PC`. -/
def reconvergeReturnPc : AddressType := -2

/-- The operations that the SIMT stack tells apart. -/
def simtOp : UarchOp → OpType
  | .callOps => .callOps
  | .retOps => .retOps
  | _ => .otherOps

variable {w : Nat} {μ κ : Type}

namespace ThreadModel

variable (model : ThreadModel w μ)

/-- `ptx_thread_done` for the lanes of a warp. -/
def threadDone (m : μ) (i : Nat) : SimtMask w := Finset.univ.filter fun lane => model.done m i lane = true

/-- The assertions of `ptx_exec_inst`, the first of which keeps timing model and functional model in sync. -/
def executeLane (inst : DecodedInst) (i : Nat) (lane : Fin w) (m : μ) : Except ExecFault (μ × Bool) :=
  if model.pc m i lane ≠ inst.pc then .error .outOfSync
  else if model.done m i lane then .error .alreadyDone
  else .ok (model.execInst inst i lane m)

/-- The loop of `execute_warp_inst_t`: the threads, the lanes that remain active, and what
`checkExecutionStatusAndUpdate` keeps. -/
structure LaneLoop (w : Nat) (μ κ : Type) where
  threads : μ
  active : SimtMask w
  core : κ

/-- `check` is `checkExecutionStatusAndUpdate`. -/
def visitLane (check : κ → Fin w → μ → Except ExecFault κ) (inst : DecodedInst) (i : Nat) (mask : SimtMask w)
    (loop : LaneLoop w μ κ) (lane : Fin w) : Except ExecFault (LaneLoop w μ κ) :=
  if lane ∈ mask then
    match model.executeLane inst i lane loop.threads with
    | .error fault => .error fault
    | .ok (threads, skipped) =>
        match check loop.core lane threads with
        | .error fault => .error fault
        | .ok core => .ok ⟨threads, if skipped then loop.active.erase lane else loop.active, core⟩
  else .ok loop

def executeWarpInst (check : κ → Fin w → μ → Except ExecFault κ) (inst : DecodedInst) (i : Nat) (mask : SimtMask w)
    (m : μ) (core : κ) : Except ExecFault (LaneLoop w μ κ) :=
  (List.finRange w).foldlM (model.visitLane check inst i mask) ⟨m, mask, core⟩

/-- The reconvergence PC of the instruction: for a return it is the return PC of the first live thread. -/
def reconvergencePc (m : μ) (i : Nat) (inst : DecodedInst) : AddressType :=
  (List.finRange w).foldl (fun pc lane =>
    if model.done m i lane then pc
    else if pc = reconvergeReturnPc then model.returnPc m i lane else pc) inst.reconvergencePc

def nextPc (m : μ) (i : Nat) (lane : Fin w) : AddressType := if model.done m i lane then nullPc else model.pc m i lane

def updateSimtStack (m : μ) (i : Nat) (inst : DecodedInst) (stack : Stack w) : Except ExecFault (Stack w) :=
  match SimtStack.update (model.threadDone m i) (model.nextPc m i) (model.reconvergencePc m i inst) (simtOp inst.op)
    inst.isize inst.pc stack with
  | .ok stack => .ok stack
  | .error fault => .error (.stack fault)

/-! ## What the loop does -/

/-- The threads after the lanes of a list have executed. -/
def execLanes (inst : DecodedInst) (i : Nat) (mask : SimtMask w) (lanes : List (Fin w)) (m : μ) : μ :=
  lanes.foldl (fun m lane => if lane ∈ mask then (model.execInst inst i lane m).1 else m) m

variable {model} {check : κ → Fin w → μ → Except ExecFault κ} {inst : DecodedInst} {i j : Nat} {mask : SimtMask w}
  {m : μ} {core : κ} {loop ended : LaneLoop w μ κ} {lanes : List (Fin w)}

theorem mem_threadDone {lane : Fin w} : lane ∈ model.threadDone m i ↔ model.done m i lane = true := by
  simp [threadDone]

/-- Only the active lanes move. -/
theorem execLanes_frame {other : Fin w} (apart : ∀ lane ∈ lanes, lane ∈ mask → (j, other) ≠ (i, lane)) :
    model.pc (model.execLanes inst i mask lanes m) j other = model.pc m j other ∧
      model.done (model.execLanes inst i mask lanes m) j other = model.done m j other := by
  induction lanes generalizing m with
  | nil => exact ⟨rfl, rfl⟩
  | cons lane rest ih =>
      rw [execLanes, List.foldl_cons]
      obtain ⟨samePc, sameDone⟩ := @ih (if lane ∈ mask then (model.execInst inst i lane m).1 else m)
        fun later member => apart later (List.mem_cons_of_mem _ member)
      rw [execLanes] at samePc sameDone
      rw [samePc, sameDone]
      split
      next active => exact model.own inst i lane m j other (apart lane List.mem_cons_self active)
      · exact ⟨rfl, rfl⟩

/-- One lane of the loop. -/
structure Visited (model : ThreadModel w μ) (check : κ → Fin w → μ → Except ExecFault κ) (inst : DecodedInst) (i : Nat)
    (lane : Fin w) (loop next : LaneLoop w μ κ) : Prop where
  inSync : model.pc loop.threads i lane = inst.pc
  live : model.done loop.threads i lane = false
  threads : next.threads = (model.execInst inst i lane loop.threads).1
  active : next.active ⊆ loop.active
  checked : check loop.core lane next.threads = .ok next.core

theorem visitLane_ok {next : LaneLoop w μ κ} {lane : Fin w}
    (done : model.visitLane check inst i mask loop lane = .ok next) :
    lane ∉ mask ∧ next = loop ∨ lane ∈ mask ∧ Visited model check inst i lane loop next := by
  rw [visitLane] at done
  split at done
  next active =>
    split at done
    · contradiction
    next threads skipped executed =>
      split at done
      · contradiction
      next core checked =>
        cases done
        rw [executeLane] at executed
        split_ifs at executed with sync live
        obtain ⟨same, -⟩ := Prod.ext_iff.mp (Except.ok.inj executed)
        refine .inr ⟨active, by simpa using sync, by simpa using live, same.symm, ?_, checked⟩
        dsimp only
        split
        · exact Finset.erase_subset _ _
        · exact Finset.Subset.refl _
  next idle =>
    cases done
    exact .inl ⟨idle, rfl⟩

/-- What holds of the core at the start and is kept by each lane that executes holds at the end; the threads do
not depend on the check. -/
theorem foldlM_visitLane (distinct : lanes.Nodup) {P : List (Fin w) → κ → μ → Prop}
    (step : ∀ loop next lane rest, Visited model check inst i lane loop next → lane ∈ mask →
      P (lane :: rest) loop.core loop.threads → P rest next.core next.threads)
    (skip : ∀ lane rest core m, lane ∉ mask → P (lane :: rest) core m → P rest core m)
    (start : P lanes loop.core loop.threads)
    (done : lanes.foldlM (model.visitLane check inst i mask) loop = .ok ended) :
    P [] ended.core ended.threads ∧ ended.threads = model.execLanes inst i mask lanes loop.threads ∧
      ended.active ⊆ loop.active ∧
      ∀ lane ∈ lanes, lane ∈ mask → model.pc loop.threads i lane = inst.pc ∧
        model.done loop.threads i lane = false := by
  induction lanes generalizing loop with
  | nil =>
      cases done
      exact ⟨start, rfl, Finset.Subset.refl _, by simp⟩
  | cons lane rest ih =>
      obtain ⟨absent, distinct⟩ := List.nodup_cons.mp distinct
      obtain ⟨next, visited, later⟩ := bind_ok.mp done
      rcases visitLane_ok visited with ⟨idle, rfl⟩ | ⟨active, visited⟩
      · obtain ⟨holds, threads, remains, each⟩ := ih distinct (skip lane rest _ _ idle start) later
        refine ⟨holds, ?_, remains, ?_⟩
        · rw [threads, execLanes, execLanes, List.foldl_cons, if_neg idle]
        · intro other member now
          rcases List.mem_cons.mp member with rfl | member
          · exact absurd now idle
          · exact each other member now
      · obtain ⟨holds, threads, remains, each⟩ :=
          ih distinct (step _ _ lane rest visited active start) later
        refine ⟨holds, ?_, remains.trans visited.active, ?_⟩
        · rw [threads, visited.threads, execLanes, execLanes, List.foldl_cons, if_pos active]
        · intro other member now
          rcases List.mem_cons.mp member with rfl | member
          · exact ⟨visited.inSync, visited.live⟩
          · have apart : (i, other) ≠ (i, lane) := by
              rintro ⟨⟩
              exact absent member
            obtain ⟨samePc, sameDone⟩ := model.own inst i lane loop.threads i other apart
            rw [← samePc, ← sameDone, ← visited.threads]
            exact each other member now

/-- The loop keeps what the check keeps when a thread that lives and stands at the instruction has executed it. -/
theorem ends_foldlM_visitLane {P : List (Fin w) → κ → μ → Prop} {F : ExecFault → Prop}
    (step : ∀ core m lane rest, lane ∈ mask → model.done m i lane = false → P (lane :: rest) core m →
      Ends (check core lane (model.execInst inst i lane m).1)
        (fun next => P rest next (model.execInst inst i lane m).1) F)
    (skip : ∀ lane rest core m, lane ∉ mask → P (lane :: rest) core m → P rest core m)
    (outOfSync : F .outOfSync) (alreadyDone : F .alreadyDone) (start : P lanes loop.core loop.threads) :
    Ends (lanes.foldlM (model.visitLane check inst i mask) loop) (fun ended => P [] ended.core ended.threads) F := by
  induction lanes generalizing loop with
  | nil => exact start
  | cons lane rest ih =>
      rw [List.foldlM_cons]
      refine Ends.bind (Q := fun next => P rest next.core next.threads) ?_ fun next holds => ih holds
      rw [visitLane]
      split
      next active =>
        rw [executeLane]
        split_ifs with moved gone
        · exact outOfSync
        · exact alreadyDone
        · have checked := step _ _ lane rest active (by simpa using gone) start
          dsimp only
          split
          next stopped => exact checked.fault stopped
          next kept => exact checked.result kept
      next idle => exact skip lane rest _ _ idle start

/-- The loop runs through when the active threads live and stand at the instruction, unless the check stops it. -/
theorem exists_foldlM_visitLane (distinct : lanes.Nodup) (checks : ∀ core lane threads, ∃ next,
    check core lane threads = .ok next)
    (ready : ∀ lane ∈ lanes, lane ∈ mask → model.pc loop.threads i lane = inst.pc ∧
      model.done loop.threads i lane = false) :
    ∃ ended, lanes.foldlM (model.visitLane check inst i mask) loop = .ok ended := by
  induction lanes generalizing loop with
  | nil => exact ⟨loop, rfl⟩
  | cons lane rest ih =>
      obtain ⟨absent, distinct⟩ := List.nodup_cons.mp distinct
      by_cases active : lane ∈ mask
      · obtain ⟨sync, live⟩ := ready lane List.mem_cons_self active
        have executed : model.executeLane inst i lane loop.threads = .ok (model.execInst inst i lane loop.threads) := by
          rw [executeLane, if_neg (by simpa using sync), if_neg (by simpa using live)]
        obtain ⟨core, checked⟩ := checks loop.core lane (model.execInst inst i lane loop.threads).1
        have visited : ∃ next, model.visitLane check inst i mask loop lane = .ok next ∧
            next.threads = (model.execInst inst i lane loop.threads).1 := by
          rw [visitLane, if_pos active, executed]
          dsimp only
          rw [checked]
          exact ⟨_, rfl, rfl⟩
        obtain ⟨next, visited, threads⟩ := visited
        rw [List.foldlM_cons, visited]
        apply ih distinct
        intro other member now
        have apart : (i, other) ≠ (i, lane) := by
          rintro ⟨⟩
          exact absent member
        obtain ⟨samePc, sameDone⟩ := model.own inst i lane loop.threads i other apart
        rw [threads, samePc, sameDone]
        exact ready other (List.mem_cons_of_mem _ member) now
      · rw [List.foldlM_cons, visitLane, if_neg active]
        exact ih distinct fun other member => ready other (List.mem_cons_of_mem _ member)

/-- The threads after a whole instruction. -/
def execWarp (model : ThreadModel w μ) (inst : DecodedInst) (i : Nat) (mask : SimtMask w) (m : μ) : μ :=
  model.execLanes inst i mask (List.finRange w) m

/-- A whole instruction: each active thread is live and stands at the instruction before it is executed. -/
structure Executed (model : ThreadModel w μ) (inst : DecodedInst) (i : Nat) (mask : SimtMask w) (m : μ)
    (ended : LaneLoop w μ κ) : Prop where
  threads : ended.threads = model.execWarp inst i mask m
  active : ended.active ⊆ mask
  inSync : ∀ lane ∈ mask, model.pc m i lane = inst.pc
  live : ∀ lane ∈ mask, model.done m i lane = false

theorem executeWarpInst_ok (done : model.executeWarpInst check inst i mask m core = .ok ended) :
    Executed model inst i mask m ended := by
  obtain ⟨-, threads, active, each⟩ := foldlM_visitLane (List.nodup_finRange w) (P := fun _ _ _ => True)
    (fun _ _ _ _ _ _ _ => trivial) (fun _ _ _ _ _ _ => trivial) trivial done
  exact ⟨threads, active, fun lane member => (each lane (List.mem_finRange lane) member).1,
    fun lane member => (each lane (List.mem_finRange lane) member).2⟩

theorem exists_executeWarpInst (check : κ → Fin w → μ → Except ExecFault κ) (core : κ)
    (checks : ∀ core lane threads, ∃ next, check core lane threads = .ok next)
    (ready : ∀ lane ∈ mask, model.pc m i lane = inst.pc ∧ model.done m i lane = false) :
    ∃ ended, model.executeWarpInst check inst i mask m core = .ok ended :=
  exists_foldlM_visitLane (List.nodup_finRange w) checks fun lane _ => ready lane

/-- What the check keeps has no part in what the threads do. -/
theorem foldlM_visitLane_unchecked (done : lanes.foldlM (model.visitLane check inst i mask) loop = .ok ended) :
    lanes.foldlM (model.visitLane (fun _ _ _ => .ok ()) inst i mask) ⟨loop.threads, loop.active, ()⟩ =
      .ok ⟨ended.threads, ended.active, ()⟩ := by
  induction lanes generalizing loop with
  | nil =>
      cases done
      rfl
  | cons lane rest ih =>
      obtain ⟨next, visited, later⟩ := bind_ok.mp done
      have same : model.visitLane (fun _ _ _ => .ok ()) inst i mask ⟨loop.threads, loop.active, ()⟩ lane =
          .ok ⟨next.threads, next.active, ()⟩ := by
        rw [visitLane] at visited ⊢
        split at visited
        next active =>
          rw [if_pos active]
          split at visited
          · contradiction
          next executed =>
            split at visited
            · contradiction
            · cases visited
              simp only [executed]
        next idle =>
          cases visited
          rw [if_neg idle]
      rw [List.foldlM_cons, same]
      exact ih later

theorem executeWarpInst_unchecked (done : model.executeWarpInst check inst i mask m core = .ok ended) :
    model.executeWarpInst (fun _ _ _ => .ok ()) inst i mask m () = .ok ⟨ended.threads, ended.active, ()⟩ :=
  foldlM_visitLane_unchecked done

/-- Other warps do not move. -/
theorem execWarp_other (apart : j ≠ i) (other : Fin w) :
    model.pc (model.execWarp inst i mask m) j other = model.pc m j other ∧
      model.done (model.execWarp inst i mask m) j other = model.done m j other := by
  apply execLanes_frame
  rintro lane - - ⟨⟩
  exact apart rfl

/-- Nor do the lanes of the warp that are not active. -/
theorem execWarp_idle {other : Fin w} (idle : other ∉ mask) :
    model.pc (model.execWarp inst i mask m) i other = model.pc m i other ∧
      model.done (model.execWarp inst i mask m) i other = model.done m i other := by
  apply execLanes_frame
  rintro lane - active ⟨⟩
  exact idle active

theorem threadDone_congr {n : μ} (same : ∀ lane, model.done n i lane = model.done m i lane) :
    model.threadDone n i = model.threadDone m i := by
  ext lane
  rw [mem_threadDone, mem_threadDone, same lane]

theorem nextPc_congr {n : μ} (same : ∀ lane, model.pc n i lane = model.pc m i lane ∧
    model.done n i lane = model.done m i lane) : model.nextPc n i = model.nextPc m i := by
  funext lane
  rw [nextPc, nextPc, (same lane).1, (same lane).2]

theorem nextPc_execWarp {other : Fin w} (idle : other ∉ mask) :
    model.nextPc (model.execWarp inst i mask m) i other = model.nextPc m i other := by
  simp only [nextPc, execWarp_idle idle]

end ThreadModel

end GpgpuSim.Functional
