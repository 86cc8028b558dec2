import GpgpuSim.Shader.FrontEndState

/-! Issue keeps what holds of the front end: none of its assertions fails, and the instruction that a warp is given to
execute is the one at the top entry of its stack, whatever the buffer held. -/
namespace GpgpuSim.Shader
open Cache Functional Memory Simt Transition

variable {w : Nat} {μ : Type}

namespace ShdWarp

variable {model : ThreadModel w μ} {program : InstructionMemory} {m : μ} {i spare : Nat} {warp : ShdWarp w}

/-- The instruction that is issued leaves the buffer, but is still counted. -/
theorem Books.free (books : Books model program m i spare warp) (inside : warp.next < ibufferSize)
    (valid : warp.ibufferNextValid = true) : Books model program m i (spare + 1) warp.ibufferFree := by
  have held : warp.inSlot warp.next = 1 := if_pos valid
  have cleared := books.clearSlot inside
  rw [held] at cleared
  exact cleared

/-- What is left in the buffer is in the other slot. -/
theorem nextValid_of_free (inside : warp.next < ibufferSize) (left : warp.ibufferFree.ibufferEmpty = false) :
    (warp.ibufferFree.ibuffer ((warp.next + 1) % ibufferSize)).valid = true := by
  by_contra invalid
  rw [Bool.not_eq_true] at invalid
  rw [← Bool.not_eq_true, ibufferEmpty_iff] at left
  refine left ?_
  have gone : (warp.ibufferFree.ibuffer warp.next).valid = false := by simp [ibufferFree, clearSlot]
  rw [ibufferSize] at inside invalid
  obtain first | second : warp.next = 0 ∨ warp.next = 1 := by omega
  · rw [first] at gone invalid
    exact ⟨gone, invalid⟩
  · rw [second] at gone invalid
    exact ⟨invalid, gone⟩

end ShdWarp

namespace FrontEndEvent

/-- No thread moves. -/
def still : FrontEndEvent w μ → Bool
  | issued .. | launched _ | memory => false
  | exited .. | completed _ | stored _ | acknowledged _ | atomicDone .. | elsewhere => true

/-- What the machine does when the front end is seen to do this. -/
inductive Acts (model : ThreadModel w μ) (program : InstructionMemory) :
    Machine w μ → FrontEndEvent w μ → Machine w μ → Prop
  | issued {s t : Machine w μ} {i : Nat} {inst : DecodedInst} {top : SimtStackEntry w} {active : SimtMask w}
      (live : Machine.Live model s.threads i) (done : s.step model program i = .ok t)
      (stepped : Machine.Stepped model program i s top inst t) (executed : active ⊆ top.activeMask) :
        Acts model program s (.issued i inst top active t.threads) t
  | still {s : Machine w μ} {event : FrontEndEvent w μ} (still : event.still = true) : Acts model program s event s
  | launched {s : Machine w μ} {threads : μ} {i : Nat} {startPc : AddressType} {mask : SimtMask w}
      (some : mask.Nonempty)
      (real : startPc ≠ nullPc) (ended : ¬ Machine.Live model s.threads i)
      (fresh : ∀ lane, model.done threads i lane = decide (lane ∉ mask) ∧
        (lane ∈ mask → model.pc threads i lane = startPc))
      (others : ∀ j, j ≠ i → ∀ lane, model.pc threads j lane = model.pc s.threads j lane ∧
        model.done threads j lane = model.done s.threads j lane) :
      Acts model program s (.launched i) ⟨threads, Function.update s.simtStack i (SimtStack.launch startPc mask)⟩
  | memory {s : Machine w μ} {threads : μ} (same : ∀ j lane, model.pc threads j lane = model.pc s.threads j lane ∧
      model.done threads j lane = model.done s.threads j lane) : Acts model program s .memory ⟨threads, s.simtStack⟩

theorem Acts.of_issued {s t : Machine w μ} {i : Nat} {inst : DecodedInst} {top : SimtStackEntry w}
    {active : SimtMask w} {m : μ} (acts : Acts model program s (.issued i inst top active m) t) :
      Machine.Live model s.threads i ∧ s.step model program i = .ok t ∧
      Machine.Stepped model program i s top inst t ∧ active ⊆ top.activeMask ∧ t.threads = m := by
  cases acts with
  | issued live done stepped executed => exact ⟨live, done, stepped, executed, rfl⟩
  | still still => contradiction

end FrontEndEvent

namespace FrontEnd

variable {cfg : FrontEndConfig} {model : ThreadModel w μ} {program : InstructionMemory} {core next last : FrontEnd w μ}
  {i sched : Nat} {inst : DecodedInst} {top : SimtStackEntry w} {events later : List (FrontEndEvent w μ)}
  {flight : Nat → Nat} {running : Nat}

open FrontEndEvent

/-- The instructions of each warp that the pipelines hold when these are issued to them. -/
def inFlight (flight : Nat → Nat) (events : List (FrontEndEvent w μ)) (j : Nat) : Nat :=
  flight j + events.countP (isIssue j)

theorem inFlight_append : inFlight flight (events ++ later) = inFlight (inFlight flight events) later := by
  funext j
  rw [inFlight, inFlight, inFlight, List.countP_append, Nat.add_assoc]

/-- What a scheduler has done for warp `i`: it has issued instructions of this warp, each of them when no atomic
operation of the warp was outstanding. -/
structure Scheduled (cfg : FrontEndConfig) (model : ThreadModel w μ) (program : InstructionMemory) (flight : Nat → Nat)
    (i : Nat) (core next : FrontEnd w μ) (events : List (FrontEndEvent w μ)) : Prop where
  sound : Sound cfg model program (inFlight flight events) next
  acts : Follows (Acts model program) core.machine events next.machine
  issues : ∀ event ∈ events, ∃ inst top active threads, event = .issued i inst top active threads
  resident : ∀ j, next.resident j = core.resident j
  stores : ∀ j, (next.warp j).storesOutstanding = (core.warp j).storesOutstanding
  nAtomic : ∀ j, (next.warp j).nAtomic = events.foldl (pendingAtomics j) (core.warp j).nAtomic
  waits : Along (fun before _ => before.foldl (pendingAtomics i) (core.warp i).nAtomic = 0) events
  registers : ∀ port, (next.registers port).length = (core.registers port).length

theorem Scheduled.nil (sound : Sound cfg model program flight next) (quiet : Quiet core next [])
    (registers : next.registers = core.registers) : Scheduled cfg model program flight i core next [] where
  sound := sound
  acts := by
    rw [quiet.machine]
    exact .nil
  issues := by simp
  resident := quiet.resident
  stores j := congrArg Prod.snd (quiet.outstanding j)
  nAtomic j := congrArg Prod.fst (quiet.outstanding j)
  waits := .nil
  registers port := by rw [registers]

theorem Scheduled.trans (first : Scheduled cfg model program flight i core next events)
    (second : Scheduled cfg model program (inFlight flight events) i next last later) :
    Scheduled cfg model program flight i core last (events ++ later) where
  sound := by
    rw [inFlight_append]
    exact second.sound
  acts := first.acts.append second.acts
  issues event member := (List.mem_append.mp member).elim (first.issues event) (second.issues event)
  resident j := (second.resident j).trans (first.resident j)
  stores j := (second.stores j).trans (first.stores j)
  nAtomic j := by rw [second.nAtomic, first.nAtomic, List.foldl_append]
  waits := by
    refine first.waits.append_all (second.waits.imp fun before _ _ waited => ?_)
    rw [List.foldl_append, ← first.nAtomic]
    exact waited
  registers port := (second.registers port).trans (first.registers port)

/-! ## The choice of a pipeline -/

/-- Some register set has no register for the scheduler, or some instruction is for a unit that there is not. -/
def Unequipped (cfg : FrontEndConfig) (program : InstructionMemory) (sched : Nat) (core : FrontEnd w μ) : Prop :=
  (cfg.subCoreModel = true ∧ ∃ port, (core.registers port).length ≤ sched) ∨
    ∃ pc inst k, program.fetch pc = some inst ∧ inst.op = .specializedUnitOp k ∧ cfg.numSpecialized ≤ k

/-- The faults that the assertions of a scheduler leave. -/
def Excused (cfg : FrontEndConfig) (program : InstructionMemory) (sched : Nat) (core : FrontEnd w μ)
    (fault : ExecFault) : Prop :=
  fault ≠ .assertion ∧ (fault = .register → Unequipped cfg program sched core)

/-- The faults of the units that issue calls. -/
def Foreign (fault : ExecFault) : Prop := fault ≠ .assertion ∧ fault ≠ .register

theorem Foreign.excused {fault : ExecFault} (foreign : Foreign fault) : Excused cfg program sched core fault :=
  ⟨foreign.1, fun same => absurd same foreign.2⟩

theorem excused_of_foreign {α : Type} {ran : Except ExecFault α} {Q : α → Prop} (ends : Ends ran Q Foreign) :
    Ends ran Q (Excused cfg program sched core) :=
  ends.mono (fun _ => id) fun _ foreign => foreign.excused

theorem Excused.of_registers {fault : ExecFault} (excused : Excused cfg program sched next fault)
    (registers : ∀ port, (next.registers port).length = (core.registers port).length) :
    Excused cfg program sched core fault := by
  refine ⟨excused.1, fun same => ?_⟩
  obtain ⟨shared, port, few⟩ | missing := excused.2 same
  · exact .inl ⟨shared, port, registers port ▸ few⟩
  · exact .inr missing

theorem ends_hasFree {port : IssuePort} : Ends (hasFree cfg sched (core.registers port))
    (fun free => free = true → (freeRegister cfg sched (core.registers port)).isSome)
      (Excused cfg program sched core) := by
  rw [hasFree]
  split
  next few =>
    rw [Bool.and_eq_true, decide_eq_true_eq] at few
    exact ⟨ExecFault.noConfusion, fun _ => .inl ⟨few.1, port, few.2⟩⟩
  next => exact fun free => free

theorem ends_pipeAvail (port : IssuePort) : Ends (core.pipeAvail cfg sched port)
    (fun avail => avail = true → (freeRegister cfg sched (core.registers port)).isSome)
      (Excused cfg program sched core) := by
  rw [pipeAvail]
  split
  · exact ends_hasFree
  · exact nofun

/-- The register set has a register for the scheduler, if one has been chosen. -/
def Takes (cfg : FrontEndConfig) (sched : Nat) (core : FrontEnd w μ) (chosen : Option (IssuePort × ExecUnitType)) :
    Prop :=
  ∀ port unit, chosen = some (port, unit) → (freeRegister cfg sched (core.registers port)).isSome

theorem takes_ite {port : IssuePort} {unit : ExecUnitType} {chosen : Bool}
    (free : chosen = true → (freeRegister cfg sched (core.registers port)).isSome) :
    Takes cfg sched core (if chosen then some (port, unit) else none) := by
  intro port' unit' found
  split at found
  next taken =>
    cases found
    exact free taken
  next => contradiction

theorem ends_choosePort {previous : ExecUnitType} (fetched : program.fetch inst.pc = some inst) :
    Ends (core.choosePort cfg sched inst.op previous) (Takes cfg sched core) (Excused cfg program sched core) := by
  rw [choosePort]
  split
  · exact ends_hasFree.bind fun free available => takes_ite fun taken => available (Bool.and_eq_true_iff.mp taken).1
  · refine (ends_pipeAvail .sp).bind fun sp spAvail => (ends_pipeAvail .sfu).bind fun sfu sfuAvail =>
      (ends_pipeAvail .tensorCore).bind fun tensor tensorAvail => (ends_pipeAvail .dp).bind fun dp dpAvail =>
      (ends_pipeAvail .int).bind fun int intAvail => ?_
    split
    · exact takes_ite fun taken => tensorAvail (Bool.and_eq_true_iff.mp taken).2
    · exact takes_ite fun taken => sfuAvail (Bool.and_eq_true_iff.mp taken).2
    · split
      · exact takes_ite fun taken => dpAvail (Bool.and_eq_true_iff.mp taken).2
      · exact takes_ite fun taken => sfuAvail (Bool.and_eq_true_iff.mp taken).2
    · split
      · exact nofun
      · split
        · exact (ends_pipeAvail _).bind fun avail specialized => takes_ite specialized
        next missing =>
          exact ⟨ExecFault.noConfusion, fun _ => .inr ⟨_, inst, _, fetched, ‹_›, Nat.not_lt.mp missing⟩⟩
    · split
      next taken =>
        rintro _ _ ⟨⟩
        exact intAvail (by simp_all)
      · split
        next taken =>
          rintro _ _ ⟨⟩
          exact spAvail (by simp_all)
        · exact nofun

theorem excused_of_registers {α : Type} {ran : Except ExecFault α} {Q : α → Prop}
    (ends : Ends ran Q (Excused cfg program sched next))
    (registers : ∀ port, (next.registers port).length = (core.registers port).length) :
    Ends ran Q (Excused cfg program sched core) :=
  ends.mono (fun _ => id) fun _ excused => excused.of_registers registers

/-! ## One instruction -/

theorem ends_mapError {α φ : Type} {result : Except φ α} {wrap : φ → ExecFault}
    (other : ∀ fault, Foreign (wrap fault)) : Ends (result.mapError wrap) (fun _ => True) Foreign := by
  cases result with
  | ok a => trivial
  | error fault => exact other fault

/-- What issuing an instruction has brought about. -/
structure Issues (model : ThreadModel w μ) (program : InstructionMemory) (inst : DecodedInst) (top : SimtStackEntry w)
    (core : FrontEnd w μ) (i running : Nat) (next : FrontEnd w μ) (event : FrontEndEvent w μ) : Prop where
  acts : Acts model program core.machine event next.machine
  event : ∃ active, event = .issued i inst top active next.machine.threads
  executing : ∃ warp, ShdWarp.Executing model program inst i top.activeMask
    (core.warp i).ibufferFree core.machine.threads
      running [] warp next.machine.threads ∧
    next.warp = Function.update core.warp i { warp with
      membar := warp.membar || inst.op == .memoryBarrierOp, nextPc := inst.pc + inst.isize }
  frame : next = { core with
    warp := next.warp, machine := next.machine, registers := next.registers, barriers := next.barriers
    scoreboard := next.scoreboard }
  registers : ∀ port, (next.registers port).length = (core.registers port).length

theorem ends_updateSimtStack {m : μ} {stack : Stack w} :
    Ends (model.updateSimtStack m i inst stack) (fun _ => True) Foreign := by
  rw [ThreadModel.updateSimtStack]
  split
  · trivial
  · exact ⟨ExecFault.noConfusion, ExecFault.noConfusion⟩

theorem ends_reachBarrier {barrier : BarrierInst} {ctaId : Nat} :
    Ends (core.reachBarrier inst barrier ctaId i) (fun _ => True) Foreign := by
  rw [reachBarrier]
  split
  · exact ends_mapError fun _ => ⟨ExecFault.noConfusion, ExecFault.noConfusion⟩
  · trivial

/-- The machine makes the step of the warp. -/
theorem step_of_issue {rest stack : Stack w} {ended : ThreadModel.LaneLoop w μ (ShdWarp w)}
    (live : Machine.Live model core.machine.threads i) (atTop : core.machine.simtStack i = top :: rest)
      (pc : top.pc = inst.pc) (fetched : program.fetch inst.pc = some inst)
      (executed : model.executeWarpInst (ShdWarp.checkExecutionStatusAndUpdate model inst i) inst i top.activeMask
      core.machine.threads (core.warp i).ibufferFree = .ok ended)
    (updated : model.updateSimtStack ended.threads i inst (core.machine.simtStack i) = .ok stack) :
    Acts model program core.machine (.issued i inst top ended.active ended.threads)
      ⟨ended.threads, Function.update core.machine.simtStack i stack⟩ := by
  have found : core.machine.getExecuteWarp program i = .ok (top, inst) := by
    rw [Machine.getExecuteWarp, atTop]
    dsimp only
    rw [pc, fetched]
  have done : core.machine.step model program i = .ok
    ⟨ended.threads, Function.update core.machine.simtStack i stack⟩ := by
    rw [Machine.step, found]
    exact bind_ok.mpr ⟨_, rfl, bind_ok.mpr ⟨_, ThreadModel.executeWarpInst_unchecked executed,
      bind_ok.mpr ⟨stack, updated, rfl⟩⟩⟩
  have whole := ThreadModel.executeWarpInst_ok executed
  exact .issued live done ⟨⟨rest, atTop⟩, by rw [pc, fetched], pc.symm, whole.inSync, whole.live, whole.threads,
    stack, updated, rfl⟩
    whole.active

theorem ends_issueWarp {port : IssuePort} {rest : Stack w}
    (free : (freeRegister cfg sched (core.registers port)).isSome)
    (books : ShdWarp.Books model program core.machine.threads i running (core.warp i).ibufferFree)
    (live : Machine.Live model core.machine.threads i) (atTop : core.machine.simtStack i = top :: rest)
      (pc : top.pc = inst.pc) (fetched : program.fetch inst.pc = some inst) :
      Ends (issueWarp cfg model sched port inst top core i)
      (fun r => Issues model program inst top core i running r.1 r.2) Foreign := by
  obtain ⟨k, found⟩ := Option.isSome_iff_exists.mp free
  have filled : core.fillRegister cfg sched port =
      .ok (Function.update core.registers port ((core.registers port).set k true)) := by rw [fillRegister, found]
  have lengths : ∀ other, (Function.update core.registers port ((core.registers port).set k true) other).length =
      (core.registers other).length := by
    intro other
    by_cases same : other = port
    · rw [same, Function.update_self, List.length_set]
    · rw [Function.update_of_ne same]
  rw [issueWarp, filled]
  refine Ends.bind
    (Q := fun registers : IssuePort → List Bool => ∀ other, (registers other).length = (core.registers other).length)
    lengths fun registers lengths => ?_
  have other : ∀ fault : ExecFault, fault = .outOfSync ∨ fault = .alreadyDone → Foreign fault := by
    rintro fault (rfl | rfl) <;> exact ⟨ExecFault.noConfusion, ExecFault.noConfusion⟩
  refine (books.executeWarpInst.self.mono (fun _ kept => kept) other).bind fun ended ⟨executing, executed⟩ => ?_
  refine ends_reachBarrier.bind fun barriers _ => ?_
  refine (Ends.self ends_updateSimtStack).bind fun stack ⟨_, updated⟩ => ?_
  refine (ends_mapError fun _ => ⟨ExecFault.noConfusion, ExecFault.noConfusion⟩).bind fun scoreboard _ => ?_
  exact ⟨step_of_issue live atTop pc fetched executed updated, ⟨_, rfl⟩, ⟨ended.core, executing, rfl⟩, rfl, lengths⟩

/-! ## The turn of a warp -/

/-- A warp with instructions in its buffer awaits none. -/
theorem Sound.not_awaited (sound : Sound cfg model program flight core) (full : (core.warp i).ibufferEmpty = false) :
    (core.warp i).imissPending = false ∧ ∀ b, core.instFetchBuffer = some b → b.warpId ≠ i := by
  have idle : ¬ core.Awaited i := by
    intro waits
    rw [(sound.fetching.empty i waits).1] at full
    contradiction
  refine ⟨?_, fun b found same => idle (.inr ⟨b, found, same⟩)⟩
  by_contra miss
  exact idle (.inl (by simpa using miss))

/-- What a warp with instructions in its buffer may do. -/
theorem Sound.turn {flight' : Nat → Nat} (sound : Sound cfg model program flight core)
    (full : (core.warp i).ibufferEmpty = false)
    (own : WarpSound model program next.machine.threads i (flight' i) (core.threadActive i) (next.warp i))
    (miss : (next.warp i).imissPending = (core.warp i).imissPending)
    (doneExit : (next.warp i).doneExit = (core.warp i).doneExit)
    (others : ∀ j, j ≠ i → next.warp j = core.warp j ∧ flight' j = flight j ∧
      ∀ lane, model.done next.machine.threads j lane = model.done core.machine.threads j lane)
    (frame : next = { core with
      warp := next.warp, machine := next.machine, registers := next.registers, barriers := next.barriers
      scoreboard := next.scoreboard }) : Sound cfg model program flight' next := by
  obtain ⟨noMiss, elsewhere⟩ := sound.not_awaited full
  have threadActive : next.threadActive = core.threadActive := by rw [frame]
  have buffer : next.instFetchBuffer = core.instFetchBuffer := by rw [frame]
  refine ⟨fun j => ?_, ?_, sound.counted.congr (fun j => ?_) threadActive (by rw [frame]) (by rw [frame])⟩
  · rw [threadActive]
    by_cases here : j = i
    · rwa [here]
    · obtain ⟨warp, running, done⟩ := others j here
      rw [warp, running]
      exact (sound.warps j).congr done
  · refine sound.fetching.apart (i := i) (by rw [frame]) (by rw [frame]) (by rw [frame]) noMiss
      (by rw [miss, noMiss]) ?_ ?_
    · intro b found
      rw [buffer] at found
      exact ⟨found, elsewhere b found⟩
    · intro j apart
      obtain ⟨warp, -, done⟩ := others j apart
      refine ⟨warp, ?_⟩
      rintro ⟨lane, live⟩
      exact ⟨lane, (done lane).trans live⟩
  · by_cases here : j = i
    · rw [here, doneExit]
    · rw [(others j here).1]

theorem Sound.turn_setWarp {warp : ShdWarp w} (sound : Sound cfg model program flight core)
    (full : (core.warp i).ibufferEmpty = false)
    (own : WarpSound model program core.machine.threads i (flight i) (core.threadActive i) warp)
    (miss : warp.imissPending = (core.warp i).imissPending) (doneExit : warp.doneExit = (core.warp i).doneExit)
    (same : outstanding warp = outstanding (core.warp i)) :
    Scheduled cfg model program flight i core (core.setWarp i warp) [] := by
  refine .nil (sound.turn full ?_ ?_ ?_ (fun j apart => ⟨setWarp_warp_of_ne _ _ apart, rfl, fun _ => rfl⟩) rfl)
    (.of_setWarp rfl rfl doneExit same) rfl
  · rwa [setWarp_warp_self]
  · rwa [setWarp_warp_self]
  · rwa [setWarp_warp_self]

theorem scheduled_waiting (sound : Sound cfg model program flight core) :
    Scheduled cfg model program flight i core (core.waiting i).2 [] ∧
      ((core.waiting i).1 = false → ((core.waiting i).2.warp i).nAtomic = 0) := by
  have stays : Scheduled cfg model program flight i core core [] := .nil sound (.refl core) rfl
  rw [waiting]
  split_ifs
  · exact ⟨stays, nofun⟩
  · exact ⟨stays, nofun⟩
  · exact ⟨stays, nofun⟩
  · have own := sound.warps i
    refine ⟨.nil (sound.setWarp ?_ (fun _ _ => rfl) rfl rfl rfl rfl) (.of_setWarp rfl rfl rfl rfl) rfl, ?_⟩
    · exact own.with_same rfl rfl rfl rfl rfl rfl rfl own.cdp
    · intro passes
      rw [setWarp_warp_self]
      simpa using passes

/-- What considering an instruction comes to. -/
def Considered.result : Considered w μ → FrontEnd w μ × List (FrontEndEvent w μ)
  | .delayed core | .checked core => (core, [])
  | .issued core _ event => (core, [event])

theorem ends_redirect {pc : AddressType} (sound : Sound cfg model program flight core)
    (full : (core.warp i).ibufferEmpty = false) :
    Ends (redirect pc core i) (fun c => Scheduled cfg model program flight i core c.result.1 c.result.2)
      fun _ => False := by
  have own := sound.warps i
  have live := own.live full
  have books : ShdWarp.Books model program core.machine.threads i (flight i) { core.warp i with nextPc := pc } :=
    own.toBooks.congr rfl rfl rfl (fun _ => rfl) own.counted
  obtain ⟨done, books⟩ := books.flushed
  rw [redirect, done]
  refine sound.turn_setWarp full ⟨books, own.next_lt, ?_, ?_, own.cdp, ?_, own.busy⟩ rfl rfl rfl
  · rw [ShdWarp.ibufferEmpty_flushed]
    exact nofun
  · rw [ShdWarp.ibufferEmpty_flushed]
    exact nofun
  · exact fun finished => absurd live (own.idle finished).2.2.2

/-- A launch from the device that is held back waits for a time that it counts down. -/
theorem ends_holdCdp {warp : ShdWarp w} {isCdp lanes : Nat} (elapsed : isCdp ≠ 0 → warp.cdpLatency = 0)
    (cdp : warp.cdpLatency > 0 → warp.cdpDummy = true) :
    Ends (holdCdp cfg warp isCdp lanes) (fun r => ∃ cdpLatency cdpDummy, r.2 = { warp with cdpLatency, cdpDummy } ∧
      (cdpLatency > 0 → cdpDummy = true)) fun _ => False := by
  rw [holdCdp]
  split
  · exact ⟨warp.cdpLatency, warp.cdpDummy, rfl, cdp⟩
  next launches =>
    have elapsed := elapsed launches
    rw [if_neg (by simpa using elapsed)]
    split
    · exact ⟨warp.cdpLatency, false, rfl, by omega⟩
    · exact ⟨cdpDelay cfg isCdp lanes, true, rfl, fun _ => rfl⟩

/-- The warp whose instruction has been issued, at its next one. -/
theorem Issues.warpSound {event : FrontEndEvent w μ} {threadActive : SimtMask w}
    (issues : Issues model program inst top core i (running + 1) next event)
    (own : WarpSound model program core.machine.threads i running threadActive (core.warp i))
    (full : (core.warp i).ibufferEmpty = false) :
    WarpSound model program next.machine.threads i (running + 1) threadActive (next.warp i).ibufferStep := by
  obtain ⟨warp, executing, warps⟩ := issues.executing
  obtain ⟨books, frame, buffer, -⟩ := executing
  rw [warps, Function.update_self]
  have slot : warp.next = (core.warp i).next := by rw [frame]; rfl
  have doneExit : warp.doneExit = (core.warp i).doneExit := by rw [frame]; rfl
  have latency : warp.cdpLatency = (core.warp i).cdpLatency := by rw [frame]; rfl
  have dummy : warp.cdpDummy = (core.warp i).cdpDummy := by rw [frame]; rfl
  have live := own.live full
  refine ⟨books.congr rfl rfl rfl (fun _ => rfl) books.counted, Nat.mod_lt _ Nat.zero_lt_two, fun left => ?_,
    fun left => ?_, ?_,
    ?_, ?_⟩
  · rcases buffer with empty | ⟨kept, -⟩
    · exact absurd (left.symm.trans empty) nofun
    · have left' : (core.warp i).ibufferFree.ibufferEmpty = false := by
        rw [ShdWarp.ibufferEmpty, ← kept]
        exact left
      have valid := ShdWarp.nextValid_of_free own.next_lt left'
      rw [← kept, ← slot] at valid
      exact valid
  · rcases buffer with empty | ⟨-, done⟩
    · exact absurd (left.symm.trans empty) nofun
    · obtain ⟨lane, alive⟩ := live
      exact ⟨lane, (done lane).trans alive⟩
  · dsimp only [ShdWarp.ibufferStep]
    rw [latency, dummy]
    exact own.cdp
  · intro finished
    exact absurd live (own.idle (doneExit.symm.trans finished)).2.2.2
  · intro resident
    exact own.busy (doneExit.symm.trans resident)

/-- The warps beside the one whose instruction is issued. -/
theorem Issues.others {event : FrontEndEvent w μ} {j : Nat}
    (issues : Issues model program inst top core i running next event) (apart : j ≠ i) : next.warp j = core.warp j ∧
      ∀ lane, model.done next.machine.threads j lane = model.done core.machine.threads j lane := by
  obtain ⟨warp, -, warps⟩ := issues.executing
  obtain ⟨active, rfl⟩ := issues.event
  refine ⟨by rw [warps, Function.update_of_ne apart], fun lane => ?_⟩
  obtain ⟨-, -, stepped, -, -⟩ := issues.acts.of_issued
  exact ((stepped.other apart).2 lane).2

theorem Issues.scheduled {event : FrontEndEvent w μ}
    (issues : Issues model program inst top core i (flight i + 1) next event)
    (sound : Sound cfg model program flight core) (full : (core.warp i).ibufferEmpty = false)
    (passes : (core.warp i).nAtomic = 0) :
    Scheduled cfg model program flight i core
      { next with warp := Function.update next.warp i (next.warp i).ibufferStep } [event] := by
  have own := issues.warpSound (sound.warps i) full
  obtain ⟨warp, executing, warps⟩ := issues.executing
  obtain ⟨active, named⟩ := issues.event
  have frame := executing.frame
  have ended : (next.warp i).ibufferStep = ShdWarp.ibufferStep { warp with
      membar := warp.membar || inst.op == .memoryBarrierOp, nextPc := inst.pc + inst.isize } := by
    rw [warps, Function.update_self]
  have fields : (next.warp i).ibufferStep.doneExit = (core.warp i).doneExit ∧
      (next.warp i).ibufferStep.imissPending = (core.warp i).imissPending ∧
      (next.warp i).ibufferStep.storesOutstanding = (core.warp i).storesOutstanding := by
    rw [ended, frame]
    exact ⟨rfl, rfl, rfl⟩
  have atomic : (next.warp i).ibufferStep.nAtomic = pendingAtomics i (core.warp i).nAtomic event := by
    have counted := executing.atomic
    simp only [List.countP_nil, ite_self, Nat.add_zero] at counted
    rw [ended, named]
    refine counted.trans ?_
    cases isAtomic : inst.isAtomic with
    | true => simp [pendingAtomics, isAtomic, ShdWarp.ibufferFree, ShdWarp.clearSlot]
    | false => simp [pendingAtomics, isAtomic, ShdWarp.ibufferFree, ShdWarp.clearSlot]
  have own' : Function.update next.warp i (next.warp i).ibufferStep i = (next.warp i).ibufferStep :=
    Function.update_self _ _ _
  have others' : ∀ j, j ≠ i → Function.update next.warp i (next.warp i).ibufferStep j = core.warp j := fun j apart =>
    (Function.update_of_ne apart _ _).trans (issues.others apart).1
  have same : ∀ {α : Type} (field : ShdWarp w → α), field (next.warp i).ibufferStep = field (core.warp i) →
      ∀ j, field (Function.update next.warp i (next.warp i).ibufferStep j) = field (core.warp j) := by
    intro α field here j
    by_cases own : j = i
    · rw [own, own', here]
    · rw [others' j own]
  have issued : ∀ j, inFlight flight [event] j = flight j + if j = i then 1 else 0 := by
    intro j
    rw [inFlight, named, List.countP_singleton]
    simp only [isIssue, beq_iff_eq]
    by_cases here : j = i
    · rw [if_pos here.symm, if_pos here]
    · rw [if_neg fun same => here same.symm, if_neg here]
  refine ⟨sound.turn full ?_ (same ShdWarp.imissPending fields.2.1 i) (same ShdWarp.doneExit fields.1 i)
    (fun j apart => ⟨others' j apart, by rw [issued, if_neg apart, Nat.add_zero], (issues.others apart).2⟩) ?_,
    .single issues.acts, ?_, ?_, same ShdWarp.storesOutstanding fields.2.2, ?_, ?_, ?_⟩
  · dsimp only
    rw [own', issued, if_pos rfl]
    exact own
  · exact congrArg (fun next : FrontEnd w μ => { next with
      warp := Function.update next.warp i (next.warp i).ibufferStep }) issues.frame
  · intro other member
    rw [List.mem_singleton.mp member]
    exact ⟨inst, top, active, next.machine.threads, named⟩
  · intro j
    exact congrArg (fun doneExit : Bool => if doneExit then 0 else 1) (same ShdWarp.doneExit fields.1 j)
  · intro j
    rw [List.foldl_cons, List.foldl_nil]
    dsimp only
    by_cases here : j = i
    · rw [here, own', atomic]
    · rw [others' j here, named, pendingAtomics, if_neg fun own => here own.1.symm]
  · exact Along.nil.append (by simpa using passes)
  · exact issues.registers

theorem ends_issueReady {rest : Stack w} {previous : ExecUnitType} (sound : Sound cfg model program flight core)
    (full : (core.warp i).ibufferEmpty = false) (passes : (core.warp i).nAtomic = 0)
    (elapsed : inst.isCdp ≠ 0 → (core.warp i).cdpLatency = 0) (atTop : core.machine.simtStack i = top :: rest)
    (pc : top.pc = inst.pc) (fetched : program.fetch inst.pc = some inst) :
    Ends (issueReady cfg model sched inst top previous core i)
      (fun c => Scheduled cfg model program flight i core c.result.1 c.result.2) (Excused cfg program sched core) := by
  have own := sound.warps i
  rw [issueReady]
  refine (ends_choosePort fetched).bind fun chosen takes => ?_
  split
  next => exact .nil sound (.refl core) rfl
  next port unit =>
    have elapsed' : (if unit = .sp ∨ unit = .int then inst.isCdp else 0) ≠ 0 → (core.warp i).cdpLatency = 0 := by
      split
      · exact elapsed
      · exact fun none => absurd rfl none
    refine ((ends_holdCdp elapsed' own.cdp).mono (fun _ => id) fun _ => False.elim).bind ?_
    rintro ⟨held, _⟩ ⟨cdpLatency, cdpDummy, rfl, cdp⟩
    have turned : Scheduled cfg model program flight i core
        (core.setWarp i { core.warp i with cdpLatency, cdpDummy }) [] :=
      sound.turn_setWarp full (own.with_same rfl rfl rfl rfl rfl rfl rfl cdp) rfl rfl rfl
    dsimp only
    split
    next waits => exact turned
    next ready =>
      have warp := setWarp_warp_self core i { core.warp i with cdpLatency, cdpDummy }
      have full' : ((core.setWarp i { core.warp i with cdpLatency, cdpDummy }).warp i).ibufferEmpty = false := by
        rw [warp]
        exact full
      have own' := turned.sound.warps i
      have books := own'.toBooks.free own'.next_lt (own'.aligned full')
      have free : (freeRegister cfg sched
        ((core.setWarp i { core.warp i with cdpLatency, cdpDummy }).registers port)).isSome :=
        takes port unit rfl
      have issuing := ends_issueWarp free books (turned.sound.warps i |>.live full') atTop pc fetched
      refine (excused_of_foreign issuing).bind fun r issues => ?_
      refine turned.trans (issues.scheduled turned.sound full' ?_)
      rw [warp]
      exact passes

/-- What is at the next slot is the instruction at the PC of the warp or is flushed; no assertion fails. -/
theorem ends_consider {previous : ExecUnitType} (sound : Sound cfg model program flight core)
    (full : (core.warp i).ibufferEmpty = false) (passes : (core.warp i).nAtomic = 0) :
    Ends (consider cfg model sched previous core i)
      (fun c => Scheduled cfg model program flight i core c.result.1 c.result.2) (Excused cfg program sched core) := by
  have own := sound.warps i
  have stays : Scheduled cfg model program flight i core core [] := .nil sound (.refl core) rfl
  rw [consider]
  cases found : (core.warp i).ibufferNextInst with
  | none =>
      dsimp only
      rw [if_neg fun delayed => delayed.1 rfl]
      split
      next => exact Foreign.excused ⟨ExecFault.noConfusion, ExecFault.noConfusion⟩
      next top rest atTop =>
        split
        next returned => exact (ends_redirect sound full).mono (fun _ => id) fun _ => False.elim
        next invalid => exact stays
  | some inst =>
      dsimp only
      split
      next delayed =>
        obtain ⟨-, waits⟩ := delayed
        rw [if_pos (own.cdp waits)]
        exact sound.turn_setWarp full (own.with_same rfl rfl rfl rfl rfl rfl rfl fun _ => own.cdp waits) rfl rfl rfl
      next ready =>
        split
        next => exact Foreign.excused ⟨ExecFault.noConfusion, ExecFault.noConfusion⟩
        next top rest atTop =>
          rw [own.aligned full, if_neg (by simp)]
          split
          next hazard => exact (ends_redirect sound full).mono (fun _ => id) fun _ => False.elim
          next pc =>
            split
            next collides => exact stays
            next free =>
              have counted := own.counted
              have some : (core.warp i).numInstInBuffer ≠ 0 := by
                rw [Ne, ShdWarp.numInstInBuffer_eq_zero, full]
                exact nofun
              rw [if_neg (by omega)]
              refine ends_issueReady sound full passes (fun launches => ?_) atTop (by simpa using pc)
                (own.fetched _ _ found)
              omega

/-- The turn of a warp, which issues no more instructions than it may. -/
theorem ends_warpLoop {previous : ExecUnitType} {fuel checked issued : Nat}
    (sound : Sound cfg model program flight core) :
    Ends (warpLoop cfg model sched i fuel checked issued previous core)
      (fun r => Scheduled cfg model program flight i core r.1 r.2 ∧ r.2.length ≤ fuel)
        (Excused cfg program sched core) := by
  induction fuel generalizing core flight checked issued previous with
  | zero => exact ⟨(scheduled_waiting sound).1, Nat.le_refl 0⟩
  | succ fuel ih =>
      obtain ⟨waited, passes⟩ := scheduled_waiting (i := i) sound
      rw [warpLoop]
      dsimp only
      split
      next turn =>
        simp only [Bool.and_eq_true, Bool.not_eq_true'] at turn
        obtain ⟨⟨goes, full⟩, -⟩ := turn
        refine (excused_of_registers (ends_consider waited.sound full (passes goes)) waited.registers).bind
          fun c considered => ?_
        have sofar := waited.trans considered
        cases c with
        | delayed next => exact ⟨sofar, Nat.zero_le _⟩
        | checked next =>
            refine (ih considered.sound).mono (fun r => ?_) fun _ excused => excused.of_registers sofar.registers
            rintro ⟨scheduled, bounded⟩
            exact ⟨sofar.trans scheduled, by omega⟩
        | issued next unit event =>
            refine (excused_of_registers (ih considered.sound) sofar.registers).bind fun r => ?_
            rintro ⟨scheduled, bounded⟩
            exact ⟨sofar.trans scheduled, Nat.succ_le_succ bounded⟩
      next ends => exact ⟨waited, Nat.zero_le _⟩

theorem Scheduled.of_nil {j : Nat} (scheduled : Scheduled cfg model program flight i core next []) :
    Scheduled cfg model program flight j core next [] :=
  { scheduled with issues := by simp, waits := .nil }

/-- A cycle of a scheduler issues for one of its warps. -/
theorem ends_schedulerCycle {order : List (Option Nat)} (sound : Sound cfg model program flight core) :
    Ends (schedulerCycle cfg model sched order core) (fun r => ∃ i, Scheduled cfg model program flight i core r.1 r.2 ∧
      r.2.length ≤ cfg.maxInsnIssuePerWarp ∧ (r.2 ≠ [] → some i ∈ order)) (Excused cfg program sched core) := by
  induction order generalizing core with
  | nil => exact ⟨0, .nil sound (.refl core) rfl, Nat.zero_le _, nofun⟩
  | cons entry rest ih =>
      have later : ∀ {core : FrontEnd w μ}, Sound cfg model program flight core →
          Ends (schedulerCycle cfg model sched rest core)
            (fun r => ∃ i, Scheduled cfg model program flight i core r.1 r.2 ∧
            r.2.length ≤ cfg.maxInsnIssuePerWarp ∧ (r.2 ≠ [] → some i ∈ entry :: rest))
              (Excused cfg program sched core) :=
        fun sound => (ih sound).mono (fun _ ⟨i, scheduled, bounded, member⟩ =>
          ⟨i, scheduled, bounded, fun issues => List.mem_cons_of_mem _ (member issues)⟩) fun _ => id
      cases entry with
      | none => exact later sound
      | some i =>
          rw [schedulerCycle]
          split
          next gone => exact later sound
          next resident =>
            refine (ends_warpLoop sound).bind ?_
            rintro ⟨next, events⟩ ⟨scheduled, bounded⟩
            dsimp only
            split
            next issues => exact ⟨i, scheduled, bounded, fun _ => List.mem_cons_self⟩
            next none =>
              obtain rfl : events = [] := by simpa using none
              refine (later scheduled.sound).mono ?_ fun _ excused => excused.of_registers scheduled.registers
              rintro r ⟨j, following, rest⟩
              exact ⟨j, scheduled.of_nil.trans following, rest⟩

end FrontEnd

end GpgpuSim.Shader
