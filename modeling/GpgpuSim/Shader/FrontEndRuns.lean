import GpgpuSim.Shader.FetchDecode
import GpgpuSim.Shader.IssueStage

/-! Runs of the front end with the pipelines that complete its instructions and the memory system that answers it, in
any order of their steps. -/
namespace GpgpuSim.Shader
open Cache Functional Memory Simt Transition

variable {w : Nat} {μ : Type}

/-- A front end, and the instructions of each warp that have been issued and not completed. -/
structure Issuing (w : Nat) (μ : Type) where
  core : FrontEnd w μ
  flight : Nat → Nat

namespace FrontEnd

/-- A core without work, whose register sets have these numbers of registers. -/
def create (cfg : FrontEndConfig) (numRegisters : IssuePort → Nat) (scoreboard : Scoreboard) (barriers : BarrierSet)
    (pool : MfPool) (m : μ) : FrontEnd w μ where
  machine := ⟨m, fun _ => []⟩
  warp _ := {}
  instFetchBuffer := none
  lastWarpFetched := 0
  l1i := .create cfg.l1i
  pool := pool
  wid _ := 0
  scoreboard := scoreboard
  barriers := barriers
  registers port := List.replicate (numRegisters port) false
  threadActive _ := ∅
  notCompleted := 0
  activeWarps := 0

/-- What the rest of the core does: registers are emptied, reservations released and barriers left, and other requests
come and go. -/
structure Elsewhere (core next : FrontEnd w μ) : Prop where
  inUse : core.pool.nextSerial ≤ next.pool.nextSerial
  kept : ∀ mf, core.l1i.Held mf → next.pool.get mf = core.pool.get mf ∧ next.wid mf = core.wid mf
  frame : next = { core with
    pool := next.pool, wid := next.wid, scoreboard := next.scoreboard, barriers := next.barriers
    registers := next.registers }

/-- A launch finds the slot of the warp vacant and its threads set to the start. An instruction completes once it has
been issued, and a store is sent by an instruction under way. -/
inductive Step (cfg : FrontEndConfig) (model : ThreadModel w μ) (program : InstructionMemory) :
    Issuing w μ → List (FrontEndEvent w μ) → Issuing w μ → Prop
  | decode {s : Issuing w μ} : Step cfg model program s [] ⟨s.core.decode program, s.flight⟩
  | fetch {s : Issuing w μ} {next : FrontEnd w μ} {events : List (FrontEndEvent w μ)} (time : Nat) (memportFull : Bool)
      (done : s.core.fetch cfg time memportFull = .ok (next, events)) : Step cfg model program s events ⟨next, s.flight⟩
  | schedule {s : Issuing w μ} {next : FrontEnd w μ} {events : List (FrontEndEvent w μ)} (sched : Nat)
      (order : List (Option Nat)) (done : schedulerCycle cfg model sched order s.core = .ok (next, events)) :
      Step cfg model program s events ⟨next, inFlight s.flight events⟩
  | launch {s : Issuing w μ} {next : FrontEnd w μ} {threads : μ} {i ctaId : Nat} {startPc : AddressType}
      {mask : SimtMask w}
      (inside : i < cfg.maxWarpsPerShader) (vacant : (s.core.warp i).doneExit = true) (some : mask.Nonempty)
      (real : startPc ≠ nullPc)
      (fresh : ∀ lane, model.done threads i lane = decide (lane ∉ mask) ∧
        (lane ∈ mask → model.pc threads i lane = startPc))
      (others : ∀ j, j ≠ i → ∀ lane, model.pc threads j lane = model.pc s.core.machine.threads j lane ∧
        model.done threads j lane = model.done s.core.machine.threads j lane)
      (done : s.core.launchWarp threads i ctaId startPc mask = .ok next) :
      Step cfg model program s [.launched i] ⟨next, s.flight⟩
  | fill {s : Issuing w μ} {mf : MfId} {l1i : DataCache} {pool : MfPool} (time : Nat)
      (done : s.core.l1i.fill cfg.l1i s.core.pool mf time = .ok (l1i, pool)) :
      Step cfg model program s [.elsewhere] ⟨{ s.core with l1i, pool }, s.flight⟩
  | complete {s : Issuing w μ} {i : Nat} {warp : ShdWarp w} (underWay : 0 < s.flight i)
      (done : (s.core.warp i).decInstInPipeline = .ok warp) :
      Step cfg model program s [.completed i] ⟨s.core.setWarp i warp, Function.update s.flight i (s.flight i - 1)⟩
  | store {s : Issuing w μ} {i : Nat} (underWay : 0 < s.flight i) :
      Step cfg model program s [.stored i] ⟨s.core.setWarp i (s.core.warp i).incStoreReq, s.flight⟩
  | acknowledge {s : Issuing w μ} {i : Nat} {warp : ShdWarp w} (done : (s.core.warp i).decStoreReq = .ok warp) :
      Step cfg model program s [.acknowledged i] ⟨s.core.setWarp i warp, s.flight⟩
  | atomicDone {s : Issuing w μ} {i : Nat} {lanes : SimtMask w} {warp : ShdWarp w}
      (done : (s.core.warp i).decNAtomic lanes.card = .ok warp) :
      Step cfg model program s [.atomicDone i lanes] ⟨s.core.setWarp i warp, s.flight⟩
  | memory {s : Issuing w μ} {threads : μ}
      (same : ∀ j lane, model.pc threads j lane = model.pc s.core.machine.threads j lane ∧
        model.done threads j lane = model.done s.core.machine.threads j lane) :
      Step cfg model program s [.memory] ⟨{ s.core with machine := ⟨threads, s.core.machine.simtStack⟩ }, s.flight⟩
  | elsewhere {s : Issuing w μ} {next : FrontEnd w μ} (rest : Elsewhere s.core next) :
      Step cfg model program s [.elsewhere] ⟨next, s.flight⟩

variable {cfg : FrontEndConfig} {model : ThreadModel w μ} {program : InstructionMemory} {core next : FrontEnd w μ}
  {i : Nat} {flight flight' : Nat → Nat} {running : Nat} {events : List (FrontEndEvent w μ)}

open FrontEndEvent

theorem Sound.create {numRegisters : IssuePort → Nat} {scoreboard : Scoreboard} {barriers : BarrierSet}
    {pool : MfPool} {m : μ} (none : ∀ i, ¬ Machine.Live model m i) :
    Sound cfg model program (fun _ => 0) (create cfg numRegisters scoreboard barriers pool m) where
  warps i := by
    have drained : ({} : ShdWarp w).ibufferEmpty = true := by simp [ShdWarp.ibufferEmpty_iff]
    have books : ShdWarp.Books model program m i 0 ({} : ShdWarp w) := by
      refine ⟨fun slot inst found => ?_, fun slot _ => ?_, ?_, fun lane => ?_, by simp⟩
      · simp at found
      · rfl
      · rw [ShdWarp.numInstInBuffer_eq_zero.mpr drained]
      · have done : model.done m i lane = true := by
          by_contra live
          exact none i ⟨lane, by simpa using live⟩
        simp [done]
    refine ⟨books, Nat.zero_lt_two, fun full => ?_, fun full => ?_, fun waits => ?_, fun _ => ⟨rfl, rfl, rfl, none i⟩,
      fun gone => ?_⟩
    · exact absurd (drained.symm.trans full) (by decide)
    · exact absurd (drained.symm.trans full) (by decide)
    · exact absurd waits (Nat.lt_irrefl 0)
    · exact absurd gone (by simp [FrontEnd.create])
  fetching := by
    have idle : ∀ mf, ¬ (DataCache.create cfg.l1i).Held mf := fun mf ⟨b, member⟩ => List.not_mem_nil member
    refine ⟨.create cfg.l1i pool, fun mf held => absurd held (idle mf), fun mf _ held => absurd held (idle mf),
      fun i miss => ?_, fun b found => ?_, ?_⟩
    · simp [FrontEnd.create] at miss
    · simp [FrontEnd.create] at found
    · rintro i (miss | ⟨b, found, -⟩)
      · simp [FrontEnd.create] at miss
      · simp [FrontEnd.create] at found
  counted := ⟨fun _ _ => rfl, by simp [FrontEnd.create], by simp [FrontEnd.create]⟩

/-! ## Launch -/

/-- A warp that has been reset and initialized. -/
def launched (startPc : AddressType) (ctaId : Nat) (mask : SimtMask w) (warp : ShdWarp w) : ShdWarp w :=
  { warp with
    ctaId, nextPc := startPc, nCompleted := w - mask.card, activeThreads := mask, imissPending := false, next := 0
    nAtomic := 0, membar := false, doneExit := false, cdpLatency := 0, cdpDummy := false }

theorem launchWarp_eq {threads : μ} {ctaId : Nat} {startPc : AddressType} {mask : SimtMask w}
    (stores : (core.warp i).storesOutstanding = 0) (drained : (core.warp i).instInPipeline = 0)
    (free : core.threadActive i = ∅) : core.launchWarp threads i ctaId startPc mask =
      .ok { core.setWarp i (launched startPc ctaId mask (core.warp i)) with
        machine := ⟨threads, Function.update core.machine.simtStack i (SimtStack.launch startPc mask)⟩
        threadActive := Function.update core.threadActive i mask
        notCompleted := core.notCompleted + mask.card
        activeWarps := core.activeWarps + 1 } := by
  have fits : mask.card ≤ w := by simpa using Finset.card_le_univ mask
  have reset : (core.warp i).reset = .ok { core.warp i with
      imissPending := false, nCompleted := w, nAtomic := 0, membar := false, doneExit := true, next := 0
      cdpLatency := 0, cdpDummy := false } := by
    rw [ShdWarp.reset, if_neg (by omega), if_neg (by omega)]
  have init : ShdWarp.init { core.warp i with
      imissPending := false, nCompleted := w, nAtomic := 0, membar := false, doneExit := true, next := 0
      cdpLatency := 0, cdpDummy := false } startPc ctaId mask = .ok (launched startPc ctaId mask (core.warp i)) := by
    rw [ShdWarp.init, if_neg (Nat.not_lt.mpr fits), if_neg (Nat.lt_irrefl w)]
    rfl
  rw [launchWarp, reset, free, Finset.empty_inter]
  refine bind_ok.mpr ⟨_, rfl, ?_⟩
  rw [if_neg (by simp)]
  exact bind_ok.mpr ⟨_, init, rfl⟩

/-- No assertion of a launch fails where the warp that had the slot has been given back. -/
theorem Sound.launchWarp {threads : μ} {ctaId : Nat} {startPc : AddressType} {mask : SimtMask w}
    (sound : Sound cfg model program flight core) (inside : i < cfg.maxWarpsPerShader)
    (vacant : (core.warp i).doneExit = true) (some : mask.Nonempty)
    (fresh : ∀ lane, model.done threads i lane = decide (lane ∉ mask))
    (others : ∀ j, j ≠ i → ∀ lane, model.done threads j lane = model.done core.machine.threads j lane) :
    Ends (core.launchWarp threads i ctaId startPc mask) (fun next => Sound cfg model program flight next ∧
      next.warp = (core.setWarp i (launched startPc ctaId mask (core.warp i))).warp ∧
      next.machine = ⟨threads, Function.update core.machine.simtStack i (SimtStack.launch startPc mask)⟩)
        fun _ => False := by
  have own := sound.warps i
  obtain ⟨stores, drained, free, dead⟩ := own.idle vacant
  rw [launchWarp_eq stores drained free]
  refine ⟨?_, rfl, rfl⟩
  have warp := setWarp_warp_self core i (launched startPc ctaId mask (core.warp i))
  have apart := fun j => setWarp_warp_of_ne core (launched startPc ctaId mask (core.warp i)) (i := i) (j := j)
  have empty : (core.warp i).ibufferEmpty = true := by
    by_contra full
    exact dead (own.live (by simpa using full))
  have unawaited : ¬ core.Awaited i := fun waits => dead (sound.fetching.empty i waits).2
  have noMiss : (core.warp i).imissPending = false := by
    by_contra miss
    exact unawaited (.inl (by simpa using miss))
  refine ⟨sound.warps_of (i := i) ?_ (fun _ _ => rfl) fun j differs =>
      ⟨apart j differs, Function.update_of_ne differs _ _, others j differs⟩,
    sound.fetching.apart (i := i) rfl rfl rfl noMiss (congrArg ShdWarp.imissPending warp)
      (fun b found => ⟨found, fun same => unawaited (.inr ⟨b, found, same⟩)⟩) fun j differs => ⟨apart j differs, ?_⟩,
    sound.counted.update inside (fun j differs => congrArg ShdWarp.doneExit (apart j differs)) rfl ?_ ?_⟩
  · dsimp only
    rw [warp, Function.update_self]
    have fits : mask.card ≤ w := by simpa using Finset.card_le_univ mask
    refine ⟨⟨own.fetched, own.tidy, own.counted, fun lane => ?_, Nat.sub_add_cancel fits⟩, Nat.zero_lt_two,
      fun full => ?_,
      fun full => ?_, fun waits => absurd waits (Nat.lt_irrefl 0), nofun, fun _ => some⟩
    · rw [fresh]
      simp [launched]
    · exact absurd (empty.symm.trans full) (by decide)
    · exact absurd (empty.symm.trans full) (by decide)
  · rintro ⟨lane, live⟩
    exact ⟨lane, (others j differs lane).trans live⟩
  · rw [free, Finset.card_empty]
    rfl
  · dsimp only
    rw [warp, vacant]
    simp [launched]

/-! ## What a step does -/

/-- The books of a step: what is counted of each warp is what has been seen to begin and not to end. A warp is given
back when nothing of it is under way, and an instruction issued when no atomic operation of its warp is. -/
structure Does (cfg : FrontEndConfig) (model : ThreadModel w μ) (program : InstructionMemory) (s : Issuing w μ)
    (events : List (FrontEndEvent w μ)) (t : Issuing w μ) : Prop where
  sound : Sound cfg model program t.flight t.core
  acts : Follows (Acts model program) s.core.machine events t.core.machine
  resident : ∀ i, t.core.resident i + events.countP (isExit i) = s.core.resident i + events.countP (isLaunch i)
  flight : ∀ i, t.flight i + events.countP (isCompletion i) = s.flight i + events.countP (isIssue i)
  stores : ∀ i, (t.core.warp i).storesOutstanding + events.countP (isAck i) =
    (s.core.warp i).storesOutstanding + events.countP (isStore i)
  nAtomic : ∀ i, (t.core.warp i).nAtomic = events.foldl (pendingAtomics i) (s.core.warp i).nAtomic
  waits : ∀ i, Along (fun before event => event.isIssue i = true →
    before.foldl (pendingAtomics i) (s.core.warp i).nAtomic = 0) events
  exits : ∀ i, Along (fun before event => event.isExit i = true →
    s.flight i + before.countP (isIssue i) = before.countP (isCompletion i) ∧
      (s.core.warp i).storesOutstanding + before.countP (isStore i) = before.countP (isAck i)) events

variable {s t : Issuing w μ}

theorem foldl_pendingAtomics_of_still {n : Nat} (still : ∀ event ∈ events, ∀ n, event.pendingAtomics i n = n) :
    events.foldl (pendingAtomics i) n = n := by
  induction events with
  | nil => rfl
  | cons event rest ih =>
      rw [List.foldl_cons, still event List.mem_cons_self]
      exact ih fun other member => still other (List.mem_cons_of_mem _ member)

theorem follows_of_still {m : Machine w μ} (still : ∀ event ∈ events, event.still = true) :
    Follows (Acts model program) m events m := by
  induction events with
  | nil => exact .nil
  | cons event rest ih =>
      exact .cons (.still (still event List.mem_cons_self))
        (ih fun other member => still other (List.mem_cons_of_mem _ member))

theorem resident_eq_zero : core.resident i = 0 ↔ (core.warp i).doneExit = true := by
  rw [FrontEnd.resident]
  cases (core.warp i).doneExit <;> simp

theorem resident_le_one (core : FrontEnd w μ) (i : Nat) : core.resident i ≤ 1 := by
  rw [FrontEnd.resident]
  split
  · exact Nat.zero_le 1
  · exact Nat.le_refl 1

/-- One event, which is no issue and gives no warp back. -/
theorem Does.of_event {event : FrontEndEvent w μ} (sound : Sound cfg model program t.flight t.core)
    (acts : Acts model program s.core.machine event t.core.machine)
    (calm : ∀ i, event.isIssue i = false ∧ event.isExit i = false)
    (others : ∀ i, event.warp? ≠ some i → t.core.warp i = s.core.warp i ∧ t.flight i = s.flight i)
    (own : ∀ i, event.warp? = some i → t.core.resident i = s.core.resident i + [event].countP (isLaunch i) ∧
      t.flight i + [event].countP (isCompletion i) = s.flight i ∧
      (t.core.warp i).storesOutstanding + [event].countP (isAck i) =
        (s.core.warp i).storesOutstanding + [event].countP (isStore i) ∧
      (t.core.warp i).nAtomic = pendingAtomics i (s.core.warp i).nAtomic event) :
    Does cfg model program s [event] t := by
  have issues : ∀ i, [event].countP (isIssue i) = 0 := fun i => by simp [(calm i).1]
  have exits : ∀ i, [event].countP (isExit i) = 0 := fun i => by simp [(calm i).2]
  have alike : ∀ i, t.core.resident i = s.core.resident i + [event].countP (isLaunch i) ∧
      t.flight i + [event].countP (isCompletion i) = s.flight i ∧
      (t.core.warp i).storesOutstanding + [event].countP (isAck i) =
        (s.core.warp i).storesOutstanding + [event].countP (isStore i) ∧
      (t.core.warp i).nAtomic = pendingAtomics i (s.core.warp i).nAtomic event := by
    intro i
    by_cases mine : event.warp? = some i
    · exact own i mine
    · obtain ⟨⟨-, launch, -⟩, ⟨completion, store, ack⟩, atomics⟩ := of_apart mine
      obtain ⟨warp, running⟩ := others i mine
      simp [FrontEnd.resident, warp, running, launch, completion, store, ack, atomics]
  refine ⟨sound, .single acts, fun i => ?_, fun i => ?_, fun i => (alike i).2.2.1,
    fun i => (alike i).2.2.2, fun i => Along.nil.append fun issue => ?_, fun i => Along.nil.append fun exit => ?_⟩
  · rw [exits i, Nat.add_zero, (alike i).1]
  · rw [issues i, Nat.add_zero, (alike i).2.1]
  · exact absurd ((calm i).1.symm.trans issue) (by decide)
  · exact absurd ((calm i).2.symm.trans exit) (by decide)

/-- Fetch and decode. -/
theorem Does.of_quiet {next : FrontEnd w μ} (sound : Sound cfg model program s.flight next)
    (quiet : Quiet s.core next events) :
    Does cfg model program s events ⟨next, s.flight⟩ := by
  have count : ∀ {p : FrontEndEvent w μ → Bool}, (∀ i lanes, p (.exited i lanes) = false) → ∀ {some}, some <+: events →
      some.countP p = 0 := by
    intro p none some early
    rw [List.countP_eq_zero]
    intro event member
    obtain ⟨j, lanes, rfl⟩ := quiet.exits event (early.subset member)
    simp [none]
  have whole := List.prefix_refl events
  have gone : ∀ i, (∃ event ∈ events, event.isExit i = true) → s.flight i = 0 ∧
    (s.core.warp i).storesOutstanding = 0 := by
    intro i some
    have counted := quiet.resident i
    have bounded := resident_le_one s.core i
    have positive : 0 < events.countP (isExit i) := List.countP_pos_iff.mpr some
    have own := sound.warps i
    obtain ⟨stores, drained, -⟩ := own.idle (resident_eq_zero.mp (by omega))
    have running := own.counted
    exact ⟨by omega, (congrArg Prod.snd (quiet.outstanding i)).symm.trans stores⟩
  refine ⟨sound, ?_, fun i => ?_, fun i => ?_, fun i => ?_, fun i => ?_, fun i => ?_, fun i => ?_⟩
  · rw [quiet.machine]
    refine follows_of_still fun event member => ?_
    obtain ⟨j, lanes, rfl⟩ := quiet.exits event member
    rfl
  · rw [count (p := isLaunch i) (fun _ _ => rfl) whole, Nat.add_zero]
    exact quiet.resident i
  · rw [count (fun _ _ => rfl) whole, count (fun _ _ => rfl) whole]
  · rw [count (fun _ _ => rfl) whole, count (fun _ _ => rfl) whole]
    exact congrArg Prod.snd (quiet.outstanding i)
  · rw [foldl_pendingAtomics_of_still]
    · exact congrArg Prod.fst (quiet.outstanding i)
    · intro event member n
      obtain ⟨j, lanes, rfl⟩ := quiet.exits event member
      rfl
  · rintro before event after split issue
    obtain ⟨j, lanes, rfl⟩ := quiet.exits event (by simp [split])
    contradiction
  · rintro before event after split exit
    obtain ⟨running, stores⟩ := gone i ⟨event, by simp [split], exit⟩
    have early : before <+: events := ⟨event :: after, split.symm⟩
    rw [running, stores, count (p := isIssue i) (fun _ _ => rfl) early,
      count (p := isCompletion i) (fun _ _ => rfl) early,
      count (p := isStore i) (fun _ _ => rfl) early, count (p := isAck i) (fun _ _ => rfl) early]
    exact ⟨rfl, rfl⟩

/-- The schedulers. -/
theorem Does.of_scheduled {next : FrontEnd w μ} {j : Nat}
    (scheduled : Scheduled cfg model program s.flight j s.core next events) :
    Does cfg model program s events ⟨next, inFlight s.flight events⟩ := by
  have count : ∀ {p : FrontEndEvent w μ → Bool},
    (∀ i inst top active threads, p (.issued i inst top active threads) = false) →
      events.countP p = 0 := by
    intro p none
    rw [List.countP_eq_zero]
    intro event member
    obtain ⟨inst, top, active, threads, rfl⟩ := scheduled.issues event member
    simp [none]
  refine ⟨scheduled.sound, scheduled.acts, fun i => ?_, fun i => ?_, fun i => ?_, scheduled.nAtomic, fun i => ?_,
    fun i => ?_⟩
  · rw [count fun _ _ _ _ _ => rfl, count fun _ _ _ _ _ => rfl]
    exact scheduled.resident i
  · rw [count fun _ _ _ _ _ => rfl]
    rfl
  · rw [count fun _ _ _ _ _ => rfl, count fun _ _ _ _ _ => rfl]
    exact scheduled.stores i
  · refine scheduled.waits.imp fun before event member waited issue => ?_
    obtain ⟨inst, top, active, threads, rfl⟩ := scheduled.issues event member
    obtain rfl : j = i := by simpa [isIssue] using issue
    exact waited
  · rintro before event after split exit
    obtain ⟨inst, top, active, threads, rfl⟩ := scheduled.issues event (by simp [split])
    contradiction

/-- The pipelines and the memory system count something for one warp. -/
theorem Does.of_setWarp {event : FrontEndEvent w μ} {warp : ShdWarp w} (sound : Sound cfg model program s.flight s.core)
    (own : WarpSound model program s.core.machine.threads i running (s.core.threadActive i) warp)
      (here : flight' i = running) (frame : warp = { s.core.warp i with
      instInPipeline := warp.instInPipeline, storesOutstanding := warp.storesOutstanding, nAtomic := warp.nAtomic })
    (others : ∀ j, j ≠ i → flight' j = s.flight j) (mine : event.warp? = some i) (still : event.still = true)
    (calm : ∀ j, event.isIssue j = false ∧ event.isExit j = false ∧ event.isLaunch j = false)
    (counts : running + [event].countP (isCompletion i) = s.flight i ∧
      warp.storesOutstanding + [event].countP (isAck i) =
        (s.core.warp i).storesOutstanding + [event].countP (isStore i) ∧
      warp.nAtomic = pendingAtomics i (s.core.warp i).nAtomic event) :
    Does cfg model program s [event] ⟨s.core.setWarp i warp, flight'⟩ := by
  have doneExit : warp.doneExit = (s.core.warp i).doneExit := by rw [frame]
  rw [← here] at own
  refine .of_event (sound.setWarp own others (by rw [frame]) (by rw [frame]) (by rw [frame]) doneExit) (.still still)
    (fun j => ⟨(calm j).1, (calm j).2.1⟩) (fun j apart => ?_) (fun j same => ?_)
  · have differs : j ≠ i := fun same => apart (by rw [mine, same])
    exact ⟨setWarp_warp_of_ne _ _ differs, others j differs⟩
  · obtain rfl : i = j := Option.some.inj (mine.symm.trans same)
    dsimp only
    rw [setWarp_warp_self, here]
    refine ⟨?_, counts⟩
    rw [List.countP_singleton, (calm i).2.2, FrontEnd.resident, setWarp_warp_self, doneExit]
    rfl

theorem WarpSound.with_counts {m : μ} {threadActive : SimtMask w} {warp : ShdWarp w}
    {running' instInPipeline stores atomics : Nat} (sound : WarpSound model program m i running threadActive warp)
    (counted : warp.numInstInBuffer + running' = instInPipeline)
    (idle : warp.doneExit = true → stores = 0 ∧ instInPipeline = 0) :
    WarpSound model program m i running' threadActive
      { warp with instInPipeline, storesOutstanding := stores, nAtomic := atomics } := by
  refine ⟨sound.toBooks.congr rfl rfl rfl (fun _ => rfl) counted, sound.next_lt, sound.aligned, sound.live, sound.cdp,
    fun gone => ?_,
    sound.busy⟩
  obtain ⟨-, -, free, dead⟩ := sound.idle gone
  exact ⟨(idle gone).1, (idle gone).2, free, dead⟩

/-- Nothing moves but the state of the functional memory and what the front end does not look at. -/
theorem Sound.congr (sound : Sound cfg model program flight core) (warp : next.warp = core.warp)
    (counts : next.threadActive = core.threadActive ∧ next.notCompleted = core.notCompleted ∧
      next.activeWarps = core.activeWarps)
    (done : ∀ j lane, model.done next.machine.threads j lane = model.done core.machine.threads j lane)
    (fetching : Fetching model next) : Sound cfg model program flight next where
  warps j := by
    rw [counts.1, warp]
    exact (sound.warps j).congr (done j)
  fetching := fetching
  counted := sound.counted.congr (fun j => by rw [warp]) counts.1 counts.2.1 counts.2.2

theorem Elsewhere.sameHeld (rest : Elsewhere core next) : DataCache.SameHeld next.l1i next.pool core.l1i core.pool := by
  have l1i : next.l1i = core.l1i := by rw [rest.frame]
  refine ⟨fun mf => by rw [l1i], fun mf member => ?_⟩
  rw [l1i, DataCache.origin, DataCache.origin, (rest.kept mf member).1]

/-- Each step keeps the books. -/
theorem Step.does (step : Step cfg model program s events t) (sound : Sound cfg model program s.flight s.core) :
    Does cfg model program s events t := by
  cases step with
  | decode => exact .of_quiet sound.decode quiet_decode
  | fetch time memportFull done =>
      obtain ⟨sound, quiet⟩ := sound.fetch.result done
      exact .of_quiet sound quiet
  | schedule sched order done =>
      obtain ⟨i, scheduled, -⟩ := (ends_schedulerCycle sound).result done
      exact .of_scheduled scheduled
  | @launch next threads i ctaId startPc mask inside vacant nonempty real fresh others done =>
      obtain ⟨launched, warp, machine⟩ := (sound.launchWarp inside vacant nonempty (fun lane => (fresh lane).1)
        fun j apart lane => (others j apart lane).2).result done
      obtain ⟨-, -, -, dead⟩ := (sound.warps i).idle vacant
      refine .of_event launched (by rw [machine]; exact .launched nonempty real dead fresh others) (fun j => ⟨rfl, rfl⟩)
        (fun j apart => ⟨?_, rfl⟩) fun j same => ?_
      · dsimp only
        rw [warp]
        exact setWarp_warp_of_ne _ _ fun same => apart (congrArg some same.symm)
      · obtain rfl : i = j := Option.some.inj same
        have before : s.core.resident i = 0 := resident_eq_zero.mpr vacant
        rw [before, FrontEnd.resident, warp, setWarp_warp_self]
        simp [FrontEnd.launched, isLaunch, isCompletion, isAck, isStore, pendingAtomics]
  | @fill mf l1i pool time done =>
      obtain ⟨same, serving⟩ := DataCache.fill_sameHeld sound.fetching.serving done
      have fetching : Fetching model { s.core with l1i, pool } :=
        sound.fetching.same_held serving same (fun _ _ => rfl) rfl rfl fun _ => id
      exact .of_event (sound.congr rfl ⟨rfl, rfl, rfl⟩ (fun _ _ => rfl) fetching) (.still rfl) (fun _ => ⟨rfl, rfl⟩)
        (fun _ _ => ⟨rfl, rfl⟩) fun _ same => by contradiction
  | @complete i warp underWay done =>
      have own := sound.warps i
      have counted := own.counted
      rw [ShdWarp.decInstInPipeline, if_pos (by omega)] at done
      obtain rfl := Except.ok.inj done
      have fewer : (s.core.warp i).numInstInBuffer + (s.flight i - 1) = (s.core.warp i).instInPipeline - 1 := by omega
      refine .of_setWarp sound (own.with_counts fewer fun gone => ?_) (Function.update_self _ _ _) rfl
        (fun j apart => Function.update_of_ne apart _ _) rfl rfl (fun _ => ⟨rfl, rfl, rfl⟩) ?_
      · obtain ⟨stores, drained, -⟩ := own.idle gone
        exact ⟨stores, by omega⟩
      · simp [isCompletion, isAck, isStore, pendingAtomics]
        omega
  | @store i underWay =>
      have own := sound.warps i
      have counted := own.counted
      refine .of_setWarp sound (own.with_counts counted fun gone => ?_) rfl rfl (fun j apart => rfl) rfl rfl
        (fun _ => ⟨rfl, rfl, rfl⟩) ?_
      · obtain ⟨-, drained, -⟩ := own.idle gone
        omega
      · simp [isCompletion, isAck, isStore, pendingAtomics, ShdWarp.incStoreReq]
  | @acknowledge i warp done =>
      have own := sound.warps i
      rw [ShdWarp.decStoreReq] at done
      split at done
      next positive =>
        obtain rfl := Except.ok.inj done
        refine .of_setWarp sound (own.with_counts own.counted fun gone => ?_) rfl rfl (fun j apart => rfl) rfl rfl
          (fun _ => ⟨rfl, rfl, rfl⟩) ?_
        · obtain ⟨stores, -⟩ := own.idle gone
          omega
        · simp [isCompletion, isAck, isStore, pendingAtomics]
          omega
      next => contradiction
  | @atomicDone i lanes warp done =>
      have own := sound.warps i
      rw [ShdWarp.decNAtomic] at done
      split at done
      next enough =>
        obtain rfl := Except.ok.inj done
        refine .of_setWarp sound (own.with_counts own.counted fun gone => ?_) rfl rfl (fun j apart => rfl) rfl rfl
          (fun _ => ⟨rfl, rfl, rfl⟩) ?_
        · obtain ⟨stores, drained, -⟩ := own.idle gone
          exact ⟨stores, drained⟩
        · simp [isCompletion, isAck, isStore, pendingAtomics]
      next => contradiction
  | @memory threads same =>
      have fetching : Fetching model { s.core with machine := ⟨threads, s.core.machine.simtStack⟩ } :=
        sound.fetching.same_held sound.fetching.serving ⟨fun _ => Iff.rfl, fun _ _ => rfl⟩
          (fun _ _ => rfl) rfl rfl <| by
          rintro j ⟨lane, live⟩
          exact ⟨lane, (same j lane).2.trans live⟩
      exact .of_event (sound.congr rfl ⟨rfl, rfl, rfl⟩ (fun j lane => (same j lane).2) fetching) (.memory same)
        (fun _ => ⟨rfl, rfl⟩) (fun _ _ => ⟨rfl, rfl⟩) fun _ same => by contradiction
  | @elsewhere next rest =>
      have same := rest.sameHeld
      obtain ⟨machine, warp, l1i, buffer⟩ : next.machine = s.core.machine ∧ next.warp = s.core.warp ∧
          next.l1i = s.core.l1i ∧ next.instFetchBuffer = s.core.instFetchBuffer := by
        rw [rest.frame]
        exact ⟨rfl, rfl, rfl, rfl⟩
      have serving : next.l1i.Serving next.pool := by
        rw [l1i]
        exact sound.fetching.serving.of_same ⟨rfl, rfl⟩ rest.inUse
      have fetching := sound.fetching.same_held serving same (fun mf member => (rest.kept mf member).2) warp buffer
        fun _ live => by rwa [machine]
      refine .of_event (sound.congr warp (by rw [rest.frame]; exact ⟨rfl, rfl, rfl⟩)
        (fun _ _ => by rw [machine]) fetching) ?_
        (fun _ => ⟨rfl, rfl⟩) (fun j _ => ⟨congrFun warp j, rfl⟩) fun _ same => by contradiction
      dsimp only
      rw [machine]
      exact .still rfl

/-! ## Runs of given commands -/

/-- What may be asked of a core that has its warps. -/
inductive Command
  | decode
  | fetch (time : Nat)
  | schedule (sched : Nat) (order : List (Option Nat))
  | fill (mf : MfId) (time : Nat)
  | complete (i : Nat)

def perform (cfg : FrontEndConfig) (model : ThreadModel w μ) (program : InstructionMemory) (s : Issuing w μ) :
    Command → Except ExecFault (Issuing w μ × List (FrontEndEvent w μ))
  | .decode => .ok (⟨s.core.decode program, s.flight⟩, [])
  | .fetch time => do
      let (core, events) ← s.core.fetch cfg time false
      return (⟨core, s.flight⟩, events)
  | .schedule sched order => do
      let (core, events) ← schedulerCycle cfg model sched order s.core
      return (⟨core, inFlight s.flight events⟩, events)
  | .fill mf time => do
      let (l1i, pool) ← liftCache (s.core.l1i.fill cfg.l1i s.core.pool mf time)
      return (⟨{ s.core with l1i, pool }, s.flight⟩, [.elsewhere])
  | .complete i =>
      if 0 < s.flight i then do
        let warp ← (s.core.warp i).decInstInPipeline
        return (⟨s.core.setWarp i warp, Function.update s.flight i (s.flight i - 1)⟩, [.completed i])
      else .error .assertion

def performAll (cfg : FrontEndConfig) (model : ThreadModel w μ) (program : InstructionMemory) :
    List Command → Issuing w μ → Except ExecFault (Issuing w μ × List (FrontEndEvent w μ))
  | [], s => .ok (s, [])
  | command :: rest, s => do
      let (s, events) ← perform cfg model program s command
      let (s, later) ← performAll cfg model program rest s
      return (s, events ++ later)

theorem step_of_perform {command : Command} (done : perform cfg model program s command = .ok (t, events)) :
    Step cfg model program s events t := by
  cases command with
  | decode =>
      cases done
      exact .decode
  | fetch time =>
      obtain ⟨⟨next, shown⟩, fetched, done⟩ := bind_ok.mp done
      cases done
      exact .fetch time false fetched
  | schedule sched order =>
      obtain ⟨⟨next, shown⟩, scheduled, done⟩ := bind_ok.mp done
      cases done
      exact .schedule sched order scheduled
  | fill mf time =>
      obtain ⟨⟨l1i, pool⟩, lifted, done⟩ := bind_ok.mp done
      cases done
      cases filled : s.core.l1i.fill cfg.l1i s.core.pool mf time with
      | error fault =>
          rw [liftCache, filled] at lifted
          contradiction
      | ok result =>
          rw [liftCache, filled] at lifted
          cases lifted
          exact .fill time filled
  | complete i =>
      rw [perform] at done
      split at done
      next underWay =>
        obtain ⟨warp, completed, done⟩ := bind_ok.mp done
        cases done
        exact .complete underWay completed
      next => contradiction

theorem reaches_of_performAll {commands : List Command}
    (done : performAll cfg model program commands s = .ok (t, events)) :
    Reaches (Step cfg model program) s events t := by
  induction commands generalizing s events with
  | nil =>
      cases done
      exact .refl
  | cons command rest ih =>
      obtain ⟨⟨next, shown⟩, performed, done⟩ := bind_ok.mp done
      obtain ⟨⟨last, later⟩, following, done⟩ := bind_ok.mp done
      cases done
      exact (Reaches.refl.next (step_of_perform performed)).append (ih following)

/-- A core of one warp, with an instruction cache of one line. -/
def smallCore : FrontEndConfig where
  maxWarpsPerShader := 1
  l1i := {
    cacheType := .normal, nset := 1, lineSize := 128, assoc := 1, replacementPolicy := .lru, writePolicy := .readOnly,
    allocPolicy := .onFill, isStreaming := false, mshrType := .assoc, mshrEntries := 2, mshrMaxMerge := 2,
    missQueueSize := 2, dataPortWidth := 128, setIndex := fun _ => 0 }
  perfectInstConstCache := false
  maxInsnIssuePerWarp := 2
  dualIssueDiffExecUnits := false
  subCoreModel := false
  numUnits _ := 1
  numSpecialized := 0
  cdpLatency _ := 0
  subPartitionOf _ := 0
  chipOf _ := 0

/-- The core before its first launch. -/
def smallStart : FrontEnd 1 (Nat → AddressType × Bool) :=
  create smallCore (fun _ => 1) .initial ⟨1, 1, 1, 1, fun _ => none, fun _ => ∅, ∅, ∅⟩ ⟨fun _ => default, 0⟩
    fun _ => (0, true)

/-- Its warp is launched at `startPc` and does what it is asked. -/
def testSmall (model : ThreadModel 1 (Nat → AddressType × Bool)) (startPc : AddressType)
    (functions : List (List DecodedInst)) (commands : List Command) (test : Issuing 1 (Nat → AddressType × Bool) →
      List (FrontEndEvent 1 (Nat → AddressType × Bool)) → Bool) : Bool :=
  match InstructionMemory.assemble functions with
  | .error _ => false
  | .ok program => succeedsWith (do
      let core ← smallStart.launchWarp (Function.update (fun _ => (0, true)) 0 (startPc, false)) 0 0 startPc {0}
      performAll smallCore model program commands ⟨core, fun _ => 0⟩) fun result => test result.1 result.2

theorem exists_of_testSmall (model : ThreadModel 1 (Nat → AddressType × Bool)) (startPc : AddressType)
    (functions : List (List DecodedInst)) (commands : List Command)
    (test : Issuing 1 (Nat → AddressType × Bool) → List (FrontEndEvent 1 (Nat → AddressType × Bool)) → Bool)
    (read : ∀ m i lane, model.pc m i lane = (m i).1 ∧ model.done m i lane = (m i).2) (real : startPc ≠ nullPc)
    (passed : testSmall model startPc functions commands test = true) :
    ∃ program core s events, Reaches (Step smallCore model program) ⟨smallStart, fun _ => 0⟩ [.launched 0]
      ⟨core, fun _ => 0⟩ ∧
      core.machine = ⟨Function.update (fun _ => (0, true)) 0 (startPc, false),
        Function.update (fun _ => []) 0 (SimtStack.launch startPc {0})⟩ ∧
      InstructionMemory.assemble functions = .ok program ∧
      Reaches (Step smallCore model program) ⟨core, fun _ => 0⟩ events s ∧ test s events = true := by
  rw [testSmall] at passed
  split at passed
  · contradiction
  next program assembled =>
    obtain ⟨⟨s, events⟩, done, holds⟩ := exists_of_succeedsWith passed
    obtain ⟨core, launched, performed⟩ := bind_ok.mp done
    have launch : Step smallCore model program ⟨smallStart, fun _ => 0⟩ [.launched 0] ⟨core, fun _ => 0⟩ := by
      refine .launch Nat.zero_lt_one rfl ⟨0, Finset.mem_singleton_self 0⟩ real (fun lane => ?_)
        (fun j apart lane => ?_) launched
      · obtain rfl : lane = 0 := Subsingleton.elim _ _
        simp [read]
      · simp [read, apart, smallStart, create]
    rw [launchWarp_eq rfl rfl rfl] at launched
    obtain rfl := Except.ok.inj launched
    exact ⟨program, _, s, events, Reaches.refl.next launch, rfl, assembled, reaches_of_performAll performed, holds⟩

end FrontEnd

end GpgpuSim.Shader
