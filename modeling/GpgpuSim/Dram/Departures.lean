import GpgpuSim.Dram.RequestFlow

/-! Runs of the memory controller in which requests are pushed as the partition pushes
them: at most one between two cycles, and only when the controller is not full. Every
request leaves once, after its last transfer, when nothing refers to it any more. -/
namespace GpgpuSim.Dram
open GpgpuSim.Memory Transition

/-- The controller, and whether a request was pushed since its last cycle. -/
structure Port where
  dram : DramT
  pushed : Bool := false

/-- The steps of a controller to which requests are pushed that are `allowed`. -/
inductive GuardedStep (cfg : MemoryConfig) (allowed : MemFetch → Prop) : Port → List DramEvent → Port →
    Prop
  | push {s t shown} (data : MfId) (mf : MemFetch) (row bk : Nat) (guard : s.full cfg mf.isWrite = false)
      (is_allowed : allowed mf) (ok : s.push cfg data mf row bk = .ok (t, shown)) :
      GuardedStep cfg allowed ⟨s, false⟩ shown ⟨t, true⟩
  | returnQueuePop {s t shown pushed} (ok : s.returnQueuePop = .ok (t, shown)) :
      GuardedStep cfg allowed ⟨s, pushed⟩ shown ⟨t, pushed⟩
  | cycle {s t shown pushed} (ok : s.cycle cfg = .ok (t, shown)) :
      GuardedStep cfg allowed ⟨s, pushed⟩ shown ⟨t, false⟩

/-- A write is only pushed when its latency fits the pipe of the data bus, which is built for
the read latency. -/
def FitsPipe (cfg : MemoryConfig) (mf : MemFetch) : Prop := mf.isWrite → cfg.wl ≤ cfg.cl

namespace DramT

/-- Neither the pipe of the data bus nor a bank refers to the request. -/
def Unreferenced (s : DramT) (r : Nat) : Prop := s.rwq.copies r = 0 ∧ ∀ b, (s.bk b).mrq ≠ some r

/-- The request waits somewhere or has a transfer in the pipe of the data bus. -/
def Holds (s : DramT) (r : Nat) : Prop := (∃ station, r ∈ s.view station) ∨ 0 < s.rwq.copies r

end DramT

/-- What a run has done with the requests that were pushed. -/
structure LeaveOnce (cfg : MemoryConfig) (trace : List DramEvent) (s : DramT) : Prop where
  /-- A pushed request has left once, or is still there. -/
  once : ∀ r data, .pushed r data ∈ trace →
    departures trace r = 1 ∧ s.Unreferenced r ∨ departures trace r = 0 ∧ s.Holds r
  /-- What leaves was pushed; a write-back goes through `set_done`, all else to the return queue. -/
  returned : ∀ r data, .returned r data ∈ trace →
    .pushed r data ∈ trace ∧ (s.reqs r).accessType.isWriteBack = false
  setDone : ∀ r data, .setDone r data ∈ trace →
    .pushed r data ∈ trace ∧ (s.reqs r).accessType.isWriteBack = true
  /-- It leaves when all its column commands have been issued, and no other follows. -/
  last : Along (LeavesLast cfg s) trace
  bound : ∀ r data, .pushed r data ∈ trace → columns trace r ≤ bursts cfg (s.reqs r)
  /-- The column commands go to the bank and the row of their request. -/
  column : ∀ c ∈ commands trace, c.isRow = false → c.bank = (s.reqs c.req).bk ∧ c.row = (s.reqs c.req).row

/-- What can go wrong in the next step. -/
structure NoAssertion (cfg : MemoryConfig) (allowed : MemFetch → Prop) (port : Port) : Prop where
  cycle : ∀ fault, port.dram.cycle cfg = .error fault → fault = .outOfRange
  push : ∀ data mf row bk fault, port.pushed = false → port.dram.full cfg mf.isWrite = false →
    allowed mf →
    port.dram.push cfg data mf row bk = .error fault → fault = .wrongPartition ∨ fault = .bankIndex
  returnQueuePop : ∀ fault, port.dram.returnQueuePop ≠ .error fault
  /-- A request is freed when nothing refers to it. -/
  freed : ∀ t shown, port.dram.returnData cfg = .ok (t, shown) → ∀ event ∈ shown, ∀ r, event.leaves r →
    t.Unreferenced r

variable {cfg : MemoryConfig} {trace shown : List DramEvent} {s t : DramT} {place : Nat → Option Station}

/-! ## From the account -/

theorem Accounted.used_of_pushed (accounted : Accounted cfg trace s place) {r : Nat} {data : MfId}
    (pushed : .pushed r data ∈ trace) : r < s.nextReq :=
  (accounted.events _ pushed).1

theorem Accounted.pushed_of_used (accounted : Accounted cfg trace s place) {r : Nat} (used : r < s.nextReq) :
    .pushed r (s.reqs r).data ∈ trace := by
  obtain ⟨popped, underway⟩ := accounted.underway r used
  have entered : 0 < entries trace r := by
    rw [underway.entered]
    exact Nat.one_pos
  obtain ⟨event, mem, is_entry⟩ := List.countP_pos_iff.mp entered
  have sound := accounted.events event mem
  cases event with
  | pushed req data =>
      obtain rfl : req = r := by simpa [DramEvent.enters] using is_entry
      rw [← sound.2]
      exact mem
  | command c => cases is_entry
  | returned req data => cases is_entry
  | setDone req data => cases is_entry

theorem Underway.unreferenced (accounted : Accounted cfg trace s place) {r popped : Nat}
    (underway : Underway cfg trace s (place r) r popped) (left : departures trace r = 1) :
        s.Unreferenced r := by
  have all : popped = bursts cfg (s.reqs r) := by
    by_contra differs
    have stays := underway.left
    rw [if_neg differs, left] at stays
    contradiction
  have sent := underway.sent
  have bound := underway.bound
  refine ⟨by omega, fun b serves => ?_⟩
  have nowhere := underway.placed.mpr (by omega)
  have here : place r = some (.serving b) := accounted.custody.place_of_mem (by simp [DramT.view, serves])
  rw [nowhere] at here
  contradiction

theorem Underway.holds (accounted : Accounted cfg trace s place) {r popped : Nat}
    (underway : Underway cfg trace s (place r) r popped) (left : departures trace r = 0) : s.Holds r := by
  have some_left : popped ≠ bursts cfg (s.reqs r) := by
    intro all
    have gone := underway.left
    rw [if_pos all, left] at gone
    contradiction
  cases there : place r with
  | some station => exact .inl ⟨station, (accounted.custody.mem_iff station r).mpr there⟩
  | none =>
      have all_sent := underway.placed.mp there
      have sent := underway.sent
      exact .inr (by omega)

theorem Accounted.leaveOnce (accounted : Accounted cfg trace s place) : LeaveOnce cfg trace s := by
  constructor
  · intro r data pushed
    obtain ⟨popped, underway⟩ := accounted.underway r (accounted.used_of_pushed pushed)
    by_cases all : popped = bursts cfg (s.reqs r)
    · have left := underway.left
      rw [if_pos all] at left
      exact .inl ⟨left, underway.unreferenced accounted left⟩
    · have left := underway.left
      rw [if_neg all] at left
      exact .inr ⟨left, underway.holds accounted left⟩
  · intro r data gone
    obtain ⟨used, same, read⟩ := accounted.events _ gone
    exact ⟨same ▸ accounted.pushed_of_used used, read⟩
  · intro r data gone
    obtain ⟨used, same, write_back⟩ := accounted.events _ gone
    exact ⟨same ▸ accounted.pushed_of_used used, write_back⟩
  · exact accounted.ordered
  · intro r data pushed
    obtain ⟨popped, underway⟩ := accounted.underway r (accounted.used_of_pushed pushed)
    exact underway.bound
  · intro c mem is_column
    obtain ⟨event, shows, is_c⟩ := List.mem_filterMap.mp mem
    cases event with
    | command d =>
        cases is_c
        exact (accounted.events _ shows is_column).2
    | pushed req data => cases is_c
    | returned req data => cases is_c
    | setDone req data => cases is_c

/-! ## Every run -/

/-- What holds of the controller between two steps. -/
def PortSound (cfg : MemoryConfig) (trace : List DramEvent) (port : Port) : Prop :=
  (∃ place, Accounted cfg trace port.dram place) ∧
    if port.pushed then Arrivals cfg port.dram else Drained cfg port.dram

theorem PortSound.arrivals {port : Port} (sound : PortSound cfg trace port) : Arrivals cfg port.dram := by
  have after := sound.2
  split at after
  · exact after
  · exact fun frfcfs => .inl (after frfcfs)

theorem create_sound (cfg : MemoryConfig) (id : Nat) :
    ∃ start, DramT.create cfg id = .ok start ∧ PortSound cfg [] ⟨start, false⟩ := by
  obtain ⟨rwq, made, rwq_sound, rwq_min, rwq_max, rwq_empty⟩ :=
    FifoPipeline.create_ok (α := Nat) (Nat.succ_ne_zero cfg.cl) (Nat.le_succ cfg.cl)
  set size := if cfg.gpgpuDramReturnQueueSize = 0 then 1024 else cfg.gpgpuDramReturnQueueSize with is_size
  have some_size : size ≠ 0 := by
    rw [is_size]
    split <;> omega
  obtain ⟨returnq, made', returnq_sound, -, returnq_max, -⟩ :=
    FifoPipeline.create_ok (α := MfId) some_size (Nat.zero_le size)
  refine ⟨{ id, reqs := fun _ => default, rwq, mrqq := ⟨0, 2, []⟩, returnq }, ?_, ⟨fun _ => none, ?_⟩, ?_⟩
  · exact bind_ok.mpr ⟨rwq, fifoOp_ok.mpr made,
      bind_ok.mpr ⟨_, rfl, bind_ok.mpr ⟨returnq, fifoOp_ok.mpr made', rfl⟩⟩⟩
  · refine ⟨⟨fun station => ?_, fun station r => ?_⟩, by simp, by simp,
      fun r _ => ⟨rfl, rwq_empty r, rfl, rfl, rfl⟩, .empty, ?_,
      by simp, by simp, .nil⟩
    · cases station <;> simp [DramT.view]
    · cases station <;> simp [DramT.view]
    · exact ⟨rwq_sound, rwq_min, rwq_max, le_refl _, rfl, rfl, by simp, returnq_sound,
        returnq_max ▸ some_size⟩
  · exact fun _ => rfl

theorem room_of_full {mf : MemFetch} {req : DramReq} (type : req.accessType = mf.accessType)
    (frfcfs : cfg.schedulerType = .dramFrfcfs) (queue : 0 < cfg.gpgpuFrfcfsDramSchedQueueSize)
    (guard : s.full cfg mf.isWrite = false) : FrfcfsScheduler.Room cfg req s.frfcfsScheduler := by
  have kind : FrfcfsScheduler.separateWrite cfg req ↔ cfg.seperateWriteQueueEnabled ∧ mf.isWrite := by
    rw [FrfcfsScheduler.separateWrite, DramReq.isWrite, type, MemFetch.isWrite, Bool.and_eq_true]
  have some_queue : cfg.gpgpuFrfcfsDramSchedQueueSize ≠ 0 := Nat.ne_of_gt queue
  simp only [DramT.full, frfcfs, if_neg some_queue] at guard
  unfold FrfcfsScheduler.Room
  split at guard
  next separate =>
    rw [if_pos (kind.mpr separate)]
    simpa using guard
  next shared =>
    rw [if_neg fun separate => shared (kind.mp separate)]
    simpa using guard

theorem push_sound (queue : 0 < cfg.gpgpuFrfcfsDramSchedQueueSize) (sound : PortSound cfg trace ⟨s, false⟩)
    (data : MfId) (row bk : Nat) {mf : MemFetch} (guard : s.full cfg mf.isWrite = false) (fits : FitsPipe cfg mf) :
    match s.push cfg data mf row bk with
    | .ok (t, shown) => PortSound cfg (trace ++ shown) ⟨t, true⟩
    | .error fault => fault = .wrongPartition ∨ fault = .bankIndex := by
  obtain ⟨⟨place, accounted⟩, drained⟩ := sound
  have pipes := accounted.pipes
  have room : s.mrqq.length < s.mrqq.maxLen := by
    rw [pipes.mrqqMax]
    cases type : cfg.schedulerType with
    | dramFrfcfs =>
        rw [FifoPipeline.length, drained type]
        exact Nat.two_pos
    | dramFifo =>
        simp only [DramT.full, type] at guard
        have bound := FifoPipeline.room_of_not_full (by rw [pipes.mrqqMax]; exact two_ne_zero) guard
        rwa [pipes.mrqqMax] at bound
  have pushed := FifoPipeline.push_append pipes.mrqq room s.nextReq
  unfold DramT.push
  by_cases here : s.id = mf.chip
  · rw [if_pos here]
    cases index : cfg.bankIndex row bk with
    | error fault =>
        have is_index : fault = .bankIndex := by
          unfold MemoryConfig.bankIndex at index
          split at index
          · cases index
          · dsimp only at index
            split at index
            · cases index
            · exact (Except.error.inj index).symm
          · split at index
            · exact (Except.error.inj index).symm
            · split at index
              · cases index
              · exact (Except.error.inj index).symm
          · exact (Except.error.inj index).symm
        exact .inr is_index
    | ok bank =>
        have latency : cfg.busLatency (if mf.isWrite then ReadWrite.write else .read) ≤ cfg.cl := by
          split
          next write => exact fits write
          next => exact le_refl _
        have pushed' : fifoOp (s.mrqq.push (some s.nextReq)) =
            .ok { s.mrqq with nodes := s.mrqq.nodes ++ [some s.nextReq] } := fifoOp_ok.mpr pushed
        simp only [bind, Except.bind, pushed']
        refine ⟨⟨_, accounted.enters
          ⟨row, bank, mf.dataSize, 0, 0, _, data, mf.accessType⟩ rfl rfl rfl latency
          rfl rfl⟩, fun frfcfs => .inr ⟨s.nextReq, ?_, ?_⟩⟩
        · rw [drained frfcfs]
          rfl
        · exact room_of_full (s := s) (by simp) frfcfs queue guard
  · rw [if_neg here]
    exact .inl rfl

theorem returnQueuePop_sound {port : Port} (sound : PortSound cfg trace port) :
    ∃ t, port.dram.returnQueuePop = .ok (t, []) ∧ PortSound cfg (trace ++ []) ⟨t, port.pushed⟩ := by
  obtain ⟨⟨place, accounted⟩, between⟩ := sound
  have pipes := accounted.pipes
  obtain ⟨data, returnq, popped, sound, -, max, -, -⟩ := FifoPipeline.pop_ok pipes.returnq
  refine ⟨{ port.dram with returnq }, bind_ok.mpr ⟨_, fifoOp_ok.mpr popped, rfl⟩, ⟨place, ?_⟩, between⟩
  apply accounted.quiet (t := { port.dram with returnq }) rfl rfl rfl accounted.sched _
    (fun _ => rfl) .nil (by simp)
    (by simpa using accounted.ordered)
  exact ⟨pipes.rwq, pipes.rwqMin, pipes.rwqMax, pipes.rw, pipes.mrqqMin, pipes.mrqqMax, pipes.mrqq, sound,
    by rw [max]; exact pipes.returnqMax⟩

theorem GuardedStep.sound (atom : 0 < cfg.dramAtomSize) (queue : 0 < cfg.gpgpuFrfcfsDramSchedQueueSize)
    {port port' : Port} (sound : PortSound cfg trace port) (step : GuardedStep cfg (FitsPipe cfg) port shown port') :
    PortSound cfg (trace ++ shown) port' := by
  cases step with
  | push data mf row bk guard fits ok =>
      have kept := push_sound queue sound data row bk guard fits
      rwa [ok] at kept
  | returnQueuePop ok =>
      obtain ⟨t, popped, kept⟩ := returnQueuePop_sound sound
      rw [ok] at popped
      cases popped
      exact kept
  | cycle ok =>
      have arrivals := sound.arrivals
      obtain ⟨⟨place, accounted⟩, -⟩ := sound
      have kept := cycle_keeps atom accounted arrivals
      rw [ok] at kept
      exact kept

theorem PortSound.noAssertion (atom : 0 < cfg.dramAtomSize) (queue : 0 < cfg.gpgpuFrfcfsDramSchedQueueSize)
    {port : Port} (sound : PortSound cfg trace port) : NoAssertion cfg (FitsPipe cfg) port := by
  have arrivals := sound.arrivals
  obtain ⟨place, accounted⟩ := sound.1
  constructor
  · intro fault stopped
    have kept := cycle_keeps atom accounted arrivals
    rw [stopped] at kept
    exact kept
  · intro data mf row bk fault unpushed guard fits stopped
    obtain ⟨dram, pushed⟩ := port
    obtain rfl : pushed = false := unpushed
    have kept := push_sound queue sound data row bk guard fits
    rw [stopped] at kept
    exact kept
  · intro fault stopped
    obtain ⟨t, popped, -⟩ := returnQueuePop_sound sound
    rw [stopped] at popped
    cases popped
  · intro t shown arrived event mem r leaves
    obtain ⟨t', shown', arrived', kept, -⟩ := returnData_ok atom accounted
    rw [arrived] at arrived'
    cases arrived'
    have sound := kept.events event (List.mem_append_right _ mem)
    obtain ⟨popped, underway⟩ := kept.underway r (used_of_leaves sound leaves)
    apply underway.unreferenced kept
    have left := underway.left
    have some_left : 0 < departures (trace ++ shown) r :=
      List.countP_pos_iff.mpr ⟨event, List.mem_append_right _ mem, leaves⟩
    split at left
    · exact left
    · omega

/-- In every run every request that was pushed leaves once, after exactly the column
commands it needs, and is not referred to afterwards; and no assertion fails. -/
theorem requests_leave_once (id : Nat) (atom : 0 < cfg.dramAtomSize) (queue : 0 < cfg.gpgpuFrfcfsDramSchedQueueSize) :
    ∃ start, DramT.create cfg id = .ok start ∧
      ∀ trace port, Reaches (GuardedStep cfg (FitsPipe cfg)) ⟨start, false⟩ trace port →
        LeaveOnce cfg trace port.dram ∧ NoAssertion cfg (FitsPipe cfg) port := by
  obtain ⟨start, created, initial⟩ := create_sound cfg id
  refine ⟨start, created, fun trace port run => ?_⟩
  have sound : PortSound cfg trace port :=
    run.invariant initial fun _ sound step => step.sound atom queue sound
  obtain ⟨place, accounted⟩ := sound.1
  exact ⟨accounted.leaveOnce, sound.noAssertion atom queue⟩

theorem cycles_guarded {allowed : MemFetch → Prop} {pushed : Bool} {n : Nat}
    (ran : cycles cfg (n + 1) s = .ok (t, shown)) :
    Reaches (GuardedStep cfg allowed) ⟨s, pushed⟩ shown ⟨t, false⟩ := by
  induction n generalizing s pushed shown with
  | zero =>
      obtain ⟨u, early, late, one, more, rfl⟩ := Stage.andThen_ok.mp ran
      cases more
      have last : GuardedStep cfg allowed ⟨s, pushed⟩ early ⟨t, false⟩ := .cycle one
      simpa using Reaches.next .refl last
  | succ n ih =>
      obtain ⟨u, early, late, one, more, rfl⟩ := Stage.andThen_ok.mp ran
      exact (Reaches.next .refl (.cycle one)).append (ih more)

/-- A small request pushed to a new controller, and some cycles, as guarded steps. -/
theorem pushAndCycle_guarded (allowed : MemFetch → Prop) {type : MemAccessType} {n : Nat}
    (guard : ∀ start, DramT.create cfg 0 = .ok start → start.full cfg (smallRequest type).isWrite = false)
    (is_allowed : allowed (smallRequest type)) (ran : pushAndCycle cfg type (n + 1) = .ok (t, trace)) :
    ∃ start, DramT.create cfg 0 = .ok start ∧ Reaches
      (GuardedStep cfg allowed) ⟨start, false⟩ trace ⟨t, false⟩ := by
  obtain ⟨start, created, ran⟩ := bind_ok.mp ran
  obtain ⟨u, early, late, pushed, cycled, rfl⟩ := Stage.andThen_ok.mp ran
  have first := GuardedStep.push (.request 0) (smallRequest type) 7 1
    (guard start created) is_allowed pushed
  exact ⟨start, created, (Reaches.next .refl first).append (cycles_guarded cycled)⟩

theorem requests_leave_once_write_back :
    ∃ start trace s, DramT.create (smallConfig 1) 0 = .ok start ∧
      Reaches (GuardedStep (smallConfig 1) (FitsPipe (smallConfig 1))) ⟨start, false⟩ trace ⟨s, false⟩ ∧
      .setDone 0 (.request 0) ∈ trace ∧ LeaveOnce (smallConfig 1) trace s := by
  have shown : (pushAndCycle (smallConfig 1) .l2WrbkAcc 4).map (fun ended => ended.2) =
      .ok [.pushed 0 (.request 0), .command ⟨0, .activate, 1, 7, 0⟩,
        .command ⟨1, .column .write, 1, 7, 0⟩,
        .setDone 0 (.request 0)] := by decide +kernel
  obtain ⟨⟨s, trace⟩, ran, is_shown⟩ := map_ok.mp shown
  have guard : ∀ start, DramT.create (smallConfig 1) 0 = .ok start →
      start.full (smallConfig 1) (smallRequest .l2WrbkAcc).isWrite = false := by
    intro start created
    cases created
    rfl
  obtain ⟨start, created, run⟩ := pushAndCycle_guarded (FitsPipe (smallConfig 1)) guard
    (fun _ => by decide) ran
  obtain ⟨start', created', kept⟩ := @requests_leave_once (smallConfig 1) 0 (by decide) (by decide)
  obtain rfl : start = start' := Except.ok.inj (created.symm.trans created')
  exact ⟨start, trace, s, created, run, by rw [show trace = _ from is_shown]; simp, (kept trace _ run).1⟩

/-- With a write latency above the read latency the first column command of a write fails
an assertion of the pipe of the data bus. -/
theorem write_overruns_pipe :
    ∃ start trace s, DramT.create (smallConfig 3) 0 = .ok start ∧
      Reaches (GuardedStep (smallConfig 3) fun _ => True) ⟨start, false⟩ trace ⟨s, false⟩ ∧
      s.cycle (smallConfig 3) = .error .fifo := by
  have shown : (pushAndCycle (smallConfig 3) .l2WrbkAcc 1).map
      (fun ended => (ended.1.cycle (smallConfig 3)).map fun ended => ended.2) = .ok (.error .fifo) :=
        by decide +kernel
  obtain ⟨⟨s, trace⟩, ran, is_shown⟩ := map_ok.mp shown
  have guard : ∀ start, DramT.create (smallConfig 3) 0 = .ok start →
      start.full (smallConfig 3) (smallRequest .l2WrbkAcc).isWrite = false := by
    intro start created
    cases created
    rfl
  obtain ⟨start, created, run⟩ := pushAndCycle_guarded (fun _ => True) guard trivial ran
  refine ⟨start, trace, s, created, run, ?_⟩
  cases stops : s.cycle (smallConfig 3) with
  | error fault =>
      rw [stops] at is_shown
      obtain rfl : fault = .fifo := Except.error.inj is_shown
      rfl
  | ok ended =>
      rw [stops] at is_shown
      cases is_shown

end GpgpuSim.Dram
