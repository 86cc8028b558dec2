import GpgpuSim.Dram.Departures

/-! Whether the scheduler has room for what the controller admits. A queue of size zero counts as unlimited where
requests are admitted and as full where they are queued. -/
namespace GpgpuSim.Dram
open GpgpuSim.Memory Transition

variable {cfg : MemoryConfig} {s t : DramT} {port next : Port} {shown : List DramEvent}

/-! ## Stages that queue nothing -/

/-- The scheduler and the requests on their way to it have stayed. -/
structure SameArrivals (s t : DramT) : Prop where
  mrqq : t.mrqq = s.mrqq
  sched : t.frfcfsScheduler = s.frfcfsScheduler
  kind : ∀ r, (t.reqs r).accessType = (s.reqs r).accessType

theorem SameArrivals.refl (s : DramT) : SameArrivals s s := ⟨rfl, rfl, fun _ => rfl⟩

theorem SameArrivals.trans {u : DramT} (first : SameArrivals s t) (second : SameArrivals t u) : SameArrivals s u :=
  ⟨second.mrqq.trans first.mrqq, second.sched.trans first.sched, fun r => (second.kind r).trans (first.kind r)⟩

theorem SameArrivals.modifyReq {req : Nat} {change : DramReq → DramReq}
    (kept : ∀ r, (change r).accessType = r.accessType) : SameArrivals s (s.modifyReq req change) where
  mrqq := rfl
  sched := rfl
  kind r := by
    by_cases here : r = req
    · subst here
      simp only [DramT.modifyReq, Function.update_self, kept]
    · simp only [DramT.modifyReq, Function.update_of_ne here]

theorem SameArrivals.of_sameRequests (same : SameRequests s t) : SameArrivals s t :=
  ⟨same.mrqq, same.frfcfsScheduler, fun r => by rw [same.reqs]⟩

/-- The stage does not fail in `add_req`, and keeps what is on its way there. -/
abbrev KeepsArrivals (stage : Stage DramT DramEvent DramFault) : Prop :=
  ∀ s, Ensures .addReq (stage s) fun ended => SameArrivals s ended.1

theorem fifoOp_never {α : Type} (result : Except FifoFault α) : Never .addReq (fifoOp result) where
  ne := by
    cases result with
    | error fault => simp [fifoOp, Except.mapError]
    | ok a => simp [fifoOp, Except.mapError]

theorem KeepsArrivals.idle : KeepsArrivals Stage.idle := fun s => .ok (.refl s)

theorem KeepsArrivals.andThen {first second : Stage DramT DramEvent DramFault} (one : KeepsArrivals first)
    (two : KeepsArrivals second) : KeepsArrivals (first.andThen second) := fun s =>
  Stage.ensures_andThen (one s) fun t same => ⟨⟨(two t).ne⟩, fun ended done => same.trans ((two t).result ended done)⟩

theorem returnData_keepsArrivals : KeepsArrivals (DramT.returnData cfg) := by
  intro s
  rw [DramT.returnData]
  split
  · exact .ok (.refl s)
  · refine .bind (fifoOp_never _) fun popped _ => ?_
    obtain ⟨cmd, rwq⟩ := popped
    dsimp only
    split
    · exact .ok ⟨rfl, rfl, fun _ => rfl⟩
    next cmd _ =>
      have popped : SameArrivals s { s with rwq } := ⟨rfl, rfl, fun _ => rfl⟩
      have arrived := popped.trans (@SameArrivals.modifyReq _ cmd
        (fun req => { req with dqbytes := req.dqbytes + cfg.dramAtomSize }) fun _ => rfl)
      split
      · split
        · exact .ok arrived
        · exact .bind (fifoOp_never _) fun returnq _ => .ok ⟨arrived.mrqq, arrived.sched, arrived.kind⟩
      · exact .ok arrived

theorem turnBus_keepsArrivals (rw : ReadWrite) : Ensures .addReq (s.turnBus cfg rw) (SameArrivals s) := by
  unfold DramT.turnBus
  split
  · exact .ok (.refl s)
  · exact .bind (fifoOp_never _) fun rwq _ => .ok ⟨rfl, rfl, fun _ => rfl⟩

theorem transfer_keepsArrivals (j mrq : Nat) : Ensures .addReq (s.transfer cfg j mrq) (SameArrivals s) := by
  rw [DramT.transfer]
  refine .bind (turnBus_keepsArrivals _).toNever fun t turned => .bind (fifoOp_never _) fun rwq _ => .ok ?_
  have same := (turnBus_keepsArrivals _).result t turned
  have pushed : SameArrivals t { t with rwq } := ⟨rfl, rfl, fun _ => rfl⟩
  have sent := pushed.trans (@SameArrivals.modifyReq _ mrq
    (fun req => { req with txbytes := req.txbytes + cfg.dramAtomSize }) fun _ => rfl)
  exact (same.trans sent).trans (.of_sameRequests (.startColumn j _))

theorem issueColCommand_keepsArrivals (j : Nat) : KeepsArrivals (DramT.issueColCommand cfg j) := by
  intro s
  rw [DramT.issueColCommand]
  split
  · exact .ok (.refl s)
  next mrq _ =>
    dsimp only
    split
    · refine .bind (transfer_keepsArrivals j mrq).toNever fun t sent => .ok ?_
      refine ((transfer_keepsArrivals j mrq).result t sent).trans ?_
      rw [DramT.releaseMrq]
      split
      · exact .refl t
      · exact ⟨rfl, rfl, fun _ => rfl⟩
    · exact .ok (.refl s)

theorem issueRowCommand_keepsArrivals (j : Nat) : KeepsArrivals (DramT.issueRowCommand cfg j) := by
  intro s
  rw [DramT.issueRowCommand]
  dsimp only
  split
  · exact .ok (.refl s)
  · split
    · exact .ok ⟨rfl, rfl, fun _ => rfl⟩
    · split
      · exact .ok ⟨rfl, rfl, fun _ => rfl⟩
      · exact .ok (.refl s)

theorem issueFirst_keepsArrivals {issue : Nat → Stage DramT DramEvent DramFault}
    (keeps : ∀ j, KeepsArrivals (issue j)) (banks : List Nat) : KeepsArrivals (DramT.issueFirst cfg issue banks) := by
  induction banks with
  | nil => exact .idle
  | cons i later ih =>
      intro s
      have tried := keeps ((i + s.prio) % cfg.nbk) s
      rw [DramT.issueFirst]
      dsimp only
      split
      next fault failed => exact .error fun same => tried.ne (same ▸ failed)
      next t none =>
        have same := tried.result _ none
        exact ⟨⟨(ih t).ne⟩, fun ended done => same.trans ((ih t).result ended done)⟩
      next issued _ done => exact .ok (tried.result _ done)

theorem unlessIssued_keepsArrivals {command : Stage DramT DramEvent DramFault} (keeps : KeepsArrivals command)
    (issued : Bool) : KeepsArrivals (DramT.unlessIssued issued command) := by
  cases issued with
  | true => exact .idle
  | false => exact keeps

theorem issueSingle_keepsArrivals (banks : List Nat) (col row : Bool) :
    KeepsArrivals (DramT.issueSingle cfg banks col row) := by
  induction banks generalizing col row with
  | nil => exact .idle
  | cons i later ih =>
      intro s
      have columns (j : Nat) := unlessIssued_keepsArrivals (@issueColCommand_keepsArrivals cfg j) col
      have rows (j : Nat) (issued : Bool) := unlessIssued_keepsArrivals (@issueRowCommand_keepsArrivals cfg j) issued
      refine .bind (columns _ s).toNever fun ⟨t, early⟩ one => .bind (rows _ _ t).toNever fun ⟨u, middle⟩ two => ?_
      refine .bind (ih _ _ u).toNever fun ⟨v, late⟩ three => .ok ?_
      exact (((columns _ s).result _ one).trans ((rows _ _ t).result _ two)).trans ((ih _ _ u).result (v, late) three)

theorem issue_keepsArrivals : KeepsArrivals (DramT.issue cfg) := by
  rw [DramT.issue]
  split
  · exact (issueFirst_keepsArrivals issueColCommand_keepsArrivals _).andThen
      (issueFirst_keepsArrivals issueRowCommand_keepsArrivals _)
  · exact issueSingle_keepsArrivals _ _ _

theorem tick_keepsArrivals : KeepsArrivals (DramT.tick cfg) := fun _ => .ok ⟨rfl, rfl, fun _ => rfl⟩

/-! ## The scheduler -/

theorem schedule_never {reqs : Nat → DramReq} {bank currRow : Nat} (sched : FrfcfsScheduler) :
    Never .addReq (sched.schedule cfg reqs bank currRow) := by
  refine .bind ?_ fun found _ => ?_
  · unfold RequestQueues.nextRow
    split
    · exact .ok _
    · split
      · exact .ok _
      · split
        · exact .ok _
        · split
          · exact .ok _
          · exact .error (by simp)
  · split
    · exact .ok _
    · refine .bind ?_ fun taken _ => .bind ?_ fun _ _ => .ok _
      · unfold RequestQueues.takeRow
        split
        · exact .error (by simp)
        · exact .ok _
      · unfold FrfcfsScheduler.uncount
        split <;> split
        · exact .ok _
        · exact .error (by simp)
        · exact .ok _
        · exact .error (by simp)

/-- Scheduling to a bank takes nothing from the requests that arrive. -/
theorem scheduleBank_never (banks : List Nat) (s : DramT) :
    Ensures .addReq (DramT.scheduleBank cfg banks s) fun ended => ended.1.mrqq = s.mrqq := by
  induction banks generalizing s with
  | nil => exact .ok rfl
  | cons i later ih =>
      rw [DramT.scheduleBank]
      dsimp only
      split
      · refine .bind (schedule_never _) fun scheduled _ => ?_
        obtain ⟨req, sched⟩ := scheduled
        dsimp only
        split
        · exact ih _
        · exact .ok rfl
      · exact ih s

theorem schedulerFifo_never : Never .addReq (DramT.schedulerFifo cfg s) := by
  unfold DramT.schedulerFifo
  split
  · exact .ok _
  · split
    · exact .error nofun
    · dsimp only
      split
      · split
        · exact .bind (fifoOp_never _) fun _ _ => .ok _
        · exact .ok _
      · exact .error nofun

theorem addReq_never {reqs : Nat → DramReq} {req : Nat} {sched : FrfcfsScheduler}
    (room : FrfcfsScheduler.Room cfg (reqs req) sched) : Never .addReq (sched.addReq cfg reqs req) := by
  unfold FrfcfsScheduler.Room at room
  unfold FrfcfsScheduler.addReq
  dsimp only
  split at room
  next separate =>
    rw [if_pos separate, if_pos room]
    split
    · exact .ok _
    · exact .error nofun
  next shared =>
    rw [if_neg shared, if_pos room]
    split
    · exact .ok _
    · exact .error nofun

theorem addReq_asserts {reqs : Nat → DramReq} {req : Nat} {sched : FrfcfsScheduler}
    (full : ¬ FrfcfsScheduler.Room cfg (reqs req) sched) : sched.addReq cfg reqs req = .error .addReq := by
  unfold FrfcfsScheduler.Room at full
  unfold FrfcfsScheduler.addReq
  dsimp only
  split at full
  next separate => rw [if_pos separate, if_neg full]
  next shared => rw [if_neg shared, if_neg full]

/-- Under FR-FCFS the queue of arriving requests holds nothing, or one request. -/
structure Arriving (cfg : MemoryConfig) (s : DramT) (arrived : Option Nat) : Prop where
  minLen : s.mrqq.minLen = 0
  maxLen : 0 < s.mrqq.maxLen
  nodes : s.mrqq.nodes = (arrived.map some).toList

theorem Arriving.same {arrived : Option Nat} (arriving : Arriving cfg s arrived) (mrqq : t.mrqq = s.mrqq) :
    Arriving cfg t arrived :=
  ⟨mrqq ▸ arriving.minLen, mrqq ▸ arriving.maxLen, mrqq ▸ arriving.nodes⟩

theorem drain_none (arriving : Arriving cfg s none) : DramT.drainMrqq cfg s.mrqq.length s = .ok (s, []) := by
  have nodes : s.mrqq.nodes = [] := arriving.nodes
  rw [FifoPipeline.length, nodes]
  rfl

theorem drain_some {r : Nat} (arriving : Arriving cfg s (some r)) : DramT.drainMrqq cfg s.mrqq.length s = do
    let sched ← s.frfcfsScheduler.addReq cfg s.reqs r
    return ({ s with mrqq := { s.mrqq with nodes := [] }, frfcfsScheduler := sched }, []) := by
  have nodes : s.mrqq.nodes = [some r] := arriving.nodes
  have popped : fifoOp s.mrqq.pop = .ok (some r, { s.mrqq with nodes := [] }) := by
    rw [FifoPipeline.pop_front arriving.minLen nodes]
    rfl
  have filled : s.mrqq.empty = false := by
    unfold FifoPipeline.empty
    rw [nodes]
    rfl
  rw [FifoPipeline.length, nodes]
  simp only [List.length_singleton, DramT.drainMrqq, filled, Bool.false_eq_true, if_false, popped]
  rfl

/-! ## Runs -/

/-- What arrives between two cycles: nothing, or one request for which there is room. -/
def Prepared (cfg : MemoryConfig) (port : Port) : Prop :=
  cfg.schedulerType = .dramFrfcfs → ∃ arrived, Arriving cfg port.dram arrived ∧ arrived.isSome = port.pushed ∧
    ∀ r ∈ arrived, FrfcfsScheduler.Room cfg (port.dram.reqs r) port.dram.frfcfsScheduler

theorem scheduler_prepared {pushed : Bool} (prepared : Prepared cfg ⟨s, pushed⟩) :
    Ensures .addReq (DramT.scheduler cfg s) fun ended => Prepared cfg ⟨ended.1, false⟩ := by
  cases type : cfg.schedulerType with
  | dramFifo =>
    simp only [DramT.scheduler, type]
    exact ⟨schedulerFifo_never, fun _ _ frfcfs => absurd (type.symm.trans frfcfs) nofun⟩
  | dramFrfcfs =>
    simp only [DramT.scheduler, type]
    obtain ⟨arrived, arriving, -, room⟩ := prepared type
    have drained : Ensures .addReq (DramT.drainMrqq cfg s.mrqq.length s) fun ended => Arriving cfg ended.1 none := by
      cases arrived with
      | none =>
          rw [drain_none arriving]
          exact .ok arriving
      | some r =>
          rw [drain_some arriving]
          exact .bind (addReq_never (room r rfl)) fun sched _ => .ok ⟨arriving.minLen, arriving.maxLen, rfl⟩
    refine Stage.ensures_andThen (Q := fun t => Arriving cfg t none) (R := fun t => Prepared cfg ⟨t, false⟩) drained
      fun t empty => ?_
    have scheduled := @scheduleBank_never cfg (List.range cfg.nbk) t
    refine ⟨⟨scheduled.ne⟩, fun ended done _ => ⟨none, empty.same (scheduled.result ended done), rfl, ?_⟩⟩
    simp

theorem SameArrivals.prepared {pushed : Bool} (same : SameArrivals s t) (prepared : Prepared cfg ⟨s, pushed⟩) :
    Prepared cfg ⟨t, pushed⟩ := by
  intro frfcfs
  obtain ⟨arrived, arriving, pushes, room⟩ := prepared frfcfs
  refine ⟨arrived, arriving.same same.mrqq, pushes, fun r member => ?_⟩
  have there := room r member
  unfold FrfcfsScheduler.Room FrfcfsScheduler.separateWrite DramReq.isWrite at there ⊢
  dsimp only at there ⊢
  rwa [same.sched, same.kind]

theorem cycle_prepared (prepared : Prepared cfg port) :
    Ensures .addReq (port.dram.cycle cfg) fun ended => Prepared cfg ⟨ended.1, false⟩ := by
  have keeps {stage : Stage DramT DramEvent DramFault} {pushed : Bool} (keeps : KeepsArrivals stage) (s : DramT)
      (before : Prepared cfg ⟨s, pushed⟩) : Ensures .addReq (stage s) fun ended => Prepared cfg ⟨ended.1, pushed⟩ :=
    ⟨⟨(keeps s).ne⟩, fun ended done => ((keeps s).result ended done).prepared before⟩
  have rest (t : DramT) (issued : Prepared cfg ⟨t, false⟩) : Ensures .addReq
      ((DramT.issue cfg).andThen (Stage.all [DramT.tick cfg]) t) fun ended => Prepared cfg ⟨ended.1, false⟩ :=
    Stage.ensures_andThen (R := fun t => Prepared cfg ⟨t, false⟩) (keeps issue_keepsArrivals t issued) fun u ready =>
      Stage.ensures_andThen (R := fun t => Prepared cfg ⟨t, false⟩) (keeps tick_keepsArrivals u ready)
        fun v ticked => .ok ticked
  exact Stage.ensures_andThen (R := fun t => Prepared cfg ⟨t, false⟩)
    (keeps returnData_keepsArrivals port.dram prepared) fun t returned =>
      Stage.ensures_andThen (R := fun t => Prepared cfg ⟨t, false⟩) (scheduler_prepared returned) rest

/-- A push into the queues of a scheduler of limited size, or of a write for whose own queue there is room. -/
def Admits (cfg : MemoryConfig) (port next : Port) : Prop :=
  port.pushed = false → next.pushed = true → cfg.schedulerType = .dramFrfcfs →
    0 < cfg.gpgpuFrfcfsDramSchedQueueSize ∨
      FrfcfsScheduler.separateWrite cfg (next.dram.reqs port.dram.nextReq) = true ∧
        port.dram.frfcfsScheduler.numWritePending < cfg.gpgpuFrfcfsDramWriteQueueSize

theorem push_arrives {data : MfId} {mf : MemFetch} {row bk : Nat} (prepared : Prepared cfg ⟨s, false⟩)
    (frfcfs : cfg.schedulerType = .dramFrfcfs) (ok : s.push cfg data mf row bk = .ok (t, shown)) :
    Arriving cfg t (some s.nextReq) ∧ t.frfcfsScheduler = s.frfcfsScheduler ∧
      (t.reqs s.nextReq).accessType = mf.accessType := by
  obtain ⟨arrived, arriving, empty, -⟩ := prepared frfcfs
  obtain rfl : arrived = none := by simpa using empty
  have nodes : s.mrqq.nodes = [] := arriving.nodes
  have pushed : fifoOp (s.mrqq.push (some s.nextReq)) = .ok { s.mrqq with nodes := [some s.nextReq] } := by
    have room : s.mrqq.length < s.mrqq.maxLen := by
      rw [FifoPipeline.length, nodes]
      exact arriving.maxLen
    have appended := FifoPipeline.push_append (by rw [nodes]; exact List.not_mem_nil) room s.nextReq
    rw [appended, nodes]
    rfl
  unfold DramT.push at ok
  split at ok
  next =>
    obtain ⟨index, _, ok⟩ := bind_ok.mp ok
    obtain ⟨mrqq, entered, ok⟩ := bind_ok.mp ok
    obtain rfl := Except.ok.inj (pushed.symm.trans entered)
    cases ok
    exact ⟨⟨arriving.minLen, arriving.maxLen, rfl⟩, rfl, by simp⟩
  next => contradiction

/-- A step that pushes only what is admitted for good. -/
def AdmittedStep (cfg : MemoryConfig) (port : Port) (shown : List DramEvent) (next : Port) : Prop :=
  GuardedStep cfg (fun _ => True) port shown next ∧ Admits cfg port next

theorem AdmittedStep.prepared (step : AdmittedStep cfg port shown next) (prepared : Prepared cfg port) :
    Prepared cfg next := by
  obtain ⟨step, admits⟩ := step
  cases step with
  | push data mf row bk guard _ ok =>
      intro frfcfs
      obtain ⟨arriving, same, type⟩ := push_arrives prepared frfcfs ok
      refine ⟨_, arriving, rfl, fun r member => ?_⟩
      obtain rfl := Option.some.inj member
      dsimp only
      rw [same]
      rcases admits rfl rfl frfcfs with limited | ⟨separate, room⟩
      · exact room_of_full type frfcfs limited guard
      · exact (if_pos separate).mpr room
  | returnQueuePop ok =>
      obtain ⟨_, _, ended⟩ := bind_ok.mp ok
      cases ended
      intro frfcfs
      obtain ⟨arrived, arriving, pushes, room⟩ := prepared frfcfs
      exact ⟨arrived, arriving.same rfl, pushes, room⟩
  | cycle ok => exact (cycle_prepared prepared).result _ ok

theorem create_prepared {id : Nat} {start : DramT} (created : DramT.create cfg id = .ok start) :
    Prepared cfg ⟨start, false⟩ := by
  obtain ⟨rwq, _, created⟩ := bind_ok.mp created
  obtain ⟨mrqq, made, created⟩ := bind_ok.mp created
  obtain ⟨returnq, _, created⟩ := bind_ok.mp created
  cases made
  cases created
  exact fun _ => ⟨none, ⟨rfl, Nat.two_pos, rfl⟩, rfl, by simp⟩

/-- A request that is admitted to a queue of size zero stops the controller when it is queued. -/
theorem push_asserts (prepared : Prepared cfg port) (step : GuardedStep cfg (fun _ => True) port shown next)
    (refused : ¬ Admits cfg port next) {ended : DramT × List DramEvent}
    (arrived : next.dram.returnData cfg = .ok ended) : next.dram.cycle cfg = .error .addReq := by
  simp only [Admits, not_forall, not_or] at refused
  obtain ⟨before, after, frfcfs, none, full⟩ := refused
  cases step with
  | @push s t shown data mf row bk guard _ ok =>
      obtain ⟨arriving, same, -⟩ := push_arrives prepared frfcfs ok
      obtain ⟨u, early⟩ := ended
      have kept : SameArrivals _ u := (returnData_keepsArrivals _).result _ arrived
      have no_room : ¬ FrfcfsScheduler.Room cfg (u.reqs s.nextReq) u.frfcfsScheduler := by
        intro room
        unfold FrfcfsScheduler.Room FrfcfsScheduler.separateWrite DramReq.isWrite at room
        rw [kept.kind, kept.sched, same] at room
        split at room
        next separate => exact full ⟨separate, room⟩
        next => exact none (Nat.zero_lt_of_lt room)
      have fails : DramT.scheduler cfg u = .error .addReq := by
        simp only [DramT.scheduler, frfcfs, DramT.schedulerFrfcfs, Stage.andThen]
        rw [drain_some (arriving.same kept.mrqq), addReq_asserts no_room]
        rfl
      exact Stage.andThen_error.mpr (.inr ⟨u, early, arrived, Stage.andThen_error.mpr (.inl fails)⟩)
  | returnQueuePop ok =>
      dsimp only at before after
      exact absurd (before.symm.trans after) (by decide)
  | cycle ok => contradiction

/-- The assertions of `add_req` hold in every run that pushes no more than `Admits` allows, and one fails in the cycle
after the first other push. -/
theorem addReq_asserts_iff {id : Nat} {start : DramT} (created : DramT.create cfg id = .ok start)
    {trace : List DramEvent} (run : Reaches (AdmittedStep cfg) ⟨start, false⟩ trace port) :
    port.dram.cycle cfg ≠ .error .addReq ∧
      ∀ next shown ended, GuardedStep cfg (fun _ => True) port shown next → next.dram.returnData cfg = .ok ended →
        (next.dram.cycle cfg ≠ .error .addReq ↔ Admits cfg port next) := by
  have prepared : Prepared cfg port :=
    run.invariant (create_prepared created) fun _ prepared step => step.prepared prepared
  refine ⟨(cycle_prepared prepared).ne, fun next shown ended step arrived => ⟨fun passes => ?_, fun admits => ?_⟩⟩
  · by_contra refused
    exact passes (push_asserts prepared step refused arrived)
  · exact (cycle_prepared (AdmittedStep.prepared ⟨step, admits⟩ prepared)).ne

/-- A new controller with a queue of the given size, and a request pushed to it. -/
def pushedTo (size : Nat) : Except DramFault (DramT × DramT × List DramEvent) := do
  let cfg := { smallConfig 1 with gpgpuFrfcfsDramSchedQueueSize := size }
  let start ← DramT.create cfg 0
  let (t, shown) ← start.push cfg (.request 0) (smallRequest .globalAccR) 7 1
  return (start, t, shown)

theorem pushedTo_step {size : Nat} {start t : DramT} (ran : pushedTo size = .ok (start, t, shown))
    (guard : start.full { smallConfig 1 with gpgpuFrfcfsDramSchedQueueSize := size } false = false) :
    DramT.create { smallConfig 1 with gpgpuFrfcfsDramSchedQueueSize := size } 0 = .ok start ∧
      GuardedStep { smallConfig 1 with gpgpuFrfcfsDramSchedQueueSize := size } (fun _ => True) ⟨start, false⟩ shown
        ⟨t, true⟩ := by
  obtain ⟨begun, created, ran⟩ := bind_ok.mp ran
  obtain ⟨⟨u, events⟩, pushed, ran⟩ := bind_ok.mp ran
  cases ran
  exact ⟨created, .push (.request 0) (smallRequest .globalAccR) 7 1 guard trivial pushed⟩

theorem addReq_asserts_iff_four : ∃ start t shown ended,
    GuardedStep (smallConfig 1) (fun _ => True) ⟨start, false⟩ shown ⟨t, true⟩ ∧
      DramT.returnData (smallConfig 1) t = .ok ended ∧
      (t.cycle (smallConfig 1) ≠ .error .addReq ↔ Admits (smallConfig 1) ⟨start, false⟩ ⟨t, true⟩) := by
  have shown : (pushedTo 4).bind (fun ended => (DramT.returnData (smallConfig 1) ended.2.1).map fun later =>
      (ended.1.full (smallConfig 1) false, later.2)) = .ok (false, []) := rfl
  obtain ⟨⟨start, t, events⟩, ran, later⟩ := bind_ok.mp shown
  obtain ⟨ended, arrived, values⟩ := map_ok.mp later
  obtain ⟨created, step⟩ := pushedTo_step ran (Prod.mk.inj values).1
  exact ⟨start, t, events, ended, step, arrived, (addReq_asserts_iff created .refl).2 _ _ ended step arrived⟩

/-- A queue of size zero admits a read and then has no room for it. -/
theorem unlimited_queue_asserts : ∃ start t shown,
    DramT.create { smallConfig 1 with gpgpuFrfcfsDramSchedQueueSize := 0 } 0 = .ok start ∧
      GuardedStep { smallConfig 1 with gpgpuFrfcfsDramSchedQueueSize := 0 } (fun _ => True) ⟨start, false⟩ shown
        ⟨t, true⟩ ∧
      t.cycle { smallConfig 1 with gpgpuFrfcfsDramSchedQueueSize := 0 } = .error .addReq := by
  have shown : (pushedTo 0).map (fun ended =>
      (ended.1.full { smallConfig 1 with gpgpuFrfcfsDramSchedQueueSize := 0 } false,
        (ended.2.1.cycle { smallConfig 1 with gpgpuFrfcfsDramSchedQueueSize := 0 }).map fun later => later.2)) =
      .ok (false, .error .addReq) := rfl
  obtain ⟨⟨start, t, events⟩, ran, values⟩ := map_ok.mp shown
  obtain ⟨guard, stopped⟩ := Prod.mk.inj values
  obtain ⟨created, step⟩ := pushedTo_step ran guard
  refine ⟨start, t, events, created, step, ?_⟩
  dsimp only at stopped
  cases cycled : t.cycle { smallConfig 1 with gpgpuFrfcfsDramSchedQueueSize := 0 } with
  | error fault =>
      rw [cycled] at stopped
      exact congrArg _ (Except.error.inj stopped)
  | ok ended =>
      rw [cycled] at stopped
      contradiction

end GpgpuSim.Dram
