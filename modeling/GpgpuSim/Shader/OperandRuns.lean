import GpgpuSim.Shader.OperandCollector
import GpgpuSim.Transition.Runs

/-! Runs of the operand collector with write-backs in between. The queues hold the operands that the
collector units still wait for, so the grants of a bank are its requests in their order. -/
namespace GpgpuSim.Shader
open Transition Containers

namespace OpndEvent

/-- The requests that go to bank `b`. -/
def requestedOf (b : Nat) : OpndEvent → List ReadOp
  | requested r => if r.bank = b then [r] else []
  | called .. => []

/-- The operands that are granted with `b` as their recomputed bank. -/
def grantedOf (b : Nat) : OpndEvent → List ReadOp
  | requested _ => []
  | called _ granted _ => (granted.filter fun grant => grant.1 == b).map Prod.snd

/-- A call takes from each bank what is due, which is the head of its queue unless the bank is written.
The bank recomputed for an operand is the one it was taken from. -/
def Exact (cfg : RegFileConfig) : OpndEvent → Prop
  | requested _ => True
  | called before granted after =>
      granted = ((List.range cfg.numBanks).flatMap fun b => (before.due b).map fun r => (b, r)) ∧
        ∀ b, before.queue b = before.due b ++ after.queue b

end OpndEvent

/-- The operands asked of bank `b`, and those it gave. -/
def requestsTo (b : Nat) (trace : List OpndEvent) : List ReadOp := trace.flatMap (OpndEvent.requestedOf b)

def grantsFrom (b : Nat) (trace : List OpndEvent) : List ReadOp := trace.flatMap (OpndEvent.grantedOf b)

/-- A cycle, a write-back, or what the other stages of the core do to the pipeline registers. -/
def opndStep (cfg : RegFileConfig) (s : OpndCollector) (shown : List OpndEvent) (t : OpndCollector) : Prop :=
  s.step cfg = .ok (t, shown) ∨
    shown = [] ∧ ((∃ inst done left, s.writeback cfg inst = .ok (done, left, t)) ∨ ∃ regs, t = { s with regs })

abbrev OpndRun (cfg : RegFileConfig) := Reaches (opndStep cfg) OpndCollector.initial

/-! ## The invariant -/

/-- The queue of a bank holds, once each, the operands in it that their units wait for. -/
structure Waiting (cfg : RegFileConfig) (queue : Nat → List ReadOp) (cu : Nat → CollectorUnit) : Prop where
  placed : ∀ c, (cu c).Placed cfg c
  queued : ∀ b r, r ∈ queue b ↔ r.bank = b ∧ r.cu < cfg.numCollectors ∧ (cu r.cu).srcOp r.operand = some r ∧
    r.operand ∈ (cu r.cu).notReady
  nodup : ∀ b, (queue b).Nodup
  held : ∀ c, ∀ op ∈ (cu c).notReady, c < cfg.numCollectors ∧ ∃ r, (cu c).srcOp op = some r
  idle : ∀ c, (cu c).free = true → (cu c).srcOp = (fun _ => none) ∧ (cu c).warp = none

structure Observed (cfg : RegFileConfig) (trace : List OpndEvent) (s : OpndCollector) : Prop where
  waiting : Waiting cfg s.arbiter.queue s.cu
  served : ∀ b, requestsTo b trace = grantsFrom b trace ++ s.arbiter.queue b
  exact : ∀ e ∈ trace, e.Exact cfg

/-- Between steps no bank is allocated for a read. -/
structure Settled (cfg : RegFileConfig) (trace : List OpndEvent) (s : OpndCollector) : Prop
    extends Observed cfg trace s where
  unread : ∀ b, s.arbiter.allocatedBank b ≠ .readAlloc

namespace Waiting

variable {cfg : RegFileConfig} {queue : Nat → List ReadOp} {cu : Nat → CollectorUnit} {r : ReadOp} {b c : Nat}

theorem initial : Waiting cfg (fun _ => []) fun _ => .initial where
  placed := by simp [CollectorUnit.Placed, CollectorUnit.initial]
  queued := by simp [CollectorUnit.initial]
  nodup := by simp
  held := by simp [CollectorUnit.initial]
  idle := by simp [CollectorUnit.initial]

/-- The bank that is recomputed for a queued operand is that of the queue. -/
theorem bank (waiting : Waiting cfg queue cu) (member : r ∈ queue b) :
    cfg.registerBank r.register (cu r.cu).warpId r.schedId = .ok b := by
  obtain ⟨rfl, -, held, -⟩ := (waiting.queued b r).mp member
  exact (waiting.placed r.cu r.operand r held).2.2.2

theorem bank_lt (waiting : Waiting cfg queue cu) (member : r ∈ queue b) : b < cfg.numBanks :=
  RegFileConfig.registerBank_lt (waiting.bank member)

/-- Two operands of one unit with the same place are the same. -/
theorem unique (waiting : Waiting cfg queue cu) {other : ReadOp} {d : Nat} (one : r ∈ queue b) (two : other ∈ queue d)
    (unit : other.cu = r.cu) (operand : other.operand = r.operand) : other = r ∧ d = b := by
  obtain ⟨rfl, -, first, -⟩ := (waiting.queued b r).mp one
  obtain ⟨rfl, -, second, -⟩ := (waiting.queued d other).mp two
  rw [unit, operand, first] at second
  obtain rfl := Option.some.inj second
  exact ⟨rfl, rfl⟩

/-- A unit waits for nothing exactly when none of its operands is in a queue. -/
theorem notReady_eq_empty_iff (waiting : Waiting cfg queue cu) :
    (cu c).notReady = ∅ ↔ ∀ b, ∀ r ∈ queue b, r.cu ≠ c := by
  constructor
  · rintro ready b r member rfl
    have waits := ((waiting.queued b r).mp member).2.2.2
    rw [ready] at waits
    exact absurd waits (Finset.notMem_empty _)
  · intro none_queued
    apply Finset.eq_empty_of_forall_notMem
    intro op waits
    obtain ⟨inside, r, held⟩ := waiting.held c op waits
    obtain ⟨-, rfl, rfl, -⟩ := waiting.placed c op r held
    exact none_queued r.bank r ((waiting.queued _ r).mpr ⟨rfl, inside, held, waits⟩) rfl

theorem ready_of_free (waiting : Waiting cfg queue cu) (free : (cu c).free = true) : (cu c).notReady = ∅ := by
  apply Finset.eq_empty_of_forall_notMem
  intro op waits
  obtain ⟨-, r, held⟩ := waiting.held c op waits
  rw [(waiting.idle c free).1] at held
  cases held

/-- A unit that waits for nothing gives up its instruction. -/
theorem dispatch (waiting : Waiting cfg queue cu) (ready : (cu c).notReady = ∅) :
    Waiting cfg queue (Function.update cu c
      { cu c with free := true, warp := none, outputRegister := none, srcOp := fun _ => none }) := by
  have away := waiting.notReady_eq_empty_iff.mp ready
  constructor
  · intro d
    by_cases same : d = c
    · subst same
      simp [CollectorUnit.Placed]
    · rw [Function.update_of_ne same]
      exact waiting.placed d
  · intro b r
    by_cases same : r.cu = c
    · subst same
      have absent : r ∉ queue b := fun member => away b r member rfl
      simp [absent]
    · rw [Function.update_of_ne same]
      exact waiting.queued b r
  · exact waiting.nodup
  · intro d op waits
    by_cases same : d = c
    · subst same
      rw [Function.update_self, ready] at waits
      exact absurd waits (Finset.notMem_empty _)
    · rw [Function.update_of_ne same] at waits ⊢
      exact waiting.held d op waits
  · intro d free
    by_cases same : d = c
    · subst same
      simp
    · rw [Function.update_of_ne same] at free ⊢
      exact waiting.idle d free

/-- A free unit takes an instruction, and its operands are put into the queues. -/
theorem allocate (waiting : Waiting cfg queue cu) (inside : c < cfg.numCollectors) (free : (cu c).free = true)
    {unit : CollectorUnit} (placed : unit.Placed cfg c) (busy : unit.free = false)
    (waits : ∀ op, op ∈ unit.notReady ↔ ∃ r, unit.srcOp op = some r) :
    Waiting cfg (fun b => queue b ++ unit.operands.filter fun r => r.bank == b) (Function.update cu c unit) := by
  have away := waiting.notReady_eq_empty_iff.mp (waiting.ready_of_free free)
  constructor
  · intro d
    by_cases same : d = c
    · subst same
      rwa [Function.update_self]
    · rw [Function.update_of_ne same]
      exact waiting.placed d
  · intro b r
    simp only [List.mem_append, List.mem_filter, CollectorUnit.mem_operands placed, beq_iff_eq]
    by_cases same : r.cu = c
    · subst same
      have absent : r ∉ queue b := fun member => away b r member rfl
      simp only [absent, false_or, Function.update_self, inside, true_and, waits]
      constructor
      · rintro ⟨held, bank⟩
        exact ⟨bank, held, r, held⟩
      · rintro ⟨bank, held, -⟩
        exact ⟨held, bank⟩
    · simp only [same, false_and, or_false, Function.update_of_ne same]
      exact waiting.queued b r
  · intro b
    refine List.nodup_append.mpr ⟨waiting.nodup b, (CollectorUnit.nodup_operands placed).filter _, ?_⟩
    rintro r member other added rfl
    exact away b r member ((CollectorUnit.mem_operands placed).mp (List.mem_filter.mp added).1).1
  · intro d op waits_now
    by_cases same : d = c
    · subst same
      rw [Function.update_self] at waits_now ⊢
      exact ⟨inside, (waits op).mp waits_now⟩
    · rw [Function.update_of_ne same] at waits_now ⊢
      exact waiting.held d op waits_now
  · intro d free_now
    by_cases same : d = c
    · subst same
      rw [Function.update_self, busy] at free_now
      cases free_now
    · rw [Function.update_of_ne same] at free_now ⊢
      exact waiting.idle d free_now

/-- The queues give what is due, and the units no longer wait for it. -/
theorem collect {arb : Arbiter} {cu : Nat → CollectorUnit} (waiting : Waiting cfg arb.queue cu) {ops : List ReadOp}
    (taken : ∀ r, r ∈ ops ↔ ∃ b < cfg.numBanks, r ∈ arb.due b) :
    Waiting cfg (fun b => (arb.queue b).drop (arb.due b).length) (ops.foldl OpndCollector.collect cu) := by
  constructor
  · intro d
    rw [OpndCollector.collects_other]
    exact waiting.placed d
  · intro b r
    rw [Arbiter.mem_drop_due (waiting.nodup b), waiting.queued b r, OpndCollector.mem_collects,
      OpndCollector.collects_other, and_assoc, and_assoc, and_assoc]
    refine and_congr_right fun bank => and_congr_right fun inside => and_congr_right fun held =>
      and_congr_right fun waits => ?_
    have member := (waiting.queued b r).mpr ⟨bank, inside, held, waits⟩
    constructor
    · rintro not_due other granted ⟨unit, operand⟩
      obtain ⟨d, -, due⟩ := (taken other).mp granted
      obtain ⟨rfl, rfl⟩ := waiting.unique member (Arbiter.mem_queue_of_due due) unit operand
      exact not_due due
    · intro left due
      exact left r ((taken r).mpr ⟨b, waiting.bank_lt member, due⟩) ⟨rfl, rfl⟩
  · exact fun b => (waiting.nodup b).sublist (List.drop_sublist _ _)
  · intro d op waits
    rw [OpndCollector.collects_other]
    exact waiting.held d op ((OpndCollector.mem_collects ops).mp waits).1
  · intro d free
    rw [OpndCollector.collects_other] at free ⊢
    exact waiting.idle d free

theorem headsKnown {arb : Arbiter} (waiting : Waiting cfg arb.queue cu) : arb.headsKnown cfg = true := by
  apply List.all_eq_true.mpr
  intro b _
  cases head : (arb.queue b).head? with
  | none => rfl
  | some r => exact decide_eq_true ((waiting.queued b r).mp (List.mem_of_mem_head? head)).2.1

end Waiting

/-! ## The stages -/

namespace OpndCollector

variable {cfg : RegFileConfig} {s : OpndCollector} {trace : List OpndEvent} {c : Nat}

theorem ready_of_findReady {units : List Nat} {last place : Nat} (found : s.findReady units last = some (place, c)) :
    (s.cu c).ready s.regs = true := by
  obtain ⟨n, -, here⟩ := List.exists_of_findSome?_eq_some found
  obtain ⟨d, -, tested⟩ := Option.bind_eq_some_iff.mp here
  split_ifs at tested with ready
  cases tested
  exact ready

theorem dispatch_ends (settled : Settled cfg trace s) (ready : (s.cu c).ready s.regs = true) :
    Ends (s.dispatch c) (Settled cfg trace) fun _ => False := by
  simp only [CollectorUnit.ready, Bool.and_eq_true, decide_eq_true_eq] at ready
  obtain ⟨⟨-, none_waits⟩, some_free⟩ := ready
  cases outputs : (s.cu c).outputRegister with
  | none =>
      rw [outputs] at some_free
      cases some_free
  | some output =>
      rw [outputs] at some_free
      have checked : ¬ (s.cu c).notReady ≠ ∅ := not_not.mpr none_waits
      simp only [dispatch, if_neg checked, outputs]
      refine Ends.map ((OperandRegs.moveIn_ends _ some_free).mono (fun regs _ => ?_) fun _ => id)
      exact { settled with waiting := settled.waiting.dispatch none_waits }

theorem dispatchUnit_ends (p : Nat) (settled : Settled cfg trace s) :
    Ends (dispatchUnit cfg p s) (fun ran => Settled cfg (trace ++ ran.2) ran.1) fun _ => False := by
  unfold dispatchUnit
  cases found : s.findReady (cfg.cuSets (cfg.dispatchUnits.getD p 0)) (s.lastDispatched p) with
  | none => simpa [Ends] using settled
  | some place =>
      have moved : Settled cfg trace { s with lastDispatched := Function.update s.lastDispatched p place.1 } :=
        { settled with }
      refine Ends.map ((dispatch_ends moved (ready_of_findReady found)).mono (fun t kept => ?_) fun _ => id)
      rwa [List.append_nil]

theorem dispatchReadyCu_triple :
    Stage.Triple (Settled cfg) (dispatchReadyCu cfg) (Settled cfg) fun _ => False := by
  apply Stage.Triple.all
  intro stage member
  obtain ⟨p, -, rfl⟩ := List.mem_map.mp member
  exact Stage.triple_iff_ends.mpr fun trace s settled => dispatchUnit_ends p settled

theorem grantedOf_grants (due : Nat → List ReadOp) (b count : Nat) :
    (((List.range count).flatMap fun i => (due i).map fun r => (i, r)).filter fun grant => grant.1 == b).map Prod.snd =
      if b < count then due b else [] := by
  induction count with
  | zero => rfl
  | succ count ih =>
      rw [List.range_succ, List.flatMap_append, List.filter_append, List.map_append, ih, List.flatMap_cons,
        List.flatMap_nil, List.append_nil]
      by_cases same : b = count
      · subst same
        simp [List.filter_map, Function.comp_def]
      · have later : b < count + 1 ↔ b < count := by omega
        have other : ¬ count = b := fun eq => same eq.symm
        simp [later, List.filter_map, Function.comp_def, other]

/-- The grants are those that are due, and no bank is allocated for a second read. -/
theorem allocateReads_ends (settled : Settled cfg trace s) :
    Ends (allocateReads cfg s) (fun ran => Observed cfg (trace ++ ran.2) ran.1) fun _ => False := by
  have waiting := settled.waiting
  have empty : ∀ b, ¬ b < cfg.numBanks → s.arbiter.queue b = [] := fun b outside =>
    List.eq_nil_iff_forall_not_mem.mpr fun r member => outside (waiting.bank_lt member)
  have left : (fun b =>
      if b < cfg.numBanks then (s.arbiter.queue b).drop (s.arbiter.due b).length else s.arbiter.queue b) =
      fun b => (s.arbiter.queue b).drop (s.arbiter.due b).length := by
    funext b
    split_ifs with inside
    · rfl
    · simp [empty b inside]
  have banks : ∀ b, ∀ r ∈ s.arbiter.due b, cfg.registerBank r.register (s.cu r.cu).warpId r.schedId = .ok b :=
    fun b r due => waiting.bank (Arbiter.mem_queue_of_due due)
  have taken := s.arbiter.allocateReads_ok waiting.headsKnown
  rw [left] at taken
  have granted := @grantOperands_ok cfg s.cu s.arbiter
    { s.arbiter with
      queue := fun b => (s.arbiter.queue b).drop (s.arbiter.due b).length
      lastCu := (s.arbiter.lastCu + 1) % cfg.numCollectors }
    banks settled.unread rfl cfg.numBanks le_rfl
  have ran : allocateReads cfg s = .ok _ := bind_ok.mpr ⟨_, taken, bind_ok.mpr ⟨_, granted, rfl⟩⟩
  rw [ran]
  have ordered : ∀ b, s.arbiter.due b = if b < cfg.numBanks then s.arbiter.due b else [] := by
    intro b
    split_ifs with inside
    · rfl
    · simp [Arbiter.due, empty b inside]
  constructor
  · exact waiting.collect fun r => @mem_readOps s.arbiter s.arbiter cfg.numBanks r
  · intro b
    simp only [requestsTo, grantsFrom, List.flatMap_append, List.flatMap_cons, List.flatMap_nil, List.append_nil,
      OpndEvent.requestedOf, OpndEvent.grantedOf, grantedOf_grants, List.append_assoc, ← ordered,
      Arbiter.due_append]
    exact settled.served b
  · intro e member
    rcases List.mem_append.mp member with earlier | now
    · exact settled.exact e earlier
    · obtain rfl := List.mem_singleton.mp now
      exact ⟨rfl, fun b => (s.arbiter.due_append b).symm⟩

theorem requestsTo_append (b : Nat) (early late : List OpndEvent) :
    requestsTo b (early ++ late) = requestsTo b early ++ requestsTo b late := List.flatMap_append

theorem grantsFrom_append (b : Nat) (early late : List OpndEvent) :
    grantsFrom b (early ++ late) = grantsFrom b early ++ grantsFrom b late := List.flatMap_append

theorem requestsTo_requested (ops : List ReadOp) (b : Nat) :
    requestsTo b (ops.map .requested) = ops.filter fun r => r.bank == b := by
  induction ops with
  | nil => rfl
  | cons r rest ih =>
      have tail : requestsTo b ((r :: rest).map .requested) =
          OpndEvent.requestedOf b (.requested r) ++ requestsTo b (rest.map .requested) := rfl
      rw [tail, ih, List.filter_cons]
      by_cases same : r.bank = b
      · simp [OpndEvent.requestedOf, same]
      · simp [OpndEvent.requestedOf, same]

theorem grantsFrom_requested (ops : List ReadOp) (b : Nat) : grantsFrom b (ops.map .requested) = [] := by
  apply List.flatMap_eq_nil_iff.mpr
  intro e member
  obtain ⟨r, -, rfl⟩ := List.mem_map.mp member
  rfl

theorem searchSets_ends {input output : Nat} (some_ready : (s.regs input).hasReady = true) (sets : List Nat)
    (observed : Observed cfg trace s) :
    Ends (searchSets cfg input output sets s) (fun ran => Observed cfg (trace ++ ran.2) ran.1)
      (· = .bankOutOfRange) := by
  induction sets with
  | nil => simpa [searchSets, Stage.idle, Ends] using observed
  | cons set rest ih =>
      unfold searchSets
      cases found : (cfg.cuSets set).find? fun c => (s.cu c).free with
      | none => exact ih
      | some c =>
          have inside := cfg.known set c (List.mem_of_find?_eq_some found)
          have free : (s.cu c).free = true := by simpa using List.find?_some found
          have waiting := observed.waiting
          obtain ⟨cleared, empty⟩ := waiting.idle c free
          refine (CollectorUnit.allocate_ends free cleared (waiting.ready_of_free free) empty some_ready).bind ?_
          rintro ⟨allocated, unit, regs⟩ ⟨rfl, placed, busy, waits⟩
          have queue : ∀ b, (unit.operands.foldl Arbiter.addReadRequest s.arbiter).queue b =
              s.arbiter.queue b ++ unit.operands.filter fun r => r.bank == b :=
            Arbiter.queue_addReadRequests unit.operands s.arbiter
          simp only [addReadRequests, Function.update_self, if_true]
          constructor
          · have kept := waiting.allocate inside free placed busy waits
            rwa [← funext queue] at kept
          · intro b
            rw [requestsTo_append, grantsFrom_append, requestsTo_requested, grantsFrom_requested, List.append_nil,
              observed.served b, queue b, List.append_assoc]
          · intro e member
            rcases List.mem_append.mp member with earlier | now
            · exact observed.exact e earlier
            · obtain ⟨r, -, rfl⟩ := List.mem_map.mp now
              trivial

theorem allocateCu_ends (port : InputPort) (observed : Observed cfg trace s) :
    Ends (allocateCu cfg port s) (fun ran => Observed cfg (trace ++ ran.2) ran.1) (· = .bankOutOfRange) := by
  unfold allocateCu
  cases found : port.connects.find? fun connect => (s.regs connect.1).hasReady with
  | none => simpa [Ends] using observed
  | some connect =>
      have some_ready : (s.regs connect.1).hasReady = true := by simpa using List.find?_some found
      exact searchSets_ends some_ready port.cuSets observed

theorem processBanks_triple : Stage.Triple (Observed cfg) processBanks (Settled cfg) fun _ => False := by
  apply Stage.triple_iff_ends.mpr
  intro trace s observed
  unfold processBanks
  simp only [Ends, List.append_nil]
  exact { observed with unread := fun b => by simp [Arbiter.resetAllocation] }

theorem reads_triple :
    Stage.Triple (Settled cfg) ((dispatchReadyCu cfg).andThen (allocateReads cfg)) (Observed cfg) fun _ => False :=
  dispatchReadyCu_triple.andThen (Stage.triple_iff_ends.mpr fun _ _ settled => allocateReads_ends settled)

theorem step_triple : Stage.Triple (Settled cfg) (step cfg) (Settled cfg) (· = .bankOutOfRange) := by
  have allocates : Stage.Triple (Observed cfg) (Stage.all (cfg.inPorts.map (allocateCu cfg))) (Observed cfg)
      (· = .bankOutOfRange) := by
    apply Stage.Triple.all
    intro stage member
    obtain ⟨port, -, rfl⟩ := List.mem_map.mp member
    exact Stage.triple_iff_ends.mpr fun trace s observed => allocateCu_ends port observed
  refine Stage.Triple.andThen (reads_triple.consequence (fun _ _ => id) (fun _ _ => id) fun _ => False.elim) ?_
  exact allocates.andThen (processBanks_triple.consequence (fun _ _ => id) (fun _ _ => id) fun _ => False.elim)

theorem writeRegisters_ends (ops : List Nat) (inst : OperandInst) (arb : Arbiter)
    (unread : ∀ b, arb.allocatedBank b ≠ .readAlloc) :
    Ends (writeRegisters cfg ops inst arb)
      (fun ran => ran.2.2.queue = arb.queue ∧ ∀ b, ran.2.2.allocatedBank b ≠ .readAlloc) (· = .bankOutOfRange) := by
  induction ops generalizing inst arb with
  | nil => exact ⟨rfl, unread⟩
  | cons op rest ih =>
      unfold writeRegisters
      cases inst.dst op with
      | none => exact ih inst arb unread
      | some reg =>
          apply (cfg.registerBank_fault _ _ _).bind
          intro bank found
          by_cases idle : arb.allocatedBank bank = .noAlloc
          · have inside := RegFileConfig.registerBank_lt found
            simp only [Arbiter.bankIdle, Arbiter.allocateBankForWrite, idle, inside, and_self, if_true, decide_true,
              Bool.not_true, Bool.false_eq_true, if_false]
            apply ih _ { arb with allocatedBank := Function.update arb.allocatedBank bank .writeAlloc }
            intro b
            by_cases same : b = bank
            · simp [same]
            · simpa [Function.update_of_ne same] using unread b
          · simp only [Arbiter.bankIdle, idle]
            exact ⟨rfl, unread⟩

theorem writeback_ends (inst : OperandInst) (settled : Settled cfg trace s) :
    Ends (s.writeback cfg inst) (fun ran => Settled cfg trace ran.2.2) (· = .bankOutOfRange) := by
  refine Ends.map ((writeRegisters_ends _ inst s.arbiter settled.unread).mono (fun ran kept => ?_) fun _ => id)
  obtain ⟨done, left, arb⟩ := ran
  obtain ⟨queue, unread⟩ := kept
  dsimp only at queue
  constructor
  · constructor
    · rw [queue]
      exact settled.waiting
    · rw [queue]
      exact settled.served
    · exact settled.exact
  · exact unread

/-! ## Runs -/

theorem settled_initial : Settled cfg [] .initial where
  waiting := .initial
  served _ := rfl
  exact := by simp
  unread b := by simp [initial, Arbiter.initial]

theorem settled_of_run (run : OpndRun cfg trace s) : Settled cfg trace s := by
  refine run.invariant settled_initial ?_
  rintro trace s shown t - settled (stepped | ⟨rfl, ⟨inst, done, left, wrote⟩ | ⟨regs, rfl⟩⟩)
  · exact (step_triple trace s settled).1 t shown stepped
  · rw [List.append_nil]
    exact (writeback_ends inst settled).result wrote
  · rw [List.append_nil]
    exact { settled with }

end OpndCollector

variable {cfg : RegFileConfig} {trace : List OpndEvent} {s : OpndCollector}

/-- A unit waits for nothing exactly when each of its requests has been granted. -/
theorem notReady_eq_empty_iff_granted (settled : Settled cfg trace s) (c : Nat) :
    (s.cu c).notReady = ∅ ↔
      ∀ b, (requestsTo b trace).filter (fun r => r.cu == c) = (grantsFrom b trace).filter fun r => r.cu == c := by
  rw [settled.waiting.notReady_eq_empty_iff]
  apply forall_congr'
  intro b
  simp [settled.served b, List.filter_append]

/-- In every run of steps and write-backs each call of the arbiter takes the head of every queue whose bank
is not written, and nothing else; the bank recomputed for a grant is the one it came from, and its
allocation for the read does not fail. A bank grants its requests in their order, once each, and what is
missing is in its queue. A unit waits for nothing exactly when all its requests are granted. -/
theorem operandReads_exact (run : OpndRun cfg trace s) :
    (∀ e ∈ trace, e.Exact cfg) ∧
      (∀ b, requestsTo b trace = grantsFrom b trace ++ s.arbiter.queue b) ∧
      (∀ c, (s.cu c).notReady = ∅ ↔ ∀ b,
        (requestsTo b trace).filter (fun r => r.cu == c) = (grantsFrom b trace).filter fun r => r.cu == c) ∧
      (∃ t shown, (OpndCollector.dispatchReadyCu cfg).andThen (OpndCollector.allocateReads cfg) s = .ok (t, shown) ∧
        ∀ e ∈ shown, e.Exact cfg) ∧
      (∀ fault, s.step cfg = .error fault → fault = .bankOutOfRange) ∧
      ∀ inst fault, s.writeback cfg inst = .error fault → fault = .bankOutOfRange := by
  have settled := OpndCollector.settled_of_run run
  refine ⟨settled.exact, settled.served, notReady_eq_empty_iff_granted settled, ?_, ?_, ?_⟩
  · obtain ⟨⟨t, shown⟩, ran, observed⟩ :=
      (Stage.triple_iff_ends.mp OpndCollector.reads_triple trace s settled).exists_ok
    exact ⟨t, shown, ran, fun e member => observed.exact e (List.mem_append_right _ member)⟩
  · exact (OpndCollector.step_triple trace s settled).2
  · exact fun inst _ stopped => (OpndCollector.writeback_ends inst settled).fault stopped

/-- Two banks and two collector units behind one port. -/
def twoBanks : RegFileConfig where
  numBanks := 2
  numCollectors := 2
  bankWarpShift := 5
  subCoreModel := false
  numWarpScheds := 1
  cuSets _ := [0, 1]
  dispatchUnits := [0]
  inPorts := [⟨[(0, 1)], [0]⟩]
  numBanks_pos := Nat.zero_lt_two
  numCollectors_pos := Nat.zero_lt_two
  schedsDivide _ := Nat.one_dvd 2
  known _ _ member := by
    rcases List.mem_pair.mp member with rfl | rfl
    · exact Nat.zero_lt_two
    · exact Nat.one_lt_two

/-- An instruction of warp 1 that reads the registers 2 and 4, which are in bank 1. -/
def sameBankReads : OperandInst where
  uid := 1
  warpId := 1
  schedId := 0
  src op := [2, 4][op]?
  dst _ := none

theorem operandReads_exact_sameBank : ∃ trace s, OpndRun twoBanks trace s ∧
    requestsTo 1 trace = [⟨0, 0, 2, 1, 0⟩, ⟨0, 1, 4, 1, 0⟩] ∧ grantsFrom 1 trace = [⟨0, 0, 2, 1, 0⟩] ∧
    requestsTo 1 trace = grantsFrom 1 trace ++ s.arbiter.queue 1 ∧ (s.cu 0).notReady ≠ ∅ := by
  let start : OpndCollector := { OpndCollector.initial with regs := fun _ => [some sameBankReads] }
  have ran : succeedsWith (((OpndCollector.step twoBanks).andThen (OpndCollector.step twoBanks)) start)
      (fun ended => decide (requestsTo 1 ended.2 = [⟨0, 0, 2, 1, 0⟩, ⟨0, 1, 4, 1, 0⟩] ∧
        grantsFrom 1 ended.2 = [⟨0, 0, 2, 1, 0⟩] ∧ (ended.1.cu 0).notReady ≠ ∅)) = true := by decide +kernel
  obtain ⟨⟨s, shown⟩, done, checked⟩ := exists_of_succeedsWith ran
  obtain ⟨t, early, late, one, two, rfl⟩ := Stage.andThen_ok.mp done
  obtain ⟨requests, grants, waits⟩ := of_decide_eq_true checked
  have filled : opndStep twoBanks .initial [] start := Or.inr ⟨rfl, Or.inr ⟨_, rfl⟩⟩
  have run : OpndRun twoBanks (early ++ late) s := ((Reaches.refl.next filled).next (Or.inl one)).next (Or.inl two)
  exact ⟨_, s, run, requests, grants, (operandReads_exact run).2.1 1, waits⟩

end GpgpuSim.Shader
