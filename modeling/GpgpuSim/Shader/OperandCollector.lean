import GpgpuSim.Shader.RegisterBanks
import GpgpuSim.Transition.Outcomes
import Mathlib.Data.Finset.Basic
import Mathlib.Data.List.Range

/-! The operand collector: the collector units, the stages of `step`, and `writeback`. -/
namespace GpgpuSim.Shader
open Transition Containers

def maxRegOperands : Nat := 32

/-- What the operand collector reads of a `warp_inst_t`; `none` in `arch_reg` is -1. -/
structure OperandInst where
  uid : Nat
  warpId : Nat
  schedId : Nat
  src : Nat → Option Nat
  dst : Nat → Option Nat

/-! ## The pipeline registers around it -/

/-- A `register_set`; an empty register holds `none`. -/
abbrev OperandRegs := List (Option OperandInst)

namespace OperandRegs

def hasFree (regs : OperandRegs) : Bool := regs.any Option.isNone

def hasReady (regs : OperandRegs) : Bool := regs.any Option.isSome

/-- `get_ready` from an index on. -/
def readyFrom : OperandRegs → Nat → Option (Nat × OperandInst) → Option (Nat × OperandInst)
  | [], _, ready => ready
  | none :: rest, i, ready => readyFrom rest (i + 1) ready
  | some inst :: rest, i, ready =>
      readyFrom rest (i + 1)
        (if ready.any fun oldest => decide (oldest.2.uid < inst.uid) then ready else some (i, inst))

/-- `get_ready`, with the place of the register. -/
def getReady (regs : OperandRegs) : Option (Nat × OperandInst) := regs.readyFrom 0 none

/-- `move_in`. -/
def moveIn (warp : Option OperandInst) (regs : OperandRegs) : Except OpndFault OperandRegs :=
  match regs.findIdx? Option.isNone with
  | none => .error .assertion
  | some i => .ok (regs.set i warp)

end OperandRegs

/-! ## Collector units -/

structure CollectorUnit where
  free : Bool
  warpId : Nat
  warp : Option OperandInst
  outputRegister : Option Nat
  srcOp : Nat → Option ReadOp
  notReady : Finset Nat

namespace CollectorUnit

/-- `m_warp_id` starts as -1. -/
def initial : CollectorUnit := ⟨true, 2 ^ 32 - 1, none, none, fun _ => none, ∅⟩

def ready (regs : Nat → OperandRegs) (unit : CollectorUnit) : Bool :=
  !unit.free && decide (unit.notReady = ∅) && unit.outputRegister.any fun output => (regs output).hasFree

/-- One operand in the loop of `allocate`. -/
def loadOperand (cfg : RegFileConfig) (c : Nat) (inst : OperandInst) (unit : CollectorUnit) (op : Nat) :
    Except OpndFault CollectorUnit :=
  match inst.src op with
  | none => .ok { unit with srcOp := Function.update unit.srcOp op none }
  | some reg =>
      (cfg.registerBank reg unit.warpId inst.schedId).map fun bank =>
        { unit with
          srcOp := Function.update unit.srcOp op (some ⟨c, op, reg, bank, inst.schedId⟩)
          notReady := insert op unit.notReady }

/-- The last assertion is that of `move_warp`. -/
def allocate (cfg : RegFileConfig) (c output : Nat) (regs : OperandRegs) (unit : CollectorUnit) :
    Except OpndFault (Bool × CollectorUnit × OperandRegs) := do
  if !unit.free ∨ unit.notReady ≠ ∅ then throw .assertion
  let taken := { unit with free := false, outputRegister := some output }
  match regs.getReady with
  | none => return (false, taken, regs)
  | some (i, inst) =>
      let loaded ← (List.range maxRegOperands).foldlM (loadOperand cfg c inst) { taken with warpId := inst.warpId }
      if loaded.warp.isSome then throw .assertion
      return (true, { loaded with warp := some inst }, regs.set i none)

def collectOperand (unit : CollectorUnit) (op : Nat) : CollectorUnit :=
  { unit with notReady := unit.notReady.erase op }

/-- `get_operands`, as `add_read_requests` goes through them. -/
def operands (unit : CollectorUnit) : List ReadOp := (List.range (2 * maxRegOperands)).filterMap unit.srcOp

end CollectorUnit

/-! ### What the operations on units do -/

namespace RegFileConfig

theorem registerBank_fault (cfg : RegFileConfig) (regnum wid schedId : Nat) :
    Ends (cfg.registerBank regnum wid schedId) (fun bank => cfg.registerBank regnum wid schedId = .ok bank)
      (· = .bankOutOfRange) := by
  cases found : cfg.registerBank regnum wid schedId with
  | ok bank => exact rfl
  | error fault =>
      unfold registerBank at found
      dsimp only at found
      split_ifs at found
      all_goals exact (Except.error.inj found).symm

end RegFileConfig

namespace OperandRegs

theorem readyFrom_ne_none {regs : OperandRegs} {i : Nat} {ready : Option (Nat × OperandInst)}
    (some_ready : ready.isSome ∨ regs.hasReady = true) : ∃ found, regs.readyFrom i ready = some found := by
  induction regs generalizing i ready with
  | nil =>
      rcases some_ready with kept | none_ready
      · exact Option.isSome_iff_exists.mp kept
      · cases none_ready
  | cons reg rest ih =>
      cases reg with
      | none => exact ih (by simpa [hasReady] using some_ready)
      | some inst =>
          refine ih (Or.inl ?_)
          split_ifs with older
          · cases ready with
            | none => cases older
            | some kept => rfl
          · rfl

theorem getReady_of_hasReady {regs : OperandRegs} (some_ready : regs.hasReady = true) :
    ∃ found, regs.getReady = some found := readyFrom_ne_none (Or.inr some_ready)

theorem moveIn_ends {regs : OperandRegs} (warp : Option OperandInst) (some_free : regs.hasFree = true) :
    Ends (regs.moveIn warp) (fun _ => True) fun _ => False := by
  have found : (regs.findIdx? Option.isNone).isSome = true := by rwa [List.findIdx?_isSome]
  obtain ⟨i, place⟩ := Option.isSome_iff_exists.mp found
  simp only [moveIn, place]
  trivial

end OperandRegs

namespace CollectorUnit

variable {cfg : RegFileConfig} {c output : Nat} {inst : OperandInst} {unit : CollectorUnit} {regs : OperandRegs}

/-- The operands are the unit's own, each in the bank that is recomputed for it. -/
def Placed (cfg : RegFileConfig) (c : Nat) (unit : CollectorUnit) : Prop :=
  ∀ op r, unit.srcOp op = some r → op < maxRegOperands ∧ r.cu = c ∧ r.operand = op ∧
    cfg.registerBank r.register unit.warpId r.schedId = .ok r.bank

/-- The operands below `count` are loaded, and none of them is ready. -/
structure Loaded (cfg : RegFileConfig) (c count : Nat) (unit : CollectorUnit) : Prop where
  placed : unit.Placed cfg c
  below : ∀ op r, unit.srcOp op = some r → op < count
  waits : ∀ op, op ∈ unit.notReady ↔ ∃ r, unit.srcOp op = some r
  busy : unit.free = false
  empty : unit.warp = none

theorem loadOperand_ends {count : Nat} (inside : count < maxRegOperands) (loaded : unit.Loaded cfg c count) :
    Ends (loadOperand cfg c inst unit count) (Loaded cfg c (count + 1)) (· = .bankOutOfRange) := by
  have fresh : unit.srcOp count = none := by
    cases held : unit.srcOp count with
    | none => rfl
    | some r => exact absurd (loaded.below count r held) (lt_irrefl _)
  unfold loadOperand
  cases inst.src count with
  | none =>
      rw [← fresh, Function.update_eq_self]
      exact { loaded with below := fun op r held => Nat.lt_succ_of_lt (loaded.below op r held) }
  | some reg =>
      refine Ends.map ((cfg.registerBank_fault _ _ _).mono (fun bank found => ?_) fun _ => id)
      constructor
      · intro op r held
        dsimp only at held
        by_cases same : op = count
        · subst same
          rw [Function.update_self] at held
          cases held
          exact ⟨inside, rfl, rfl, found⟩
        · rw [Function.update_of_ne same] at held
          exact loaded.placed op r held
      · intro op r held
        dsimp only at held
        by_cases same : op = count
        · omega
        · rw [Function.update_of_ne same] at held
          exact Nat.lt_succ_of_lt (loaded.below op r held)
      · intro op
        by_cases same : op = count
        · simp [same]
        · simp [same, loaded.waits]
      · exact loaded.busy
      · exact loaded.empty

theorem allocate_ends (is_free : unit.free = true) (cleared : unit.srcOp = fun _ => none) (ready : unit.notReady = ∅)
    (empty : unit.warp = none) (some_ready : regs.hasReady = true) :
    Ends (unit.allocate cfg c output regs)
      (fun ran => ran.1 = true ∧ ran.2.1.Placed cfg c ∧ ran.2.1.free = false ∧
        ∀ op, op ∈ ran.2.1.notReady ↔ ∃ r, ran.2.1.srcOp op = some r) (· = .bankOutOfRange) := by
  obtain ⟨⟨i, inst⟩, found⟩ := OperandRegs.getReady_of_hasReady some_ready
  have start : Loaded cfg c 0
      { unit with free := false, outputRegister := some output, warpId := inst.warpId } := by
    constructor
    · simp [Placed, cleared]
    · simp [cleared]
    · simp [cleared, ready]
    · rfl
    · exact empty
  have checks : ¬ (!unit.free ∨ unit.notReady ≠ ∅) := by simp [is_free, ready]
  simp only [allocate, if_neg checks, found]
  apply (Ends.foldlM_range start fun op inside _ => loadOperand_ends inside).bind
  intro loaded holds
  simp only [holds.empty]
  exact ⟨rfl, holds.placed, holds.busy, holds.waits⟩

/-- What is asked for is what is not yet ready. -/
theorem mem_operands (placed : unit.Placed cfg c) {r : ReadOp} :
    r ∈ unit.operands ↔ r.cu = c ∧ unit.srcOp r.operand = some r := by
  simp only [operands, List.mem_filterMap, List.mem_range]
  constructor
  · rintro ⟨op, -, held⟩
    obtain ⟨-, own, rfl, -⟩ := placed op r held
    exact ⟨own, held⟩
  · rintro ⟨-, held⟩
    obtain ⟨small, -⟩ := placed _ r held
    exact ⟨r.operand, by omega, held⟩

theorem nodup_operands (placed : unit.Placed cfg c) : unit.operands.Nodup := by
  refine List.Nodup.filterMap (fun op other r held again => ?_) List.nodup_range
  obtain ⟨-, -, one, -⟩ := placed op r held
  obtain ⟨-, -, two, -⟩ := placed other r again
  exact one.symm.trans two

end CollectorUnit

/-! ## The register file unit -/

structure OpndCollector where
  arbiter : Arbiter
  cu : Nat → CollectorUnit
  /-- `m_last_cu` of the dispatch units. -/
  lastDispatched : Nat → Nat
  regs : Nat → OperandRegs

/-- A call of the arbiter's `allocate_reads` is seen with its queues before and after, and with each
operand it gives under the bank that is recomputed for it. -/
inductive OpndEvent
  | requested (op : ReadOp)
  | called (before : Arbiter) (granted : List (Nat × ReadOp)) (after : Arbiter)

abbrev OpndStage := Stage OpndCollector OpndEvent OpndFault

namespace OpndCollector

def initial : OpndCollector := ⟨.initial, fun _ => .initial, fun _ => 0, fun _ => []⟩

variable (cfg : RegFileConfig)

/-! ### `dispatch_ready_cu` -/

/-- `find_ready` of a dispatch unit, with the place in its set. -/
def findReady (s : OpndCollector) (units : List Nat) (last : Nat) : Option (Nat × Nat) :=
  (List.range units.length).findSome? fun n =>
    let place := (last + n + 1) % units.length
    (units[place]?).bind fun c => if (s.cu c).ready s.regs then some (place, c) else none

def dispatch (s : OpndCollector) (c : Nat) : Except OpndFault OpndCollector :=
  let unit := s.cu c
  if unit.notReady ≠ ∅ then .error .assertion
  else
    match unit.outputRegister with
    | none => .error .assertion
    | some output =>
        ((s.regs output).moveIn unit.warp).map fun regs =>
          { s with
            cu := Function.update s.cu c
              { unit with free := true, warp := none, outputRegister := none, srcOp := fun _ => none }
            regs := Function.update s.regs output regs }

def dispatchUnit (p : Nat) : OpndStage := fun s =>
  match s.findReady (cfg.cuSets (cfg.dispatchUnits.getD p 0)) (s.lastDispatched p) with
  | none => .ok (s, [])
  | some (place, c) =>
      (dispatch { s with lastDispatched := Function.update s.lastDispatched p place } c).map fun t => (t, [])

def dispatchReadyCu : OpndStage := Stage.all ((List.range cfg.dispatchUnits.length).map (dispatchUnit cfg))

/-! ### `allocate_reads` -/

/-- One operand in the first loop: its bank is recomputed and allocated, and `read_ops` takes it. -/
def grantOperand (cu : Nat → CollectorUnit) (state : Arbiter × (Nat → Option ReadOp) × List (Nat × ReadOp))
    (op : ReadOp) : Except OpndFault (Arbiter × (Nat → Option ReadOp) × List (Nat × ReadOp)) := do
  let bank ← cfg.registerBank op.register (cu op.cu).warpId op.schedId
  let arb ← state.1.allocateForRead cfg bank
  return (arb, Function.update state.2.1 bank (some op), state.2.2 ++ [(bank, op)])

def collect (cu : Nat → CollectorUnit) (op : ReadOp) : Nat → CollectorUnit :=
  Function.update cu op.cu ((cu op.cu).collectOperand op.operand)

/-- The map `read_ops` is gone through by ascending bank. -/
def allocateReads : OpndStage := fun s => do
  let (allocated, drained) ← s.arbiter.allocateReads cfg
  let (arbiter, readOps, granted) ← allocated.foldlM (grantOperand cfg s.cu) (drained, fun _ => none, [])
  let cu := ((List.range cfg.numBanks).filterMap readOps).foldl collect s.cu
  return ({ s with arbiter, cu }, [.called s.arbiter granted drained])

/-! ### `allocate_cu` -/

def addReadRequests (s : OpndCollector) (c : Nat) : OpndCollector × List OpndEvent :=
  let ops := (s.cu c).operands
  ({ s with arbiter := ops.foldl .addReadRequest s.arbiter }, ops.map .requested)

/-- The first free unit of each set is tried, until one is allocated. -/
def searchSets (input output : Nat) : List Nat → OpndStage
  | [] => Stage.idle
  | set :: rest => fun s =>
      match (cfg.cuSets set).find? fun c => (s.cu c).free with
      | none => searchSets input output rest s
      | some c => do
          let (allocated, unit, regs) ← (s.cu c).allocate cfg c output (s.regs input)
          let (t, shown) := addReadRequests
            { s with cu := Function.update s.cu c unit, regs := Function.update s.regs input regs } c
          if allocated then return (t, shown)
          let (u, more) ← searchSets input output rest t
          return (u, shown ++ more)

/-- Only the first input that has an instruction is served. -/
def allocateCu (port : InputPort) : OpndStage := fun s =>
  match port.connects.find? fun connect => (s.regs connect.1).hasReady with
  | none => .ok (s, [])
  | some (input, output) => searchSets cfg input output port.cuSets s

/-! ### `step` -/

def processBanks : OpndStage := fun s => .ok ({ s with arbiter := s.arbiter.resetAllocation }, [])

def step : OpndStage :=
  ((dispatchReadyCu cfg).andThen (allocateReads cfg)).andThen
    ((Stage.all (cfg.inPorts.map (allocateCu cfg))).andThen processBanks)

/-! ### `writeback` -/

/-- The written registers from an operand on. A bank that is not idle stops the loop; a bank once allocated
stays so, and its register is not asked for again. -/
def writeRegisters : List Nat → OperandInst → Arbiter → Except OpndFault (Bool × OperandInst × Arbiter)
  | [], inst, arb => .ok (true, inst, arb)
  | op :: rest, inst, arb =>
      match inst.dst op with
      | none => writeRegisters rest inst arb
      | some reg => do
          let bank ← cfg.registerBank reg inst.warpId inst.schedId
          if !arb.bankIdle bank then return (false, inst, arb)
          let arb ← arb.allocateBankForWrite cfg bank
          writeRegisters rest { inst with dst := Function.update inst.dst op none } arb

def writeback (inst : OperandInst) (s : OpndCollector) : Except OpndFault (Bool × OperandInst × OpndCollector) :=
  (writeRegisters cfg (List.range maxRegOperands) inst s.arbiter).map fun (done, inst, arbiter) =>
    (done, inst, { s with arbiter })

end OpndCollector

/-! ## What the grants do -/

namespace OpndCollector

variable {cfg : RegFileConfig} {cu : Nat → CollectorUnit} {arb drained : Arbiter} {c op : Nat}

theorem collect_other (r : ReadOp) : collect cu r c = { cu c with notReady := (collect cu r c).notReady } := by
  unfold collect CollectorUnit.collectOperand
  by_cases same : c = r.cu
  · subst same
    simp
  · simp [Function.update_of_ne same]

theorem mem_collect (r : ReadOp) :
    op ∈ (collect cu r c).notReady ↔ op ∈ (cu c).notReady ∧ ¬(r.cu = c ∧ r.operand = op) := by
  unfold collect CollectorUnit.collectOperand
  by_cases same : c = r.cu
  · subst same
    simp [and_comm, eq_comm]
  · simp [Function.update_of_ne same, Ne.symm same]

theorem collects_other (ops : List ReadOp) :
    ops.foldl collect cu c = { cu c with notReady := (ops.foldl collect cu c).notReady } := by
  induction ops generalizing cu with
  | nil => rfl
  | cons r rest ih =>
      rw [List.foldl_cons, ih, collect_other r]

theorem mem_collects (ops : List ReadOp) :
    op ∈ (ops.foldl collect cu c).notReady ↔ op ∈ (cu c).notReady ∧ ∀ r ∈ ops, ¬(r.cu = c ∧ r.operand = op) := by
  induction ops generalizing cu with
  | nil => simp
  | cons r rest ih =>
      rw [List.foldl_cons, ih, mem_collect, List.forall_mem_cons, and_assoc]

/-- What the first loop has made of its state when the banks below `count` have had their grants. -/
def grantsBelow (arb drained : Arbiter) (count : Nat) : Arbiter × (Nat → Option ReadOp) × List (Nat × ReadOp) :=
  ({ drained with
      allocatedBank := fun b => if b < count ∧ arb.due b ≠ [] then .readAlloc else drained.allocatedBank b },
    fun b => if b < count then (arb.due b).head? else none,
    (List.range count).flatMap fun b => (arb.due b).map fun r => (b, r))

theorem grantOperand_ok {state : Arbiter × (Nat → Option ReadOp) × List (Nat × ReadOp)} {r : ReadOp} {b : Nat}
    (bank : cfg.registerBank r.register (cu r.cu).warpId r.schedId = .ok b) (inside : b < cfg.numBanks)
    (is_free : state.1.allocatedBank b = .noAlloc) :
    grantOperand cfg cu state r =
      .ok ({ state.1 with allocatedBank := Function.update state.1.allocatedBank b .readAlloc },
        Function.update state.2.1 b (some r), state.2.2 ++ [(b, r)]) := by
  have within : ¬ cfg.numBanks ≤ b := by omega
  have free_now : ¬ state.1.allocatedBank b ≠ .noAlloc := not_not.mpr is_free
  refine bind_ok.mpr ⟨b, bank, bind_ok.mpr ⟨_, ?_, rfl⟩⟩
  rw [Arbiter.allocateForRead, if_neg within, if_neg free_now]

/-- The due operands of the banks below `count`, each under the bank that is recomputed for it. -/
theorem grantOperands_ok
    (banks : ∀ b, ∀ r ∈ arb.due b, cfg.registerBank r.register (cu r.cu).warpId r.schedId = .ok b)
    (unread : ∀ b, arb.allocatedBank b ≠ .readAlloc) (same : drained.allocatedBank = arb.allocatedBank) {count : Nat}
    (within : count ≤ cfg.numBanks) :
    ((List.range count).flatMap arb.due).foldlM (grantOperand cfg cu) (drained, fun _ => none, []) =
      .ok (grantsBelow arb drained count) := by
  induction count with
  | zero => simp [grantsBelow, pure, Except.pure]
  | succ count ih =>
      rw [List.range_succ, List.flatMap_append, List.foldlM_append, ih (Nat.le_of_succ_le within),
        List.flatMap_cons, List.flatMap_nil, List.append_nil]
      refine bind_ok.mpr ⟨_, rfl, ?_⟩
      have below : ∀ {b}, b ≠ count → (b < count + 1 ↔ b < count) := by omega
      rcases arb.due_cases count with nothing | ⟨r, -, unwritten, one⟩
      · rw [nothing]
        refine congrArg Except.ok (Prod.ext ?_ (Prod.ext (funext fun b => ?_) ?_))
        · refine congrArg (fun banks => { drained with allocatedBank := banks }) (funext fun b => ?_)
          by_cases last : b = count
          · simp [last, nothing]
          · simp only [below last]
        · by_cases last : b = count
          · simp [grantsBelow, last, nothing]
          · simp only [grantsBelow, below last]
        · simp [grantsBelow, List.range_succ, nothing]
      · have is_free : (grantsBelow arb drained count).1.allocatedBank count = .noAlloc := by
          simp only [grantsBelow, lt_irrefl, false_and, if_false, same]
          cases held : arb.allocatedBank count with
          | noAlloc => rfl
          | readAlloc => exact absurd held (unread count)
          | writeAlloc => exact absurd held unwritten
        rw [one, List.foldlM_cons, grantOperand_ok (banks count r (by simp [one])) within is_free]
        refine congrArg Except.ok (Prod.ext ?_ (Prod.ext (funext fun b => ?_) ?_))
        · refine congrArg (fun banks => { drained with allocatedBank := banks }) (funext fun b => ?_)
          by_cases last : b = count
          · simp [last, one]
          · simp only [grantsBelow, Function.update_of_ne last, below last]
        · by_cases last : b = count
          · simp [grantsBelow, last, one]
          · simp only [grantsBelow, Function.update_of_ne last, below last]
        · simp [grantsBelow, List.range_succ, one]

/-- `read_ops` gives the granted operands. -/
theorem mem_readOps {count : Nat} {r : ReadOp} :
    r ∈ (List.range count).filterMap (grantsBelow arb drained count).2.1 ↔ ∃ b < count, r ∈ arb.due b := by
  simp only [List.mem_filterMap, List.mem_range, grantsBelow]
  constructor
  · rintro ⟨b, below, held⟩
    rw [if_pos below] at held
    exact ⟨b, below, List.mem_of_mem_head? held⟩
  · rintro ⟨b, below, due⟩
    refine ⟨b, below, ?_⟩
    rw [if_pos below]
    rcases arb.due_cases b with nothing | ⟨other, -, -, one⟩
    · rw [nothing] at due
      cases due
    · rw [one] at due ⊢
      rw [List.mem_singleton.mp due]
      rfl

end OpndCollector

end GpgpuSim.Shader
