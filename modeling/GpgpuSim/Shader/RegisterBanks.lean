import GpgpuSim.Containers.Rotation
import GpgpuSim.Transition.Fallible
import Mathlib.Logic.Function.Basic

/-! The banks of the register file and their arbiter: which bank a register is in, and the wavefront
allocator that grants the reads at the heads of the queues. -/
namespace GpgpuSim.Shader
open Transition Containers

inductive OpndFault
  | assertion
  /-- The `assert(bank_num < num_banks)` of `register_bank`. -/
  | bankOutOfRange
  /-- The `assert(is_free())` of `alloc_read`. -/
  | allocRead
  deriving DecidableEq, Repr

/-- `input_port_t`: the pairs of `m_in` and `m_out`, and the sets of collector units it may use. -/
structure InputPort where
  connects : List (Nat × Nat)
  cuSets : List Nat

/-- What `init`, `add_cu_set` and `add_port` set up, with what they assert. The units of a set are given by
their ids, a dispatch unit by its set. -/
structure RegFileConfig where
  numBanks : Nat
  numCollectors : Nat
  bankWarpShift : Nat
  subCoreModel : Bool
  numWarpScheds : Nat
  cuSets : Nat → List Nat
  dispatchUnits : List Nat
  inPorts : List InputPort
  numBanks_pos : 0 < numBanks
  numCollectors_pos : 0 < numCollectors
  schedsDivide : subCoreModel = true → numWarpScheds ∣ numBanks
  known : ∀ set, ∀ c ∈ cuSets set, c < numCollectors

namespace RegFileConfig

def numBanksPerSched (cfg : RegFileConfig) : Nat := cfg.numBanks / cfg.numWarpScheds

def registerBank (cfg : RegFileConfig) (regnum wid schedId : Nat) : Except OpndFault Nat :=
  let bank := if cfg.bankWarpShift ≠ 0 then regnum + wid else regnum
  if cfg.subCoreModel then
    let bankNum := bank % cfg.numBanksPerSched + schedId * cfg.numBanksPerSched
    if bankNum < cfg.numBanks then .ok bankNum else .error .bankOutOfRange
  else .ok (bank % cfg.numBanks)

theorem registerBank_lt {cfg : RegFileConfig} {regnum wid schedId bank : Nat}
    (found : cfg.registerBank regnum wid schedId = .ok bank) : bank < cfg.numBanks := by
  unfold registerBank at found
  dsimp only at found
  split_ifs at found with shift sub small
  all_goals cases found
  all_goals first | assumption | exact Nat.mod_lt _ cfg.numBanks_pos

end RegFileConfig

/-- A valid `op_t` of a collector unit. -/
structure ReadOp where
  cu : Nat
  operand : Nat
  register : Nat
  bank : Nat
  schedId : Nat
  deriving DecidableEq, Repr

/-- `allocation_t`, without the operand that is only printed. -/
inductive Allocation
  | noAlloc
  | readAlloc
  | writeAlloc
  deriving DecidableEq, Repr

/-! ## The wavefront allocator -/

/-- `_inmatch` and `_outmatch`; `none` is -1. -/
structure Wavefront where
  inMatch : Nat → Option Nat
  outMatch : Nat → Option Nat

namespace Wavefront

variable (request : Nat → Nat → Bool) (inputs outputs pri : Nat)

/-- One cell of a diagonal. An output may be granted to several inputs. -/
def visit (state : Wavefront × Nat) (input : Nat) : Wavefront × Nat :=
  let (matched, output) := state
  (if matched.inMatch input = none ∧ request input output then
      ⟨Function.update matched.inMatch input (some output), Function.update matched.outMatch output (some input)⟩
    else matched,
    (output + 1) % outputs)

def diagonal (matched : Wavefront) (p : Nat) : Wavefront :=
  ((List.range inputs).foldl (visit request outputs) (matched, (pri + p) % outputs)).1

def allocate (marked : Nat → Option Nat) : Wavefront :=
  (List.range (max inputs outputs)).foldl (diagonal request inputs outputs pri) ⟨marked, fun _ => none⟩

variable {request : Nat → Nat → Bool} {inputs outputs pri i : Nat} {matched : Wavefront} {marked : Nat → Option Nat}

/-- Input `i` meets the diagonal at output `start + i`. -/
theorem inMatch_visits (start count : Nat) :
    ((List.range count).foldl (visit request outputs) (matched, start % outputs)).2 = (start + count) % outputs ∧
      (((List.range count).foldl (visit request outputs) (matched, start % outputs)).1.inMatch i ≠ none ↔
        matched.inMatch i ≠ none ∨ i < count ∧ request i ((start + i) % outputs) = true) := by
  induction count with
  | zero => simp
  | succ count ih =>
      obtain ⟨output, before⟩ := ih
      rw [List.range_succ, List.foldl_append, List.foldl_cons, List.foldl_nil]
      generalize (List.range count).foldl (visit request outputs) (matched, start % outputs) = state at output before ⊢
      obtain ⟨now, at_output⟩ := state
      dsimp only at output before
      subst output
      constructor
      · simp only [visit, Nat.mod_add_mod, Nat.add_assoc]
      · simp only [visit]
        by_cases here : i = count
        · subst here
          have open_before : now.inMatch i ≠ none ↔ matched.inMatch i ≠ none := by simpa using before
          split_ifs with grant
          · simp [grant.2]
          · rw [open_before]
            constructor
            · exact Or.inl
            · rintro (taken | ⟨-, asked⟩)
              · exact taken
              · by_contra free
                exact grant ⟨not_not.mp fun taken => open_before.mp taken free, asked⟩
        · have later : i < count + 1 ↔ i < count := by omega
          rw [later, ← before]
          split_ifs with grant
          · simp [here]
          · rfl

theorem inMatch_diagonal (p : Nat) (inside : i < inputs) :
    (diagonal request inputs outputs pri matched p).inMatch i ≠ none ↔
      matched.inMatch i ≠ none ∨ request i ((pri + p + i) % outputs) = true := by
  refine (inMatch_visits (pri + p) inputs).2.trans ?_
  simp only [inside, true_and]

theorem inMatch_diagonals (count : Nat) (inside : i < inputs) :
    ((List.range count).foldl (diagonal request inputs outputs pri) ⟨marked, fun _ => none⟩).inMatch i ≠ none ↔
      marked i ≠ none ∨ ∃ p < count, request i ((pri + p + i) % outputs) = true := by
  induction count with
  | zero => simp
  | succ count ih =>
      rw [List.range_succ, List.foldl_append, List.foldl_cons, List.foldl_nil, inMatch_diagonal count inside, ih,
        or_assoc]
      refine or_congr_right ?_
      constructor
      · rintro (⟨p, below, asked⟩ | asked)
        · exact ⟨p, by omega, asked⟩
        · exact ⟨count, by omega, asked⟩
      · rintro ⟨p, below, asked⟩
        rcases Nat.lt_succ_iff_lt_or_eq.mp below with below | rfl
        · exact Or.inl ⟨p, below, asked⟩
        · exact Or.inr asked

/-- Every request of an input is on some diagonal, wherever the first one starts. -/
theorem inMatch_allocate (several : 0 < outputs) (inside : i < inputs) :
    (allocate request inputs outputs pri marked).inMatch i ≠ none ↔
      marked i ≠ none ∨ ∃ j < outputs, request i j = true := by
  refine (inMatch_diagonals (max inputs outputs) inside).trans (or_congr_right ?_)
  constructor
  · rintro ⟨p, -, asked⟩
    exact ⟨_, Nat.mod_lt _ several, asked⟩
  · rintro ⟨j, small, asked⟩
    obtain ⟨p, below, meets⟩ := exists_offset (pri + i) small
    refine ⟨p, lt_of_lt_of_le below (le_max_right _ _), ?_⟩
    have same : pri + p + i = pri + i + p := by omega
    rwa [same, meets]

end Wavefront

/-! ## The arbiter -/

structure Arbiter where
  queue : Nat → List ReadOp
  allocatedBank : Nat → Allocation
  lastCu : Nat

namespace Arbiter

def initial : Arbiter := ⟨fun _ => [], fun _ => .noAlloc, 0⟩

/-- The matrix `_request`: a bank asks for the unit of the operand at the head of its queue. -/
def request (arb : Arbiter) (i j : Nat) : Bool := (arb.queue i).head?.any fun op => op.cu == j

/-- A write gets priority; its mark is also the number of a unit. -/
def marked (arb : Arbiter) (i : Nat) : Option Nat := if arb.allocatedBank i = .writeAlloc then some 0 else none

/-- The assertion that the heads of the queues name collector units. -/
def headsKnown (cfg : RegFileConfig) (arb : Arbiter) : Bool :=
  (List.range cfg.numBanks).all fun i => (arb.queue i).head?.all fun op => decide (op.cu < cfg.numCollectors)

/-- A matched bank that is not written gives its head. -/
def takeHead (arb : Arbiter) (matched : Wavefront) (state : List ReadOp × (Nat → List ReadOp)) (i : Nat) :
    Except OpndFault (List ReadOp × (Nat → List ReadOp)) :=
  if matched.inMatch i ≠ none ∧ arb.allocatedBank i ≠ .writeAlloc then
    match state.2 i with
    | [] => .error .assertion
    | op :: rest => .ok (state.1 ++ [op], Function.update state.2 i rest)
  else .ok state

def allocateReads (cfg : RegFileConfig) (arb : Arbiter) : Except OpndFault (List ReadOp × Arbiter) := do
  if !arb.headsKnown cfg then throw .assertion
  let matched := Wavefront.allocate arb.request cfg.numBanks cfg.numCollectors arb.lastCu arb.marked
  let (result, queue) ← (List.range cfg.numBanks).foldlM (arb.takeHead matched) ([], arb.queue)
  return (result, { arb with queue, lastCu := (arb.lastCu + 1) % cfg.numCollectors })

def bankIdle (arb : Arbiter) (bank : Nat) : Bool := decide (arb.allocatedBank bank = .noAlloc)

def allocateBankForWrite (cfg : RegFileConfig) (arb : Arbiter) (bank : Nat) : Except OpndFault Arbiter :=
  if bank < cfg.numBanks ∧ arb.allocatedBank bank = .noAlloc then
    .ok { arb with allocatedBank := Function.update arb.allocatedBank bank .writeAlloc }
  else .error .assertion

def allocateForRead (cfg : RegFileConfig) (arb : Arbiter) (bank : Nat) : Except OpndFault Arbiter :=
  if cfg.numBanks ≤ bank then .error .assertion
  else if arb.allocatedBank bank ≠ .noAlloc then .error .allocRead
  else .ok { arb with allocatedBank := Function.update arb.allocatedBank bank .readAlloc }

def addReadRequest (arb : Arbiter) (op : ReadOp) : Arbiter :=
  { arb with queue := Function.update arb.queue op.bank (arb.queue op.bank ++ [op]) }

def resetAllocation (arb : Arbiter) : Arbiter := { arb with allocatedBank := fun _ => .noAlloc }

/-- What a call has to take from a bank: the head of its queue, unless the bank is written. -/
def due (arb : Arbiter) (b : Nat) : List ReadOp :=
  if arb.allocatedBank b = .writeAlloc then [] else (arb.queue b).take 1

variable {cfg : RegFileConfig} {arb : Arbiter}

theorem matched_iff (known : arb.headsKnown cfg = true) {i : Nat} (inside : i < cfg.numBanks) :
    (Wavefront.allocate arb.request cfg.numBanks cfg.numCollectors arb.lastCu arb.marked).inMatch i ≠ none ∧
      arb.allocatedBank i ≠ .writeAlloc ↔ arb.due i ≠ [] := by
  rw [Wavefront.inMatch_allocate cfg.numCollectors_pos inside]
  by_cases write : arb.allocatedBank i = .writeAlloc
  · simp [write, due]
  · simp only [marked, write, if_false, ne_eq, not_true_eq_false, false_or, not_false_eq_true, and_true, due]
    cases waiting : arb.queue i with
    | nil => simp [request, waiting]
    | cons op rest =>
        have small := List.all_eq_true.mp known i (List.mem_range.mpr inside)
        simp only [waiting, List.head?_cons, Option.all_some, decide_eq_true_eq] at small
        simp only [List.take_succ_cons, reduceCtorEq, not_false_eq_true, iff_true]
        exact ⟨op.cu, small, by simp [request, waiting]⟩

theorem takeHead_ok {matched : Wavefront} {state : List ReadOp × (Nat → List ReadOp)} {i : Nat}
    (decides : matched.inMatch i ≠ none ∧ arb.allocatedBank i ≠ .writeAlloc ↔ arb.due i ≠ [])
    (untouched : state.2 i = arb.queue i) :
    arb.takeHead matched state i =
      .ok (state.1 ++ arb.due i, Function.update state.2 i ((arb.queue i).drop (arb.due i).length)) := by
  unfold takeHead
  by_cases nothing : arb.due i = []
  · have refused : ¬ (matched.inMatch i ≠ none ∧ arb.allocatedBank i ≠ .writeAlloc) :=
      fun granted => decides.mp granted nothing
    rw [if_neg refused, nothing, List.append_nil, List.length_nil, List.drop_zero, ← untouched, Function.update_eq_self]
  · have granted := decides.mpr nothing
    rw [if_pos granted, untouched]
    cases waiting : arb.queue i with
    | nil => exact absurd (by simp [due, waiting]) nothing
    | cons op rest => simp [due, granted.2, waiting]

/-- After the banks below `count`: their due operands are taken, the other queues are as before. -/
theorem takeHeads_ok (known : arb.headsKnown cfg = true) {count : Nat} (within : count ≤ cfg.numBanks) :
    (List.range count).foldlM
        (arb.takeHead (Wavefront.allocate arb.request cfg.numBanks cfg.numCollectors arb.lastCu arb.marked))
        ([], arb.queue) =
      .ok ((List.range count).flatMap arb.due,
        fun b => if b < count then (arb.queue b).drop (arb.due b).length else arb.queue b) := by
  induction count with
  | zero => rfl
  | succ count ih =>
      rw [List.range_succ, List.foldlM_append, ih (Nat.le_of_succ_le within), List.flatMap_append]
      refine bind_ok.mpr ⟨_, rfl, ?_⟩
      rw [List.foldlM_cons, takeHead_ok (matched_iff known (Nat.lt_of_succ_le within)) (by simp)]
      refine bind_ok.mpr ⟨_, rfl, ?_⟩
      rw [List.foldlM_nil, List.flatMap_cons, List.flatMap_nil, List.append_nil]
      refine congrArg (fun queue => Except.ok (_, queue)) ?_
      funext b
      by_cases same : b = count
      · simp [same]
      · have later : b < count + 1 ↔ b < count := by omega
        simp only [Function.update_of_ne same, later]

/-- A call takes the due operands of the banks, in the order of the banks, and nothing else. -/
theorem allocateReads_ok (known : arb.headsKnown cfg = true) :
    arb.allocateReads cfg = .ok ((List.range cfg.numBanks).flatMap arb.due,
      { arb with
        queue := fun b => if b < cfg.numBanks then (arb.queue b).drop (arb.due b).length else arb.queue b
        lastCu := (arb.lastCu + 1) % cfg.numCollectors }) := by
  simp only [allocateReads, known, Bool.not_true, Bool.false_eq_true, if_false, takeHeads_ok known le_rfl]
  rfl

theorem due_append (b : Nat) : arb.due b ++ (arb.queue b).drop (arb.due b).length = arb.queue b := by
  unfold due
  split_ifs
  · rfl
  · cases arb.queue b <;> rfl

theorem due_cases (arb : Arbiter) (b : Nat) :
    arb.due b = [] ∨ ∃ r, r ∈ arb.queue b ∧ arb.allocatedBank b ≠ .writeAlloc ∧ arb.due b = [r] := by
  unfold due
  split_ifs with write
  · exact Or.inl rfl
  · cases arb.queue b with
    | nil => exact Or.inl rfl
    | cons r rest => exact Or.inr ⟨r, List.mem_cons_self, write, rfl⟩

theorem mem_queue_of_due {arb : Arbiter} {b : Nat} {r : ReadOp} (member : r ∈ arb.due b) : r ∈ arb.queue b := by
  rw [← arb.due_append b]
  exact List.mem_append_left _ member

/-- What a call leaves in a queue. -/
theorem mem_drop_due {arb : Arbiter} {b : Nat} {r : ReadOp} (nodup : (arb.queue b).Nodup) :
    r ∈ (arb.queue b).drop (arb.due b).length ↔ r ∈ arb.queue b ∧ r ∉ arb.due b := by
  have parts := arb.due_append b
  constructor
  · intro later
    refine ⟨List.mem_of_mem_drop later, fun early => ?_⟩
    rw [← parts] at nodup
    exact (List.nodup_append.mp nodup).2.2 r early r later rfl
  · rintro ⟨within, not_due⟩
    rw [← parts] at within
    exact (List.mem_append.mp within).resolve_left not_due

theorem queue_addReadRequests (ops : List ReadOp) (arb : Arbiter) (b : Nat) :
    (ops.foldl addReadRequest arb).queue b = arb.queue b ++ ops.filter fun r => r.bank == b := by
  induction ops generalizing arb with
  | nil => simp
  | cons r rest ih =>
      rw [List.foldl_cons, ih]
      by_cases same : r.bank = b
      · simp [addReadRequest, same]
      · simp [addReadRequest, same, Function.update_of_ne (Ne.symm same)]

end Arbiter

end GpgpuSim.Shader
