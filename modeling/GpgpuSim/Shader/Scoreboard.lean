import GpgpuSim.Shader.FunctionUnits
import GpgpuSim.Shader.LoadStoreUnit
import GpgpuSim.Containers.OrderedSet
import GpgpuSim.Transition.Runs

/-! The scoreboard of a shader core: which registers of a warp await a write, and which of those a long
operation will write. Its runs issue instructions past `checkCollision` and release each output once, by
one of the two release routines. -/
namespace GpgpuSim.Shader
open Transition Containers

/-- What the scoreboard reads of an instruction; register 0 stands for no register. -/
structure IssuedInst extends WarpInst where
  op : UarchOp
  inn : List Nat
  pred : Nat
  ar1 : Nat
  ar2 : Nat
  deriving DecidableEq, Repr

namespace IssuedInst

def isLoad (inst : IssuedInst) : Bool :=
  inst.op == .loadOp || inst.op == .tensorCoreLoadOp || inst.memoryOp == .memoryLoad

/-- The loads whose outputs `reserveRegisters` marks as long operations. -/
def isLongLoad (inst : IssuedInst) : Bool :=
  inst.isLoad &&
    match inst.space with
    | .globalSpace | .localSpace | .paramSpaceKernel | .paramSpaceLocal | .paramSpaceUnclassified
    | .texSpace => true
    | _ => false

/-- `pre_decode` counts the entries that name a register, wherever they stand. -/
def outcount (inst : IssuedInst) : Nat := inst.out.countP fun reg => decide (0 < reg)

def incount (inst : IssuedInst) : Nat := inst.inn.countP fun reg => decide (0 < reg)

end IssuedInst

structure Scoreboard where
  regTable : Nat → OrderedSet Nat
  longopregs : Nat → OrderedSet Nat

inductive ScoreboardFault
  | abort
  deriving DecidableEq, Repr

namespace Scoreboard

def initial : Scoreboard := ⟨fun _ => .empty, fun _ => .empty⟩

def reserveRegister (board : Scoreboard) (wid regnum : Nat) : Except ScoreboardFault Scoreboard :=
  if regnum ∈ board.regTable wid then .error .abort
  else .ok { board with regTable := Function.update board.regTable wid ((board.regTable wid).insert regnum) }

/-- `releaseRegister` leaves `longopregs` as it is. -/
def releaseRegister (board : Scoreboard) (wid regnum : Nat) : Scoreboard :=
  if regnum ∈ board.regTable wid then
    { board with regTable := Function.update board.regTable wid ((board.regTable wid).erase regnum) }
  else board

def islongop (board : Scoreboard) (warpId regnum : Nat) : Bool := decide (regnum ∈ board.longopregs warpId)

def reserveOutput (wid : Nat) (board : Scoreboard) (reg : Nat) : Except ScoreboardFault Scoreboard :=
  if 0 < reg then board.reserveRegister wid reg else .ok board

def markLong (inst : IssuedInst) (board : Scoreboard) : Scoreboard :=
  if inst.isLongLoad then
    { board with longopregs :=
        Function.update board.longopregs inst.warpId ((board.longopregs inst.warpId).insertAll inst.outputs) }
  else board

def reserveRegisters (board : Scoreboard) (inst : IssuedInst) : Except ScoreboardFault Scoreboard :=
  (inst.out.foldlM (reserveOutput inst.warpId) board).map (markLong inst)

def releaseOutput (wid : Nat) (board : Scoreboard) (reg : Nat) : Scoreboard :=
  if 0 < reg then
    let board := board.releaseRegister wid reg
    { board with longopregs := Function.update board.longopregs wid ((board.longopregs wid).erase reg) }
  else board

def releaseRegisters (board : Scoreboard) (inst : IssuedInst) : Scoreboard :=
  inst.out.foldl (releaseOutput inst.warpId) board

/-- The registers that `checkCollision` looks up. -/
def instRegs (inst : IssuedInst) : OrderedSet Nat :=
  (((OrderedSet.empty.insertAll (inst.out.take inst.outcount)).insertAll (inst.inn.take inst.incount)).insertAll
    ([inst.pred, inst.ar1, inst.ar2].filter fun reg => decide (0 < reg)))

def checkCollision (board : Scoreboard) (wid : Nat) (inst : IssuedInst) : Bool :=
  (instRegs inst).items.any fun reg => decide (reg ∈ board.regTable wid)

def pendingWrites (board : Scoreboard) (wid : Nat) : Bool := !(board.regTable wid).isEmpty

/-! ## What the routines do to the tables -/

variable {board after : Scoreboard} {inst : IssuedInst} {regs : List Nat} {wid w reg r : Nat}

theorem mem_update {table : Nat → OrderedSet Nat} {s : OrderedSet Nat} :
    r ∈ Function.update table wid s w ↔ (w = wid ∧ r ∈ s) ∨ (w ≠ wid ∧ r ∈ table w) := by
  by_cases same : w = wid
  · subst same
    simp
  · simp [same]

theorem reserveOutput_ok (done : reserveOutput wid board reg = .ok after) :
    (0 < reg → reg ∉ board.regTable wid) ∧ after.longopregs = board.longopregs ∧
      ∀ w r, r ∈ after.regTable w ↔ r ∈ board.regTable w ∨ (w = wid ∧ r = reg ∧ 0 < r) := by
  unfold reserveOutput reserveRegister at done
  split_ifs at done with positive taken
  · cases done
    refine ⟨fun _ => taken, rfl, ?_⟩
    intro w r
    simp only [mem_update, OrderedSet.mem_insert]
    by_cases same : w = wid
    · subst same
      constructor
      · rintro (⟨_, rfl | within⟩ | ⟨other, _⟩)
        · exact Or.inr ⟨rfl, rfl, positive⟩
        · exact Or.inl within
        · exact absurd rfl other
      · rintro (within | ⟨_, rfl, _⟩)
        · exact Or.inl ⟨rfl, Or.inr within⟩
        · exact Or.inl ⟨rfl, Or.inl rfl⟩
    · simp [same]
  · cases done
    refine ⟨fun positive' => absurd positive' positive, rfl, ?_⟩
    intro w r
    constructor
    · exact Or.inl
    · rintro (within | ⟨_, rfl, positive'⟩)
      · exact within
      · exact absurd positive' positive

/-- The loop over the outputs reserves those that name a register, none of which was reserved. -/
theorem reserveOutputs_ok (done : regs.foldlM (reserveOutput wid) board = .ok after) :
    (∀ r ∈ regs, 0 < r → r ∉ board.regTable wid) ∧ after.longopregs = board.longopregs ∧
      ∀ w r, r ∈ after.regTable w ↔ r ∈ board.regTable w ∨ (w = wid ∧ r ∈ regs ∧ 0 < r) := by
  induction regs generalizing board with
  | nil =>
      cases done
      simp
  | cons reg rest ih =>
      simp only [List.foldlM_cons] at done
      obtain ⟨next, first, later⟩ := bind_ok.mp done
      obtain ⟨fresh, kept, table⟩ := reserveOutput_ok first
      obtain ⟨freshLater, keptLater, tableLater⟩ := ih later
      refine ⟨?_, keptLater.trans kept, ?_⟩
      · intro r within positive
        rcases List.mem_cons.mp within with rfl | within
        · exact fresh positive
        · exact fun taken => freshLater r within positive ((table wid r).mpr (Or.inl taken))
      · intro w r
        rw [tableLater, table, List.mem_cons]
        constructor
        · rintro ((within | ⟨rfl, rfl, positive⟩) | ⟨rfl, within, positive⟩)
          · exact Or.inl within
          · exact Or.inr ⟨rfl, Or.inl rfl, positive⟩
          · exact Or.inr ⟨rfl, Or.inr within, positive⟩
        · rintro (within | ⟨rfl, rfl | within, positive⟩)
          · exact Or.inl (Or.inl within)
          · exact Or.inl (Or.inr ⟨rfl, rfl, positive⟩)
          · exact Or.inr ⟨rfl, within, positive⟩

theorem reserveOutputs_succeeds (apart : (regs.filter fun reg => decide (0 < reg)).Nodup)
    (fresh : ∀ r ∈ regs, 0 < r → r ∉ board.regTable wid) :
    ∃ after, regs.foldlM (reserveOutput wid) board = .ok after := by
  induction regs generalizing board with
  | nil => exact ⟨board, rfl⟩
  | cons reg rest ih =>
      obtain ⟨next, first⟩ : ∃ next, reserveOutput wid board reg = .ok next := by
        by_cases positive : 0 < reg
        · have free := fresh reg List.mem_cons_self positive
          simp [reserveOutput, reserveRegister, positive, free]
        · simp [reserveOutput, positive]
      obtain ⟨_, _, table⟩ := reserveOutput_ok first
      have tail : (rest.filter fun reg => decide (0 < reg)).Nodup :=
        apart.sublist ((List.sublist_cons_self reg rest).filter _)
      have freshLater : ∀ r ∈ rest, 0 < r → r ∉ next.regTable wid := by
        intro r within positive taken
        rcases (table wid r).mp taken with taken | ⟨_, rfl, _⟩
        · exact fresh r (List.mem_cons_of_mem _ within) positive taken
        · simp only [positive, decide_true, List.filter_cons_of_pos, List.nodup_cons] at apart
          exact apart.1 (List.mem_filter.mpr ⟨within, decide_eq_true positive⟩)
      obtain ⟨after, later⟩ := ih tail freshLater
      refine ⟨after, ?_⟩
      rw [List.foldlM_cons]
      exact bind_ok.mpr ⟨next, first, later⟩

theorem mem_outputs : r ∈ inst.outputs ↔ r ∈ inst.out ∧ 0 < r := by
  simp [WarpInst.outputs]

theorem reserveRegisters_ok (done : board.reserveRegisters inst = .ok after) :
    (∀ r ∈ inst.outputs, r ∉ board.regTable inst.warpId) ∧
      (∀ w r, r ∈ after.regTable w ↔ r ∈ board.regTable w ∨ (w = inst.warpId ∧ r ∈ inst.outputs)) ∧
      ∀ w r, r ∈ after.longopregs w ↔
        r ∈ board.longopregs w ∨ (w = inst.warpId ∧ r ∈ inst.outputs ∧ inst.isLongLoad = true) := by
  obtain ⟨reserved, loop, marked⟩ := map_ok.mp done
  obtain ⟨fresh, kept, table⟩ := reserveOutputs_ok loop
  have sameTable : after.regTable = reserved.regTable := by
    rw [← marked, markLong]
    split_ifs <;> rfl
  refine ⟨?_, ?_, ?_⟩
  · intro r within
    exact fresh r (mem_outputs.mp within).1 (mem_outputs.mp within).2
  · intro w r
    rw [sameTable, table, mem_outputs]
  · intro w r
    rw [← marked, markLong]
    split_ifs with long
    · simp only [mem_update, OrderedSet.mem_insertAll, kept]
      by_cases same : w = inst.warpId
      · subst same
        simp [long, or_comm]
      · simp [same]
    · simp [kept, long]

theorem reserveRegisters_succeeds (apart : inst.outputs.Nodup)
    (fresh : ∀ r ∈ inst.outputs, r ∉ board.regTable inst.warpId) :
    ∃ after, board.reserveRegisters inst = .ok after := by
  obtain ⟨reserved, loop⟩ := @reserveOutputs_succeeds board inst.out inst.warpId apart
    fun r within positive => fresh r (mem_outputs.mpr ⟨within, positive⟩)
  exact ⟨markLong inst reserved, map_ok.mpr ⟨reserved, loop, rfl⟩⟩

@[simp]
theorem longopregs_releaseRegister : (board.releaseRegister wid reg).longopregs = board.longopregs := by
  unfold releaseRegister
  split_ifs <;> rfl

theorem mem_releaseRegister :
    r ∈ (board.releaseRegister wid reg).regTable w ↔ r ∈ board.regTable w ∧ ¬ (w = wid ∧ r = reg) := by
  unfold releaseRegister
  split_ifs with taken
  · simp only [mem_update, OrderedSet.mem_erase]
    by_cases same : w = wid
    · subst same
      simp
    · simp [same]
  · constructor
    · intro within
      refine ⟨within, ?_⟩
      rintro ⟨rfl, rfl⟩
      exact taken within
    · exact And.left

/-- The loop over the outputs clears both tables of those that name a register. -/
theorem mem_releaseOutputs :
    (r ∈ (regs.foldl (releaseOutput wid) board).regTable w ↔
      r ∈ board.regTable w ∧ ¬ (w = wid ∧ r ∈ regs ∧ 0 < r)) ∧
    (r ∈ (regs.foldl (releaseOutput wid) board).longopregs w ↔
      r ∈ board.longopregs w ∧ ¬ (w = wid ∧ r ∈ regs ∧ 0 < r)) := by
  induction regs generalizing board with
  | nil => simp
  | cons reg rest ih =>
      simp only [List.foldl_cons]
      obtain ⟨table, long⟩ := @ih (releaseOutput wid board reg)
      rw [table, long]
      unfold releaseOutput
      split_ifs with positive
      · simp only [mem_releaseRegister, longopregs_releaseRegister, mem_update, OrderedSet.mem_erase, List.mem_cons]
        by_cases same : w = wid
        · subst same
          by_cases this : r = reg
          · subst this
            simp [positive]
          · simp [this]
        · simp [same]
      · have other : (r ∈ reg :: rest ∧ 0 < r) ↔ (r ∈ rest ∧ 0 < r) := by
          constructor
          · rintro ⟨within, positive'⟩
            rcases List.mem_cons.mp within with rfl | within
            · exact absurd positive' positive
            · exact ⟨within, positive'⟩
          · rintro ⟨within, positive'⟩
            exact ⟨List.mem_cons_of_mem _ within, positive'⟩
        rw [other]
        exact ⟨Iff.rfl, Iff.rfl⟩

theorem mem_releaseRegisters :
    (r ∈ (board.releaseRegisters inst).regTable w ↔
      r ∈ board.regTable w ∧ ¬ (w = inst.warpId ∧ r ∈ inst.outputs)) ∧
    (r ∈ (board.releaseRegisters inst).longopregs w ↔
      r ∈ board.longopregs w ∧ ¬ (w = inst.warpId ∧ r ∈ inst.outputs)) := by
  rw [mem_outputs]
  exact mem_releaseOutputs

/-- Past `checkCollision`, no register among the first `outcount` entries of `out` is reserved. -/
theorem free_of_checkCollision (clear : board.checkCollision wid inst = false)
    (seen : r ∈ inst.out.take inst.outcount) : r ∉ board.regTable wid := by
  have within : r ∈ instRegs inst := by
    simp [instRegs, seen]
  have free := List.any_eq_false.mp clear r within
  simpa using free

end Scoreboard

end GpgpuSim.Shader
