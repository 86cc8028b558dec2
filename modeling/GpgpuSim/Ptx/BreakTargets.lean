import GpgpuSim.Ptx.BasicBlocks
import GpgpuSim.Ptx.DominatorRounds
import Mathlib.Algebra.Group.Nat.Defs

/-! The targets of break instructions: a walk up the dominator tree, and in each block a
search backwards for the instruction that sets the target. -/
namespace GpgpuSim.Ptx
open Containers Graphs Transition

namespace FunctionInfo

/-- The search backwards from `insn_addr`, an unsigned number, to the start of a block; places
inside an instruction are null. -/
def searchBlock (fn : FunctionInfo) (start : Nat) : Nat → Nat → Except PtxFault (Option String)
  | 0, _ => .error .outOfFuel
  | fuel + 1, insnAddr =>
      if insnAddr ≥ start then
        if insnAddr < fn.instrMemSize then
          match fn.instrMem insnAddr with
          | none => fn.searchBlock start fuel ((insnAddr + 2 ^ 32 - 1) % 2 ^ 32)
          | some place =>
              match fn.instructions[place]? with
              | none => .error .badAccess
              | some pI =>
                  if pI.opcode = .breakaddrOp then .ok (some pI.dst)
                  else fn.searchBlock start fuel ((insnAddr + 2 ^ 32 - 1) % 2 ^ 32)
        else .error .badAccess
      else .ok none

/-- Up the dominator tree from block `i`, to the block without an immediate dominator; what
follows the loop is `assert(0)`. -/
def searchDominators (fn : FunctionInfo) (fuel : Nat) : Nat → Nat → Except PtxFault String
  | 0, _ => .error .outOfFuel
  | turns + 1, i =>
      if fn.immediatedominatorId i = -1 then .error .assertion
      else
        match fn.beginInst i, fn.endInst i with
        | some first, some last => do
            match ← fn.searchBlock first.instrMemIndex fuel last.instrMemIndex with
            | some dst => .ok dst
            | none =>
                match fn.immediatedominatorId i with
                | .ofNat d => fn.searchDominators fuel turns d
                | .negSucc _ => .error .badAccess
        | _, _ => .error .badAccess

/-- The operand of the instruction that sets the target of a break instruction. -/
def findBreakTarget (fn : FunctionInfo) (fuel : Nat) (breakInsn : Nat) : Except PtxFault String :=
  match fn.bb breakInsn with
  | some i => fn.searchDominators fuel fuel i
  | none => .error .badAccess

/-! ## What the target should be -/

/-- The instruction at a place of `m_instructions`, not a label. -/
def RealInst (fn : FunctionInfo) (place : Nat) (pI : PtxInstruction) : Prop :=
  fn.instructions[place]? = some pI ∧ pI.isLabel = false

/-- Instruction memory and the blocks as `ptx_assemble` and `create_basic_blocks` lay them
out: an instruction has the place of its first byte, a block the instructions from its first
to its last, and only the entry begins at address zero. -/
structure Layout (fn : FunctionInfo) : Prop where
  memory : ∀ address place, fn.instrMem address = some place ↔
    ∃ pI : PtxInstruction, fn.RealInst place pI ∧ pI.instrMemIndex = address
  unsigned : fn.instrMemSize ≤ 2 ^ 32
  blocks : ∀ i, i + 1 < fn.size → ∃ first last : PtxInstruction, fn.beginInst i = some first ∧
    fn.endInst i = some last ∧ last.instrMemIndex < fn.instrMemSize ∧ (i ≠ 0 → 0 < first.instrMemIndex) ∧
    ∀ place pI, fn.RealInst place pI →
      (fn.bb place = some i ↔ first.instrMemIndex ≤ pI.instrMemIndex ∧ pI.instrMemIndex ≤ last.instrMemIndex)

/-- The immediate dominators of the blocks that the entry reaches. The exit has no successors. -/
structure Idoms (fn : FunctionInfo) : Prop where
  closed : ∀ h < fn.size, ∀ s ∈ fn.successorIds h, s < fn.size
  exit : ∀ s, s ∉ fn.successorIds (fn.size - 1)
  entry : fn.immediatedominatorId 0 = -1
  others : ∀ h < fn.size, h ≠ 0 → Reachable (Neighbour fn.successorIds) 0 h →
    ∃ d : Nat, fn.immediatedominatorId h = d ∧ fn.ImmediatelyDominates d h

/-- A breakaddr instruction of block `k`. -/
def BreakaddrIn (fn : FunctionInfo) (k : Nat) (pI : PtxInstruction) : Prop :=
  ∃ place, fn.RealInst place pI ∧ pI.opcode = .breakaddrOp ∧ fn.bb place = some k

/-- A break instruction, the last of block `h`. -/
structure BreakInsn (fn : FunctionInfo) (h place : Nat) (pI : PtxInstruction) : Prop where
  real : fn.RealInst place pI
  opcode : pI.opcode = .breakOp
  block : fn.bb place = some h
  last : fn.endInst h = some pI

/-- A breakaddr of block `k` that precedes the break of block `h`, if the blocks are the same. -/
def Preceding (fn : FunctionInfo) (h : Nat) (breakInsn : PtxInstruction) (k : Nat) (pI : PtxInstruction) : Prop :=
  fn.BreakaddrIn k pI ∧ (k = h → pI.instrMemIndex < breakInsn.instrMemIndex)

/-- The nearest breakaddr before a break on its dominator chain: the last one of block `k`,
and any other block on the chain with one dominates `k`. -/
structure NearestBreakaddr (fn : FunctionInfo) (h : Nat) (breakInsn : PtxInstruction) (k : Nat)
    (pI : PtxInstruction) : Prop where
  dominates : fn.Dominates k h
  precedes : fn.Preceding h breakInsn k pI
  latest : ∀ other, fn.Preceding h breakInsn k other → other.instrMemIndex ≤ pI.instrMemIndex
  nearest : ∀ k' other, fn.Dominates k' h → fn.Preceding h breakInsn k' other → fn.Dominates k' k

variable {fn : FunctionInfo} {h k d : Nat} {pI : PtxInstruction}

theorem dominates_iff : fn.Dominates d h ↔ OnEveryWalk (fun a b => Neighbour fn.successorIds b a) h 0 d :=
  onEveryWalk_reverse.symm

theorem Dominates.refl (h : Nat) : fn.Dominates h h := fun _ walk => walk.end_mem

theorem Dominates.trans {c : Nat} (first : fn.Dominates d h) (second : fn.Dominates c d) : fn.Dominates c h := by
  rw [dominates_iff] at first second ⊢
  exact first.trans second

theorem Dominates.antisymm (reach : Reachable (Neighbour fn.successorIds) 0 h) (first : fn.Dominates d h)
    (second : fn.Dominates h d) : d = h := by
  rw [dominates_iff] at first second
  exact first.antisymm (reachable_reverse.mpr reach) second

theorem Layout.unique (layout : Layout fn) {place place' : Nat} {pI pI' : PtxInstruction}
    (found : fn.RealInst place pI) (found' : fn.RealInst place' pI')
    (same : pI.instrMemIndex = pI'.instrMemIndex) : place = place' ∧ pI = pI' := by
  have here := (layout.memory pI.instrMemIndex place).mpr ⟨pI, found, rfl⟩
  have here' := (layout.memory pI.instrMemIndex place').mpr ⟨pI', found', same.symm⟩
  obtain rfl := Option.some.inj (here.symm.trans here')
  exact ⟨rfl, Option.some.inj (found.1.symm.trans found'.1)⟩

/-- The breakaddr instructions of a function, wherever they are. -/
def Breakaddr (fn : FunctionInfo) (pI : PtxInstruction) : Prop :=
  ∃ place, fn.RealInst place pI ∧ pI.opcode = .breakaddrOp

/-- What a search returns: the operand of the last breakaddr from `start` to `address`, if
there is one. -/
def Searched (fn : FunctionInfo) (start address : Nat) (result : Except PtxFault (Option String)) : Prop :=
  (∃ pI, fn.Breakaddr pI ∧ start ≤ pI.instrMemIndex ∧ pI.instrMemIndex ≤ address ∧
    (∀ other, fn.Breakaddr other → other.instrMemIndex ≤ address → other.instrMemIndex ≤ pI.instrMemIndex) ∧
    result = .ok (some pI.dst)) ∨
  (∀ other, fn.Breakaddr other → start ≤ other.instrMemIndex → address < other.instrMemIndex) ∧
    result = .ok none

/-- An address without a breakaddr does not count. -/
theorem Searched.skip {start address : Nat} {result : Except PtxFault (Option String)} (positive : 0 < start)
    (from_start : start ≤ address) (missing : ∀ other, fn.Breakaddr other → other.instrMemIndex ≠ address)
    (searched : fn.Searched start (address - 1) result) : fn.Searched start address result := by
  rcases searched with ⟨pI, breakaddr, low, high, last, result⟩ | ⟨nothing, result⟩
  · refine .inl ⟨pI, breakaddr, low, by omega, ?_, result⟩
    intro other breakaddr' high'
    have apart := missing other breakaddr'
    exact last other breakaddr' (by omega)
  · refine .inr ⟨?_, result⟩
    intro other breakaddr' low'
    have apart := missing other breakaddr'
    have beyond := nothing other breakaddr' low'
    omega

theorem searchBlock_spec (layout : Layout fn) {start fuel address : Nat} (positive : 0 < start)
    (inside : address < fn.instrMemSize) (enough : address + 1 - start < fuel) :
    fn.Searched start address (fn.searchBlock start fuel address) := by
  induction fuel generalizing address with
  | zero => omega
  | succ fuel ih =>
      have unsigned := layout.unsigned
      simp only [searchBlock]
      by_cases from_start : address ≥ start
      · rw [if_pos from_start, if_pos inside]
        have previous : (address + 2 ^ 32 - 1) % 2 ^ 32 = address - 1 := by omega
        rw [previous]
        have rest := ih (show address - 1 < fn.instrMemSize by omega) (by omega)
        cases at_address : fn.instrMem address with
        | none =>
            refine rest.skip positive from_start ?_
            rintro other ⟨place, real, -⟩ same
            rw [(layout.memory address place).mpr ⟨other, real, same⟩] at at_address
            cases at_address
        | some place =>
            obtain ⟨pI, real, index⟩ := (layout.memory address place).mp at_address
            simp only [real.1]
            by_cases breakaddr : pI.opcode = .breakaddrOp
            · rw [if_pos breakaddr]
              exact .inl ⟨pI, ⟨place, real, breakaddr⟩, by omega, by omega, fun other _ below => by omega, rfl⟩
            · rw [if_neg breakaddr]
              refine rest.skip positive from_start ?_
              rintro other ⟨place', real', breakaddr'⟩ same
              obtain ⟨-, rfl⟩ := layout.unique real real' (index.trans same.symm)
              exact breakaddr breakaddr'
      · rw [if_neg from_start]
        refine .inr ⟨?_, rfl⟩
        intro other _ low
        omega

/-- The exit dominates no other block. -/
theorem Idoms.not_exit (idoms : Idoms fn) (reach : Reachable (Neighbour fn.successorIds) 0 h)
    (inner : h + 1 < fn.size) (dominates : fn.Dominates d h) : d + 1 < fn.size := by
  obtain ⟨vs, walk⟩ := reach
  have member := dominates vs walk
  obtain ⟨before, after, rfl, rest⟩ := walk.suffix member
  have block : d < fn.size := (walk.among idoms.closed (by omega)).1 d member
  by_contra last
  cases rest with
  | stay => exact last inner
  | step first _ =>
      rw [show d = fn.size - 1 by omega] at first
      exact idoms.exit _ first

/-- The nearest breakaddr as the walk sees it, from a block on the chain on. -/
structure NearestFrom (fn : FunctionInfo) (h k : Nat) (pI : PtxInstruction) : Prop where
  dominates : fn.Dominates k h
  within : fn.BreakaddrIn k pI
  latest : ∀ other, fn.BreakaddrIn k other → other.instrMemIndex ≤ pI.instrMemIndex
  nearest : ∀ k' other, fn.Dominates k' h → fn.BreakaddrIn k' other → fn.Dominates k' k

/-- Every breakaddr of the break's own block precedes it. -/
theorem BreakInsn.preceding (layout : Layout fn) (inner : h + 1 < fn.size) {place : Nat} {breakInsn : PtxInstruction}
    (brk : BreakInsn fn h place breakInsn) (within : fn.BreakaddrIn k pI) : fn.Preceding h breakInsn k pI := by
  refine ⟨within, ?_⟩
  rintro rfl
  obtain ⟨place', real, opcode, block⟩ := within
  obtain ⟨first, last, -, ends, -, -, members⟩ := layout.blocks k inner
  obtain rfl := Option.some.inj (ends.symm.trans brk.last)
  have before := ((members place' pI real).mp block).2
  apply Nat.lt_of_le_of_ne before
  intro same
  obtain ⟨-, rfl⟩ := layout.unique real brk.real same
  have both := opcode.symm.trans brk.opcode
  cases both

/-- The walk up the dominator tree returns the nearest breakaddr's operand, unless that is in
the entry. -/
theorem searchDominators_eq (layout : Layout fn) (idoms : Idoms fn) {vs : List Nat}
    (walk : Walk (Neighbour fn.successorIds) 0 h vs) (inner : h + 1 < fn.size)
    (nearest : NearestFrom fn h k pI) {fuel turns : Nat} (enough : fn.instrMemSize + 1 < fuel)
    (enough_turns : vs.length ≤ turns) :
    fn.searchDominators fuel turns h = if k = 0 then .error .assertion else .ok pI.dst := by
  induction turns generalizing h vs with
  | zero =>
      have some := List.length_pos_of_mem walk.end_mem
      omega
  | succ turns ih =>
      simp only [searchDominators]
      by_cases entry : h = 0
      · subst entry
        have first : k = 0 := by
          have only := nearest.dominates [0] (.stay 0)
          exact List.mem_singleton.mp only
        rw [if_pos idoms.entry, if_pos first]
      · obtain ⟨d, immediate, strictly, others⟩ := idoms.others h (by omega) entry ⟨vs, walk⟩
        have has : fn.immediatedominatorId h ≠ -1 := by
          rw [immediate]
          omega
        obtain ⟨first, last, begins, ends, inside, positive, members⟩ := layout.blocks h inner
        rw [if_neg has]
        simp only [begins, ends]
        have searched := searchBlock_spec layout (positive entry) inside
          (show last.instrMemIndex + 1 - first.instrMemIndex < fuel by omega)
        rcases searched with ⟨found, ⟨place, real, breakaddr⟩, low, high, latest, result⟩ | ⟨nothing, result⟩
        · -- the nearest is in this block, and it is the one found
          have here : fn.BreakaddrIn h found := ⟨place, real, breakaddr, (members place found real).mpr ⟨low, high⟩⟩
          have same : k = h := nearest.dominates.antisymm ⟨vs, walk⟩
            (nearest.nearest h found (Dominates.refl h) here)
          subst same
          obtain ⟨place', real', breakaddr', in_k⟩ := nearest.within
          have inside' := (members place' pI real').mp in_k
          have before := latest pI ⟨place', real', breakaddr'⟩ inside'.2
          have after := nearest.latest found here
          obtain ⟨-, rfl⟩ := layout.unique real real' (Nat.le_antisymm after before)
          rw [result, if_neg entry]
          rfl
        · have elsewhere : k ≠ h := by
            rintro rfl
            obtain ⟨place', real', breakaddr', in_k⟩ := nearest.within
            have inside' := (members place' pI real').mp in_k
            have beyond := nothing pI ⟨place', real', breakaddr'⟩ inside'.1
            omega
          obtain ⟨us, shorter, less⟩ := walk.shorter (strictly.1 vs walk) strictly.2
          have above : NearestFrom fn d k pI := by
            constructor
            · exact others k nearest.dominates elsewhere
            · exact nearest.within
            · exact nearest.latest
            · exact fun k' other dominates has_one =>
                nearest.nearest k' other (Dominates.trans strictly.1 dominates) has_one
          have up := ih shorter (idoms.not_exit ⟨vs, walk⟩ inner strictly.1) above (by omega)
          rw [result, immediate]
          exact up

theorem findBreakTarget_eq (layout : Layout fn) (idoms : Idoms fn) {place : Nat} {breakInsn : PtxInstruction}
    (inner : h + 1 < fn.size) (brk : BreakInsn fn h place breakInsn)
    (reach : Reachable (Neighbour fn.successorIds) 0 h) (nearest : NearestBreakaddr fn h breakInsn k pI) :
    ∃ bound, ∀ fuel, bound < fuel →
      fn.findBreakTarget fuel place = if k = 0 then .error .assertion else .ok pI.dst := by
  obtain ⟨vs, walk⟩ := reach
  have seen : NearestFrom fn h k pI := by
    constructor
    · exact nearest.dominates
    · exact nearest.precedes.1
    · exact fun other within => nearest.latest other (brk.preceding layout inner within)
    · exact fun k' other dominates within => nearest.nearest k' other dominates (brk.preceding layout inner within)
  refine ⟨fn.instrMemSize + 1 + vs.length, ?_⟩
  intro fuel enough
  rw [findBreakTarget, brk.block]
  exact searchDominators_eq layout idoms walk inner seen (by omega) (by omega)

/-- The target of a break is found exactly if the nearest breakaddr is not in the entry
block. -/
theorem findBreakTarget_iff (layout : Layout fn) (idoms : Idoms fn) {place : Nat} {breakInsn : PtxInstruction}
    (inner : h + 1 < fn.size) (brk : BreakInsn fn h place breakInsn)
    (reach : Reachable (Neighbour fn.successorIds) 0 h) (nearest : NearestBreakaddr fn h breakInsn k pI) :
    (∃ bound, ∀ fuel, bound < fuel → fn.findBreakTarget fuel place = .ok pI.dst) ↔ k ≠ 0 := by
  obtain ⟨enough, result⟩ := findBreakTarget_eq layout idoms inner brk reach nearest
  constructor
  · rintro ⟨bound, found⟩ rfl
    have both := (found (bound + enough + 1) (by omega)).symm.trans (result (bound + enough + 1) (by omega))
    cases both
  · intro other
    refine ⟨enough, fun fuel more => ?_⟩
    rw [result fuel more, if_neg other]

/-! ## Straight lines -/

def lineInst (opcodes : List Opcode) (i : Nat) : PtxInstruction :=
  ⟨none, opcodes.getD i .other, false, "target", 8, 8 * i, 8 * i⟩

/-- One block for each instruction, one after the other, and the exit behind them. -/
def line (opcodes : List Opcode) : FunctionInfo where
  instructions := (List.range opcodes.length).map (lineInst opcodes)
  instrMem address := if address % 8 = 0 ∧ address / 8 < opcodes.length then some (address / 8) else none
  instrMemSize := 8 * opcodes.length
  labels _ := 0
  basicBlocks := (List.range (opcodes.length + 1)).map fun i =>
    { bbId := i
      ptxBegin := some i
      ptxEnd := some i
      isEntry := decide (i = 0)
      isExit := decide (i = opcodes.length) }
  bb := some
  predecessorIds h := if h = 0 ∨ opcodes.length < h then .empty else OrderedSet.empty.insert (h - 1)
  successorIds h := if h < opcodes.length then OrderedSet.empty.insert (h + 1) else .empty
  postdominatorIds _ := .empty
  dominatorIds _ := .empty
  tmpIds _ := .empty
  immediatepostdominatorId _ := -1
  immediatedominatorId h := h - 1

variable {opcodes : List Opcode} {place : Nat}

theorem realInst_line : (line opcodes).RealInst place pI ↔
    place < opcodes.length ∧ pI = lineInst opcodes place := by
  by_cases within : place < opcodes.length
  · simp only [RealInst, line, List.getElem?_map, List.getElem?_range within, Option.map_some, Option.some.injEq,
      within, true_and]
    constructor
    · exact fun both => both.1.symm
    · rintro rfl
      exact ⟨rfl, rfl⟩
  · simp [RealInst, line, within]

theorem neighbour_line {a b : Nat} :
    Neighbour (line opcodes).successorIds a b ↔ a < opcodes.length ∧ b = a + 1 := by
  by_cases within : a < opcodes.length <;> simp [Neighbour, line, within]

theorem walk_line {u v : Nat} {vs : List Nat} (walk : Walk (Neighbour (line opcodes).successorIds) u v vs) :
    u ≤ v ∧ ∀ d, d ∈ vs ↔ u ≤ d ∧ d ≤ v := by
  induction walk with
  | stay v =>
      refine ⟨Nat.le_refl v, fun d => ?_⟩
      rw [List.mem_singleton]
      omega
  | step first _ ih =>
      obtain ⟨-, rfl⟩ := neighbour_line.mp first
      refine ⟨by omega, fun d => ?_⟩
      rw [List.mem_cons, ih.2]
      omega

theorem reachable_line (within : h ≤ opcodes.length) : Reachable (Neighbour (line opcodes).successorIds) 0 h := by
  induction h with
  | zero => exact .refl 0
  | succ h ih =>
      obtain ⟨vs, walk⟩ := ih (by omega)
      exact ⟨_, walk.snoc (neighbour_line.mpr ⟨by omega, rfl⟩)⟩

theorem dominates_line (within : h ≤ opcodes.length) : (line opcodes).Dominates d h ↔ d ≤ h := by
  constructor
  · intro dominates
    obtain ⟨vs, walk⟩ := reachable_line within
    exact (((walk_line walk).2 d).mp (dominates vs walk)).2
  · intro before vs walk
    exact ((walk_line walk).2 d).mpr ⟨Nat.zero_le d, before⟩

theorem size_line : (line opcodes).size = opcodes.length + 1 := by simp [size, line]

theorem idoms_line : Idoms (line opcodes) := by
  constructor
  · intro h _ s edge
    obtain ⟨within, rfl⟩ := neighbour_line.mp edge
    rw [size_line]
    omega
  · intro s edge
    obtain ⟨within, -⟩ := neighbour_line.mp edge
    rw [size_line] at within
    omega
  · rfl
  · intro h within other _
    rw [size_line] at within
    refine ⟨h - 1, by simp only [line]; omega, ⟨?_, by omega⟩, ?_⟩
    · exact (dominates_line (by omega)).mpr (by omega)
    · intro c dominates apart
      rw [dominates_line (by omega)] at dominates ⊢
      omega

theorem block_line {i : Nat} (within : i < opcodes.length) : (line opcodes).basicBlocks[i]? =
    some ⟨i, some i, some i, decide (i = 0), decide (i = opcodes.length)⟩ := by
  simp [line, List.getElem?_range (Nat.lt_succ_of_lt within)]

theorem endInst_line (within : h < opcodes.length) : (line opcodes).endInst h = some (lineInst opcodes h) := by
  have at_h := (realInst_line.mpr ⟨within, rfl⟩).1
  simp [endInst, block_line within, at_h]

theorem layout_line (small : 8 * opcodes.length ≤ 2 ^ 32) : Layout (line opcodes) := by
  constructor
  · intro address place
    simp only [realInst_line]
    by_cases held : address % 8 = 0 ∧ address / 8 < opcodes.length
    · simp only [line, if_pos held, Option.some.injEq]
      constructor
      · rintro rfl
        exact ⟨_, ⟨held.2, rfl⟩, by simp only [lineInst]; omega⟩
      · rintro ⟨_, ⟨within, rfl⟩, same⟩
        simp only [lineInst] at same
        omega
    · simp only [line, if_neg held]
      constructor
      · rintro ⟨⟩
      · rintro ⟨_, ⟨within, rfl⟩, same⟩
        simp only [lineInst] at same
        omega
  · exact small
  · intro i inner
    rw [size_line] at inner
    have within : i < opcodes.length := by omega
    have at_i := (realInst_line.mpr ⟨within, rfl⟩).1
    refine ⟨lineInst opcodes i, lineInst opcodes i, ?_, endInst_line within, ?_, ?_, ?_⟩
    · simp [beginInst, block_line within, at_i]
    · simp only [line, lineInst]
      omega
    · simp only [lineInst]
      omega
    · intro place pI real
      obtain ⟨inside, rfl⟩ := realInst_line.mp real
      simp only [line, lineInst, Option.some.injEq]
      omega

theorem breakInsn_line (within : h < opcodes.length) (brk : opcodes.getD h .other = .breakOp) :
    BreakInsn (line opcodes) h h (lineInst opcodes h) where
  real := realInst_line.mpr ⟨within, rfl⟩
  opcode := brk
  block := rfl
  last := endInst_line within

/-- On a straight line the last breakaddr before the break is the nearest. -/
theorem nearest_line (within : h < opcodes.length) (before : k < h) (breakaddr : opcodes.getD k .other = .breakaddrOp)
    (between : ∀ j, k < j → j < h → opcodes.getD j .other ≠ .breakaddrOp) :
    NearestBreakaddr (line opcodes) h (lineInst opcodes h) k (lineInst opcodes k) := by
  constructor
  · exact (dominates_line (by omega)).mpr (by omega)
  · exact ⟨⟨k, realInst_line.mpr ⟨by omega, rfl⟩, breakaddr, rfl⟩, by omega⟩
  · rintro other ⟨⟨place, real, -, block⟩, -⟩
    obtain ⟨-, rfl⟩ := realInst_line.mp real
    obtain rfl : place = k := Option.some.inj block
    exact Nat.le_refl _
  · rintro k' other dominates ⟨⟨place, real, opcode, block⟩, precedes⟩
    obtain ⟨-, rfl⟩ := realInst_line.mp real
    obtain rfl : place = k' := Option.some.inj block
    rw [dominates_line (by omega)] at dominates ⊢
    by_contra late
    refine between place (by omega) ?_ opcode
    by_contra last
    have earlier := precedes (by omega)
    simp only [lineInst] at earlier
    omega

theorem findBreakTarget_iff_line :
    ∃ bound, ∀ fuel, bound < fuel →
      (line [.other, .breakaddrOp, .breakOp]).findBreakTarget fuel 2 = .ok "target" := by
  have nearest := @nearest_line 2 1 [.other, .breakaddrOp, .breakOp] (by decide) (by decide) rfl (by omega)
  exact (findBreakTarget_iff (layout_line (by decide)) idoms_line (by decide) (breakInsn_line (by decide) rfl)
    (reachable_line (by decide)) nearest).mpr (by decide)

/-- The breakaddr is in the entry block, at which the walk stops: the assertion behind the
loop fails. -/
theorem breakaddr_in_entry_fails :
    Layout (line [.breakaddrOp, .breakOp]) ∧ Idoms (line [.breakaddrOp, .breakOp]) ∧
      BreakInsn (line [.breakaddrOp, .breakOp]) 1 1 (lineInst [.breakaddrOp, .breakOp] 1) ∧
      NearestBreakaddr (line [.breakaddrOp, .breakOp]) 1 (lineInst [.breakaddrOp, .breakOp] 1) 0
        (lineInst [.breakaddrOp, .breakOp] 0) ∧
      ∃ bound, ∀ fuel, bound < fuel →
        (line [.breakaddrOp, .breakOp]).findBreakTarget fuel 1 = .error .assertion := by
  have layout : Layout (line [.breakaddrOp, .breakOp]) := layout_line (by decide)
  have brk := @breakInsn_line 1 [.breakaddrOp, .breakOp] (by decide) rfl
  have nearest := @nearest_line 1 0 [.breakaddrOp, .breakOp] (by decide) (by decide) rfl (by omega)
  exact ⟨layout, idoms_line, brk, nearest,
    findBreakTarget_eq layout idoms_line (by decide) brk (reachable_line (by decide)) nearest⟩

end FunctionInfo

end GpgpuSim.Ptx
