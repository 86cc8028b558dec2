import GpgpuSim.Containers.OrderedSet

/-! A PTX function: its instructions, their places in instruction memory and its basic
blocks. An instruction is referred to by its place in `m_instructions`. -/
namespace GpgpuSim.Ptx
open Containers

/-- The opcodes that the analyses look for; a label has none. -/
inductive Opcode
  | braOp
  | retOp
  | exitOp
  | retpOp
  | breakOp
  | breakaddrOp
  | callOp
  | callpOp
  | other
  deriving DecidableEq, Repr

structure PtxInstruction where
  label : Option String
  opcode : Opcode
  hasPred : Bool
  /-- The name of the first operand. -/
  dst : String
  instSize : Nat
  instrMemIndex : Nat
  pc : Nat
  deriving DecidableEq

def PtxInstruction.isLabel (pI : PtxInstruction) : Bool := pI.label.isSome

structure BasicBlock where
  bbId : Nat
  ptxBegin : Option Nat
  ptxEnd : Option Nat
  isEntry : Bool
  isExit : Bool
  deriving DecidableEq, Repr

/-- What stops an analysis: an assertion, a null pointer or an index out of range, and the
bound of the model on the turns of a loop. -/
inductive PtxFault
  | assertion
  | badAccess
  | outOfFuel
  deriving DecidableEq, Repr

/-- The fields that the analyses fill in are tables from the number of a block. -/
structure FunctionInfo where
  instructions : List PtxInstruction
  /-- Null inside an instruction, which has the place of its first byte. -/
  instrMem : Nat → Option Nat
  instrMemSize : Nat
  labels : String → Nat
  basicBlocks : List BasicBlock
  /-- `get_bb`, the block of an instruction. -/
  bb : Nat → Option Nat
  predecessorIds : Nat → OrderedSet Nat
  successorIds : Nat → OrderedSet Nat
  postdominatorIds : Nat → OrderedSet Nat
  dominatorIds : Nat → OrderedSet Nat
  tmpIds : Nat → OrderedSet Nat
  /-- -1 until it is found. -/
  immediatepostdominatorId : Nat → Int
  immediatedominatorId : Nat → Int

namespace FunctionInfo

/-- The number of basic blocks, the exit block included. -/
def size (fn : FunctionInfo) : Nat := fn.basicBlocks.length

/-- Blocks are numbered by their places. -/
def numbered (fn : FunctionInfo) : Bool := decide (fn.basicBlocks.map BasicBlock.bbId = List.range fn.size)

/-- The instruction behind `ptx_begin`; the exit block has none. -/
def beginInst (fn : FunctionInfo) (i : Nat) : Option PtxInstruction := do
  let block ← fn.basicBlocks[i]?
  let place ← block.ptxBegin
  fn.instructions[place]?

def endInst (fn : FunctionInfo) (i : Nat) : Option PtxInstruction := do
  let block ← fn.basicBlocks[i]?
  let place ← block.ptxEnd
  fn.instructions[place]?

/-- One instruction of eight bytes for each block but the exit, and the edges as given. -/
def ofEdges (succs : List (List Nat)) : FunctionInfo where
  instructions := (List.range (succs.length - 1)).map fun i =>
    { label := none
      opcode := if 1 < (succs.getD i []).length then .braOp else .other
      hasPred := decide (1 < (succs.getD i []).length)
      dst := ""
      instSize := 8
      instrMemIndex := 8 * i
      pc := 8 * i }
  instrMem address := if address % 8 = 0 then some (address / 8) else none
  instrMemSize := 8 * succs.length
  labels _ := 0
  basicBlocks := (List.range succs.length).map fun i =>
    { bbId := i
      ptxBegin := if i + 1 < succs.length then some i else none
      ptxEnd := if i + 1 < succs.length then some i else none
      isEntry := decide (i = 0)
      isExit := decide (i + 1 = succs.length) }
  bb := some
  predecessorIds h := OrderedSet.empty.insertAll
    ((List.range succs.length).filter fun p => decide (h ∈ succs.getD p []))
  successorIds h := OrderedSet.empty.insertAll (succs.getD h [])
  postdominatorIds _ := .empty
  dominatorIds _ := .empty
  tmpIds _ := .empty
  immediatepostdominatorId _ := -1
  immediatedominatorId _ := -1

end FunctionInfo

end GpgpuSim.Ptx
