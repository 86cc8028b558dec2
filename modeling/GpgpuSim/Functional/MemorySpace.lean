import GpgpuSim.Containers.FlatMemory
import Mathlib.Algebra.Group.Nat.Defs

/-! The memory of the functional simulator: blocks of `BSIZE` bytes in a map, created
when they are first written. Addresses are 32 bits wide and lengths 64. -/
namespace GpgpuSim.Functional
open FlatMemory

inductive MemoryFault
  | thrown (value : Nat)
  | assertion
  | outOfFuel
  deriving DecidableEq, Repr

/-- What a `void *` points to. -/
abbrev Buffer := Nat → UInt8

/-- `mem_storage<BSIZE>`, zeroed by `calloc`. -/
structure MemStorage (bsize : Nat) where
  data : Buffer := fun _ => 0

namespace MemStorage

variable {bsize : Nat}

def write (storage : MemStorage bsize) (offset length : Nat) (data : Buffer) :
    Except MemoryFault (MemStorage bsize) :=
  if offset + length ≤ bsize then .ok { data := copy storage.data offset data length } else .error .assertion

/-- The bytes go to `data + start`. -/
def read (storage : MemStorage bsize) (offset length : Nat) (data : Buffer) (start : Nat) :
    Except MemoryFault Buffer :=
  if offset + length ≤ bsize then .ok (copy data start (shift storage.data offset) length)
  else .error .assertion

end MemStorage

structure MemorySpaceImpl (bsize : Nat) where
  log2BlockSize : Nat
  data : Nat → Option (MemStorage bsize)

/-- The constructor's search for the one bit that is set in `BSIZE`. -/
def log2BlockSize (bsize : Nat) : Except MemoryFault Nat := do
  let found ← (List.range 32).foldlM (fun found n =>
    if bsize.testBit n then
      if found = none then Except.ok (some n) else .error MemoryFault.assertion
    else .ok found) none
  match found with
  | some n => pure n
  | none => throw .assertion

namespace MemorySpaceImpl

variable {bsize : Nat}

/-- `memory_space_impl<BSIZE>::memory_space_impl`. -/
def new (bsize : Nat) : Except MemoryFault (MemorySpaceImpl bsize) := do
  let log2 ← Functional.log2BlockSize bsize
  pure { log2BlockSize := log2, data := fun _ => none }

/-- `m_data[index].write`: `operator[]` creates the block. -/
def writeBlock (space : MemorySpaceImpl bsize) (index offset length : Nat) (data : Buffer) :
    Except MemoryFault (MemorySpaceImpl bsize) := do
  let storage ← ((space.data index).getD {}).write offset length data
  pure { space with data := Function.update space.data index (some storage) }

/-- `tx_bytes`: what is left of the access in the block, in 32-bit arithmetic. -/
def txBytes (bsize offset nbytesRemain : Nat) : Nat :=
  let accessLimit := (offset + nbytesRemain) % 2 ^ 32
  let accessLimit := if accessLimit > bsize then bsize else accessLimit
  (accessLimit + 2 ^ 32 - offset) % 2 ^ 32

/-- The slow route of `write`. -/
def writeBlocks (space : MemorySpaceImpl bsize) (data : Buffer) (currentAddr srcOffset nbytesRemain : Nat) :
    Nat → Except MemoryFault (MemorySpaceImpl bsize)
  | 0 => if nbytesRemain = 0 then .ok space else .error .outOfFuel
  | fuel + 1 =>
      if nbytesRemain = 0 then .ok space
      else do
        let offset := currentAddr &&& (bsize - 1)
        let page := currentAddr >>> space.log2BlockSize
        let tx := txBytes bsize offset nbytesRemain
        let space ← space.writeBlock page offset tx (shift data srcOffset)
        space.writeBlocks data ((currentAddr + tx) % 2 ^ 32) ((srcOffset + tx) % 2 ^ 32)
          ((nbytesRemain + 2 ^ 32 - tx) % 2 ^ 32) fuel

/-- `memory_space_impl<BSIZE>::write` with no watchpoints. The end of the access is a 64-bit
sum, the end of the block a 32-bit product. -/
def write (space : MemorySpaceImpl bsize) (addr length : Nat) (data : Buffer) :
    Except MemoryFault (MemorySpaceImpl bsize) :=
  let index := addr >>> space.log2BlockSize
  if (addr + length) % 2 ^ 64 ≤ (index + 1) * bsize % 2 ^ 32 then
    space.writeBlock index (addr &&& (bsize - 1)) (length % 2 ^ 32) data
  else
    let nbytesRemain := length % 2 ^ 32
    space.writeBlocks data addr 0 nbytesRemain nbytesRemain

/-- `memory_space_impl<BSIZE>::read_single_block`; the bytes go to `data + start`. -/
def readSingleBlock (space : MemorySpaceImpl bsize) (blkIdx addr length : Nat) (data : Buffer) (start : Nat) :
    Except MemoryFault Buffer :=
  if (addr + length) % 2 ^ 64 > (blkIdx + 1) * bsize % 2 ^ 32 then .error (.thrown 1)
  else
    match space.data blkIdx with
    | none => .ok (copy data start (fun _ => 0) length)
    | some storage => storage.read (addr &&& (bsize - 1)) (length % 2 ^ 32) data start

/-- The slow route of `read`. -/
def readBlocks (space : MemorySpaceImpl bsize) (data : Buffer) (currentAddr dstOffset nbytesRemain : Nat) :
    Nat → Except MemoryFault Buffer
  | 0 => if nbytesRemain = 0 then .ok data else .error .outOfFuel
  | fuel + 1 =>
      if nbytesRemain = 0 then .ok data
      else do
        let offset := currentAddr &&& (bsize - 1)
        let page := currentAddr >>> space.log2BlockSize
        let tx := txBytes bsize offset nbytesRemain
        let data ← space.readSingleBlock page currentAddr tx data dstOffset
        space.readBlocks data ((currentAddr + tx) % 2 ^ 32) ((dstOffset + tx) % 2 ^ 32)
          ((nbytesRemain + 2 ^ 32 - tx) % 2 ^ 32) fuel

/-- `memory_space_impl<BSIZE>::read` into `data`. -/
def read (space : MemorySpaceImpl bsize) (addr length : Nat) (data : Buffer) : Except MemoryFault Buffer :=
  let index := addr >>> space.log2BlockSize
  if (addr + length) % 2 ^ 64 ≤ (index + 1) * bsize % 2 ^ 32 then
    space.readSingleBlock index addr length data 0
  else
    let nbytesRemain := length % 2 ^ 32
    space.readBlocks data addr 0 nbytesRemain nbytesRemain

/-- The byte at an address: blocks that do not exist read as zero. -/
def byte (space : MemorySpaceImpl bsize) (a : Nat) : UInt8 :=
  match space.data (a / bsize) with
  | none => 0
  | some storage => storage.data (a % bsize)

end MemorySpaceImpl

/-- A call of the memory's user; a read comes with the buffer it fills. -/
inductive MemoryOp
  | write (addr length : Nat) (data : Buffer)
  | read (addr length : Nat) (data : Buffer)

/-- Runs the calls in order and collects what the reads leave in their buffers. -/
def runMemory {bsize : Nat} (space : MemorySpaceImpl bsize) :
    List MemoryOp → Except MemoryFault (MemorySpaceImpl bsize × List Buffer)
  | [] => .ok (space, [])
  | .write addr length data :: ops => do runMemory (← space.write addr length data) ops
  | .read addr length data :: ops => do
      let buffer ← space.read addr length data
      let (space, buffers) ← runMemory space ops
      pure (space, buffer :: buffers)

end GpgpuSim.Functional
