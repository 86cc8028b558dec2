import GpgpuSim.Shader.Scoreboard
import GpgpuSim.Simt.Stack
import Mathlib.Data.BitVec

/-! The table from PCs to instructions that all functions are assembled into. An instruction is found at
its own PC, and the one that follows it in its function at the PC behind it. -/
namespace GpgpuSim.Functional
open Simt Shader Transition

/-- What fetching, issuing and executing read of a `warp_inst_t`. -/
structure DecodedInst extends IssuedInst where
  pc : AddressType
  isize : AddressType
  reconvergencePc : AddressType
  isAtomic : Bool
  isCdp : Nat
  deriving DecidableEq, Repr

/-- An instruction of eight bytes that reads and writes no register. -/
def plainInst (op : UarchOp) (target : AddressType) : DecodedInst :=
  { uid := 0, warpId := 0, space := .undefinedSpace, cacheOp := .cacheUndefined, memoryOp := .noMemoryOp, out := [],
    op := op, inn := [], pred := 0, ar1 := 0, ar2 := 0, pc := 0, isize := 8, reconvergencePc := target,
    isAtomic := false, isCdp := 0 }

/-- `MAX_INST_SIZE`. -/
def maxInstSize : Nat := 8

inductive AssemblyFault
  | misplaced
  | tooLarge
  deriving DecidableEq, Repr

/-- The entries of `s_g_pc_to_insn` are at the PCs of their instructions. -/
def Located (insns : List (Option DecodedInst)) : Prop :=
  ∀ (n : Nat) (inst : DecodedInst), insns[n]? = some (some inst) → inst.pc.toNat = n

theorem Located.append {insns : List (Option DecodedInst)} (located : Located insns) {entry : Option DecodedInst}
    (here : ∀ inst, entry = some inst → inst.pc.toNat = insns.length) : Located (insns ++ [entry]) := by
  intro n inst found
  rw [List.getElem?_append] at found
  split at found
  · exact located n inst found
  next beyond =>
    have first := (List.getElem?_eq_some_iff.mp found).1
    rw [List.length_singleton] at first
    have last : n = insns.length := by omega
    rw [last, Nat.sub_self] at found
    rw [last]
    exact here inst (Option.some.inj found)

/-- `s_g_pc_to_insn` and `g_assemble_code_next_pc`. -/
structure InstructionMemory where
  insns : List (Option DecodedInst)
  nextPc : AddressType
  located : Located insns

namespace InstructionMemory

def empty : InstructionMemory := ⟨[], 0, by simp [Located]⟩

/-- `pc_to_instruction`, which `ptx_fetch_inst` returns. -/
def fetch (mem : InstructionMemory) (pc : AddressType) : Option DecodedInst := mem.insns[pc.toNat]?.join

/-- `push_back` of null pointers. -/
def pushNulls (mem : InstructionMemory) : Nat → InstructionMemory
  | 0 => mem
  | count + 1 =>
      pushNulls { mem with insns := mem.insns ++ [none], located := mem.located.append (by simp) } count

/-- The body of the loop of `ptx_assemble` for an instruction; the first assertion is that `s_g_pc_to_insn` has
it at its PC. -/
def assembleInst (mem : InstructionMemory) (inst : DecodedInst) : Except AssemblyFault InstructionMemory :=
  if placed : mem.nextPc.toNat = mem.insns.length then
    if inst.isize.toNat ≤ maxInstSize then
      let mem : InstructionMemory := { mem with
        insns := mem.insns ++ [some { inst with pc := mem.nextPc }]
        located := mem.located.append (by rintro _ ⟨⟩; exact placed) }
      .ok { mem.pushNulls (inst.isize.toNat - 1) with nextPc := mem.nextPc + inst.isize }
    else .error .tooLarge
  else .error .misplaced

/-- What `ptx_assemble` does before its loop; the padding does not align the PC. -/
def startFunction (mem : InstructionMemory) : InstructionMemory :=
  let padding := mem.nextPc.toNat % maxInstSize
  { mem.pushNulls padding with nextPc := mem.nextPc + BitVec.ofNat 32 padding }

/-- `ptx_assemble`, without the labels and their use. -/
def assembleFunction (mem : InstructionMemory) (insts : List DecodedInst) :
    Except AssemblyFault InstructionMemory :=
  insts.foldlM assembleInst mem.startFunction

def assemble (functions : List (List DecodedInst)) : Except AssemblyFault InstructionMemory :=
  functions.foldlM assembleFunction empty

/-! ## What is found where -/

variable {mem next : InstructionMemory} {inst : DecodedInst} {insts : List DecodedInst} {pc : AddressType} {k : Nat}

theorem fetch_pc (found : mem.fetch pc = some inst) : inst.pc = pc := by
  rw [fetch, Option.join_eq_some_iff] at found
  exact BitVec.eq_of_toNat_eq (mem.located _ inst found)

theorem insns_pushNulls (mem : InstructionMemory) (count : Nat) :
    (mem.pushNulls count).insns = mem.insns ++ List.replicate count none := by
  induction count generalizing mem with
  | zero => simp [pushNulls]
  | succ count ih =>
      rw [pushNulls, ih, List.replicate_succ]
      simp

/-- What the assembly of one instruction appends. -/
structure Appended (mem : InstructionMemory) (inst : DecodedInst) (next : InstructionMemory) : Prop where
  placed : mem.nextPc.toNat = mem.insns.length
  insns : next.insns = mem.insns ++ some { inst with pc := mem.nextPc } :: List.replicate (inst.isize.toNat - 1) none
  nextPc : next.nextPc = mem.nextPc + inst.isize

theorem assembleInst_appended (done : mem.assembleInst inst = .ok next) : Appended mem inst next := by
  rw [assembleInst] at done
  split at done
  next placed =>
    split at done
    · cases done
      refine ⟨placed, ?_, rfl⟩
      simp [insns_pushNulls]
    · contradiction
  · contradiction

/-- Entries stay where they are. -/
theorem isPrefix_assembleInst (done : mem.assembleInst inst = .ok next) : mem.insns <+: next.insns := by
  rw [(assembleInst_appended done).insns]
  exact List.prefix_append _ _

theorem isPrefix_assembleAll (done : insts.foldlM assembleInst mem = .ok next) : mem.insns <+: next.insns := by
  induction insts generalizing mem with
  | nil =>
      cases done
      exact List.prefix_rfl
  | cons inst rest ih =>
      obtain ⟨middle, first, done⟩ := bind_ok.mp done
      exact (isPrefix_assembleInst first).trans (ih done)

theorem isPrefix_assembleFunction (done : mem.assembleFunction insts = .ok next) : mem.insns <+: next.insns := by
  refine List.IsPrefix.trans ?_ (isPrefix_assembleAll done)
  rw [startFunction]
  dsimp only
  rw [insns_pushNulls]
  exact List.prefix_append _ _

theorem isPrefix_assemble {functions : List (List DecodedInst)}
    (done : functions.foldlM assembleFunction mem = .ok next) :
    mem.insns <+: next.insns := by
  induction functions generalizing mem with
  | nil =>
      cases done
      exact List.prefix_rfl
  | cons insts rest ih =>
      obtain ⟨middle, first, done⟩ := bind_ok.mp done
      exact (isPrefix_assembleFunction first).trans (ih done)

theorem fetch_of_isPrefix (before : mem.insns <+: next.insns) (found : mem.fetch pc = some inst) :
    next.fetch pc = some inst := by
  rw [fetch, Option.join_eq_some_iff] at found ⊢
  obtain ⟨more, grown⟩ := before
  obtain ⟨inside, -⟩ := List.getElem?_eq_some_iff.mp found
  rw [← grown, List.getElem?_append_left inside, found]

/-- The PC of instruction `k` of a function that starts at `start`. -/
def pcOf (start : AddressType) (insts : List DecodedInst) (k : Nat) : AddressType :=
  (insts.take k).foldl (fun pc inst => pc + inst.isize) start

theorem fetch_assembleInst (done : mem.assembleInst inst = .ok next) :
    next.fetch mem.nextPc = some { inst with pc := mem.nextPc } := by
  have appended := assembleInst_appended done
  rw [fetch, appended.insns, appended.placed, List.getElem?_append_right (Nat.le_refl _), Nat.sub_self]
  rfl

theorem fetch_assembleAll (done : insts.foldlM assembleInst mem = .ok next) (within : insts[k]? = some inst) :
    next.fetch (pcOf mem.nextPc insts k) = some { inst with pc := pcOf mem.nextPc insts k } := by
  induction insts generalizing mem k with
  | nil => simp at within
  | cons first rest ih =>
      obtain ⟨middle, appended, done⟩ := bind_ok.mp done
      cases k with
      | zero =>
          obtain rfl := Option.some.inj within
          exact fetch_of_isPrefix (isPrefix_assembleAll done) (fetch_assembleInst appended)
      | succ k =>
          have found := ih done within
          rwa [(assembleInst_appended appended).nextPc] at found

theorem pcOf_succ (start : AddressType) (within : insts[k]? = some inst) :
    pcOf start insts (k + 1) = pcOf start insts k + inst.isize := by
  rw [pcOf, List.take_add_one, List.foldl_append, within]
  rfl

/-- In whatever is assembled before and after it, a function has its instructions one behind the other:
each is found at its PC, which its own field names, and so is its successor behind it. -/
theorem assembled_in_sequence {before after : List (List DecodedInst)}
    (done : assemble (before ++ insts :: after) = .ok mem) :
    ∃ start, ∀ k inst, insts[k]? = some inst →
      mem.fetch (pcOf start insts k) = some { inst with pc := pcOf start insts k } ∧
      ∀ successor, insts[k + 1]? = some successor →
        mem.fetch (pcOf start insts k + inst.isize) =
          some { successor with pc := pcOf start insts k + inst.isize } := by
  rw [assemble, List.foldlM_append] at done
  obtain ⟨early, -, done⟩ := bind_ok.mp done
  obtain ⟨middle, here, done⟩ := bind_ok.mp done
  have found : ∀ {k inst}, insts[k]? = some inst →
      mem.fetch (pcOf early.startFunction.nextPc insts k) =
        some { inst with pc := pcOf early.startFunction.nextPc insts k } :=
    fun within => fetch_of_isPrefix (isPrefix_assemble done) (fetch_assembleAll here within)
  refine ⟨early.startFunction.nextPc, ?_⟩
  intro k inst within
  refine ⟨found within, ?_⟩
  intro successor follows
  rw [← pcOf_succ _ within]
  exact found follows

theorem assembled_in_sequence_three : ∃ mem start,
    assemble ([[plainInst .exitOps nullPc]] ++ [plainInst .branchOp 8, plainInst .aluOp nullPc] :: []) = .ok mem ∧
    mem.fetch start = some { plainInst .branchOp 8 with pc := start } ∧
    mem.fetch (start + 8) = some { plainInst .aluOp nullPc with pc := start + 8 } := by
  obtain ⟨mem, done, -⟩ : ∃ mem, assemble ([[plainInst .exitOps nullPc]] ++
      [plainInst .branchOp 8, plainInst .aluOp nullPc] :: []) = .ok mem ∧ (fun _ => true) mem = true :=
    exists_of_succeedsWith rfl
  obtain ⟨start, found⟩ := assembled_in_sequence done
  obtain ⟨first, next⟩ := found 0 _ rfl
  exact ⟨mem, start, done, first, next _ rfl⟩

end InstructionMemory

end GpgpuSim.Functional
