import GpgpuSim.Functional.MemorySpace
import GpgpuSim.Transition.Fallible
import Mathlib.Algebra.Ring.Nat
import Mathlib.Tactic.Ring

/-! The memory as a flat array of bytes. The end of the last block is `2 ^ 32`, which is zero
in 32-bit arithmetic: a write then takes its slow route, which does not look at the end of the
block, and a read throws. -/
namespace GpgpuSim.Functional
open FlatMemory Transition

/-- The blocks fill the address space. -/
structure Blocks (b count : Nat) : Prop where
  fill : b * count = 2 ^ 32
  pos : 0 < b
  several : 2 ≤ count

namespace Blocks

variable {b count : Nat} {addr length index : Nat}

theorem of_pow {k : Nat} (small : k < 32) : Blocks (2 ^ k) (2 ^ (32 - k)) where
  fill := by rw [← Nat.pow_add, Nat.add_sub_cancel' small.le]
  pos := Nat.two_pow_pos k
  several := Nat.le_self_pow (by omega) 2

theorem twice_le (blocks : Blocks b count) : 2 * b ≤ 2 ^ 32 := by
  calc 2 * b = b * 2 := Nat.mul_comm ..
    _ ≤ b * count := Nat.mul_le_mul_left b blocks.several
    _ = 2 ^ 32 := blocks.fill

/-- The 32-bit end of a block. -/
theorem limit (blocks : Blocks b count) (small : index < count) :
    (index + 1) * b % 2 ^ 32 = if index + 1 = count then 0 else (index + 1) * b := by
  by_cases last : index + 1 = count
  · rw [if_pos last, last, Nat.mul_comm, blocks.fill, Nat.mod_self]
  · rw [if_neg last]
    refine Nat.mod_eq_of_lt ?_
    calc (index + 1) * b < count * b := Nat.mul_lt_mul_of_pos_right (by omega) blocks.pos
      _ = 2 ^ 32 := by rw [Nat.mul_comm, blocks.fill]

theorem index_lt (blocks : Blocks b count) (small : addr < 2 ^ 32) : addr / b < count :=
  Nat.div_lt_of_lt_mul (blocks.fill.symm ▸ small)

/-- A block that is not the last one ends before the last one begins. -/
theorem end_le (blocks : Blocks b count) (small : index + 1 < count) : (index + 1) * b + b ≤ 2 ^ 32 := by
  calc (index + 1) * b + b = (index + 2) * b := by ring
    _ ≤ count * b := Nat.mul_le_mul_right b small
    _ = 2 ^ 32 := by rw [Nat.mul_comm, blocks.fill]

theorem last_begin (blocks : Blocks b count) (last : index + 1 = count) : index * b + b = 2 ^ 32 := by
  rw [← blocks.fill, ← last]
  ring

end Blocks

namespace MemorySpaceImpl

variable {b count : Nat} {offset remain : Nat}

theorem txBytes_eq (blocks : Blocks b count) (small : offset < b) (fits : offset + remain < 2 ^ 32) :
    txBytes b offset remain = min remain (b - offset) := by
  have bound := blocks.twice_le
  simp only [txBytes, Nat.mod_eq_of_lt fits]
  split
  · rw [Nat.min_eq_right (by omega)]
    omega
  · rw [Nat.min_eq_left (by omega)]
    omega

/-- The limit of the access wraps to zero when block zero is accessed up to the end of memory. -/
theorem txBytes_wrapped (blocks : Blocks b count) (small : offset < b) (pos : 0 < offset)
    (wraps : offset + remain = 2 ^ 32) : txBytes b offset remain = remain := by
  have bound := blocks.twice_le
  simp only [txBytes, wraps, Nat.mod_self]
  split <;> omega

end MemorySpaceImpl

namespace MemorySpaceImpl

variable {k count : Nat} {space after : MemorySpaceImpl (2 ^ k)}
  {addr index length start current position remain fuel : Nat} {data : Buffer}

theorem byte_writeBlock (fits : addr % 2 ^ k + length ≤ 2 ^ k) :
    ∃ after, space.writeBlock (addr / 2 ^ k) (addr % 2 ^ k) length data = .ok after ∧
      after.log2BlockSize = space.log2BlockSize ∧ after.byte = copy space.byte addr data length := by
  refine ⟨{ space with data := Function.update space.data (addr / 2 ^ k) (some
    { data := copy ((space.data (addr / 2 ^ k)).getD {}).data (addr % 2 ^ k) data length }) }, ?_, rfl, ?_⟩
  · simp only [writeBlock, MemStorage.write, if_pos fits]
    rfl
  funext a
  have split := Nat.div_add_mod a (2 ^ k)
  have splitAddr := Nat.div_add_mod addr (2 ^ k)
  have bound := Nat.mod_lt a (Nat.two_pow_pos k)
  by_cases here : a / 2 ^ k = addr / 2 ^ k
  · rw [here] at split
    have old : space.byte a = ((space.data (addr / 2 ^ k)).getD {}).data (a % 2 ^ k) := by
      simp only [byte, here]
      cases space.data (addr / 2 ^ k) with
      | none => rfl
      | some storage => rfl
    simp only [byte, here, Function.update_self]
    by_cases inside : addr ≤ a ∧ a < addr + length
    · rw [copy_inside (by omega) (by omega), copy_inside inside.1 inside.2]
      congr 1
      omega
    · rw [copy_outside (by omega), copy_outside inside, old]
  · have outside : ¬ (addr ≤ a ∧ a < addr + length) := by
      rintro ⟨lower, upper⟩
      refine here (Nat.div_eq_of_lt_le ?_ ?_)
      · rw [Nat.mul_comm]
        omega
      · rw [Nat.succ_mul, Nat.mul_comm]
        omega
    rw [copy_outside outside]
    simp only [byte, Function.update_of_ne here]

theorem read_block (blocks : Blocks (2 ^ k) count) (fits : addr % 2 ^ k + length ≤ 2 ^ k)
    (early : addr / 2 ^ k + 1 < count) :
    space.readSingleBlock (addr / 2 ^ k) addr length data start =
      .ok (copy data start (shift space.byte addr) length) := by
  have finish := blocks.end_le early
  have split := Nat.div_add_mod addr (2 ^ k)
  have limit := blocks.limit (Nat.lt_of_succ_lt early)
  rw [if_neg early.ne, Nat.succ_mul, Nat.mul_comm] at limit
  rw [Nat.succ_mul, Nat.mul_comm] at finish
  have checked : ¬ (addr + length) % 2 ^ 64 > (addr / 2 ^ k + 1) * 2 ^ k % 2 ^ 32 := by
    rw [Nat.succ_mul, Nat.mul_comm, limit, Nat.mod_eq_of_lt (by omega)]
    omega
  have near : ∀ i < length, (addr + i) / 2 ^ k = addr / 2 ^ k ∧ (addr + i) % 2 ^ k = addr % 2 ^ k + i := by
    intro i small
    have position : addr + i = 2 ^ k * (addr / 2 ^ k) + (addr % 2 ^ k + i) := by omega
    have inBlock : addr % 2 ^ k + i < 2 ^ k := by omega
    rw [position, Nat.mul_add_div (Nat.two_pow_pos k), Nat.mul_add_mod, Nat.div_eq_of_lt inBlock,
      Nat.mod_eq_of_lt inBlock]
    exact ⟨Nat.add_zero _, rfl⟩
  simp only [readSingleBlock, if_neg checked]
  cases held : space.data (addr / 2 ^ k) with
  | none =>
      refine congrArg Except.ok (copy_congr ?_)
      intro i small
      simp only [shift, byte, (near i small).1, held]
  | some storage =>
      have short : length % 2 ^ 32 = length := Nat.mod_eq_of_lt (by omega)
      simp only [MemStorage.read, Nat.and_two_pow_sub_one_eq_mod, short, if_pos fits]
      refine congrArg Except.ok (copy_congr ?_)
      intro i small
      simp only [shift, byte, (near i small).1, (near i small).2, held]

/-- The check of a block read rejects whatever ends behind the 32-bit end of the block. -/
theorem read_behind (behind : (index + 1) * 2 ^ k % 2 ^ 32 < addr + length) (small : addr + length < 2 ^ 64) :
    space.readSingleBlock index addr length data start = .error (.thrown 1) := by
  simp only [readSingleBlock, Nat.mod_eq_of_lt small, if_pos behind]

end MemorySpaceImpl

namespace MemorySpaceImpl

variable {k count : Nat} {space : MemorySpaceImpl (2 ^ k)} {addr length current position remain fuel : Nat}
  {data source : Buffer}

/-- What one round of a slow route leaves, when the access does not wrap. -/
theorem chunk (blocks : Blocks (2 ^ k) count) (inside : current + remain ≤ 2 ^ 32)
    (short : current % 2 ^ k + remain < 2 ^ 32) (placed : position + remain < 2 ^ 32) (left : remain ≠ 0) :
    ∃ tx, txBytes (2 ^ k) (current % 2 ^ k) remain = tx ∧ 0 < tx ∧ tx ≤ remain ∧
      current % 2 ^ k + tx ≤ 2 ^ k ∧ (remain + 2 ^ 32 - tx) % 2 ^ 32 = remain - tx ∧
      (position + tx) % 2 ^ 32 = position + tx ∧
      (tx = remain ∨ (current + tx) % 2 ^ 32 = (current / 2 ^ k + 1) * 2 ^ k ∧
        current + tx = (current / 2 ^ k + 1) * 2 ^ k) := by
  have bound := Nat.mod_lt current (Nat.two_pow_pos k)
  have split := Nat.div_add_mod current (2 ^ k)
  refine ⟨_, txBytes_eq blocks bound short, by omega, by omega, by omega, by omega, ?_, ?_⟩
  · exact Nat.mod_eq_of_lt (by omega)
  · rcases Nat.le_total remain (2 ^ k - current % 2 ^ k) with fits | crosses
    · exact .inl (Nat.min_eq_left fits)
    · rw [Nat.min_eq_right crosses, Nat.succ_mul, Nat.mul_comm]
      by_cases last : remain = 2 ^ k - current % 2 ^ k
      · exact .inl last.symm
      · have next : current + (2 ^ k - current % 2 ^ k) < 2 ^ 32 := by omega
        rw [Nat.mod_eq_of_lt next]
        exact .inr ⟨by omega, by omega⟩

theorem writeBlocks_ok (blocks : Blocks (2 ^ k) count) (log2 : space.log2BlockSize = k) (enough : remain ≤ fuel)
    (inside : current + remain ≤ 2 ^ 32) (short : current % 2 ^ k + remain < 2 ^ 32)
    (placed : position + remain < 2 ^ 32) :
    ∃ after, space.writeBlocks data current position remain fuel = .ok after ∧ after.log2BlockSize = k ∧
      after.byte = copy space.byte current (shift data position) remain := by
  induction fuel generalizing space current position remain with
  | zero =>
      obtain rfl := Nat.le_zero.mp enough
      exact ⟨space, rfl, log2, copy_zero.symm⟩
  | succ fuel ih =>
      by_cases left : remain = 0
      · subst left
        exact ⟨space, rfl, log2, copy_zero.symm⟩
      · obtain ⟨tx, chosen, pos, within, fits, rest, forward, next⟩ := chunk blocks inside short placed left
        obtain ⟨middle, written, kept, bytes⟩ :=
          @byte_writeBlock k space current tx (shift data position) fits
        rw [log2] at kept
        simp only [writeBlocks, if_neg left, Nat.and_two_pow_sub_one_eq_mod, Nat.shiftRight_eq_div_pow, log2,
          chosen, written, rest, forward]
        rcases next with rfl | ⟨wrapped, plain⟩
        · refine ⟨middle, ?_, kept, bytes⟩
          simp only [Nat.sub_self]
          cases fuel with
          | zero => rfl
          | succ fuel => rfl
        · rw [wrapped]
          have enough' : remain - tx ≤ fuel := by omega
          have inside' : (current / 2 ^ k + 1) * 2 ^ k + (remain - tx) ≤ 2 ^ 32 := by omega
          have short' : (current / 2 ^ k + 1) * 2 ^ k % 2 ^ k + (remain - tx) < 2 ^ 32 := by
            rw [Nat.mul_mod_left]
            omega
          have placed' : position + tx + (remain - tx) < 2 ^ 32 := by omega
          obtain ⟨after, done, kept, tail⟩ := ih kept enough' inside' short' placed'
          refine ⟨after, done, kept, ?_⟩
          rw [tail, bytes, ← plain, ← shift_shift, copy_append, Nat.add_sub_cancel' within]

theorem readBlocks_ok (blocks : Blocks (2 ^ k) count) (log2 : space.log2BlockSize = k) (enough : remain ≤ fuel)
    (clear : remain = 0 ∨ current + remain + 2 ^ k ≤ 2 ^ 32) (placed : position + remain < 2 ^ 32) :
    space.readBlocks data current position remain fuel =
      .ok (copy data position (shift space.byte current) remain) := by
  induction fuel generalizing data current position remain with
  | zero =>
      obtain rfl := Nat.le_zero.mp enough
      rw [copy_zero]
      rfl
  | succ fuel ih =>
      by_cases left : remain = 0
      · subst left
        rw [copy_zero]
        rfl
      · have room := clear.resolve_left left
        have split := Nat.div_add_mod current (2 ^ k)
        have inside : current + remain ≤ 2 ^ 32 := by omega
        have short : current % 2 ^ k + remain < 2 ^ 32 := by
          have := Nat.mod_le current (2 ^ k)
          have := Nat.two_pow_pos k
          omega
        obtain ⟨tx, chosen, pos, within, fits, rest, forward, next⟩ := chunk blocks inside short placed left
        have early : current / 2 ^ k + 1 < count := by
          by_contra late
          have last : current / 2 ^ k + 1 = count := by
            have known : current / 2 ^ k < count := blocks.index_lt (by omega)
            omega
          have finish := blocks.last_begin last
          rw [Nat.mul_comm] at finish
          omega
        simp only [readBlocks, if_neg left, Nat.and_two_pow_sub_one_eq_mod, Nat.shiftRight_eq_div_pow, log2,
          chosen, read_block blocks fits early, rest, forward]
        rcases next with rfl | ⟨wrapped, plain⟩
        · simp only [Nat.sub_self]
          cases fuel with
          | zero => rfl
          | succ fuel => rfl
        · rw [wrapped]
          have enough' : remain - tx ≤ fuel := by omega
          have clear' : remain - tx = 0 ∨ (current / 2 ^ k + 1) * 2 ^ k + (remain - tx) + 2 ^ k ≤ 2 ^ 32 := by omega
          have placed' : position + tx + (remain - tx) < 2 ^ 32 := by omega
          refine (ih enough' clear' placed').trans ?_
          rw [← plain, ← shift_shift, copy_append, Nat.add_sub_cancel' within]

/-- A slow read that reaches the last block throws there, if not before. -/
theorem readBlocks_throws (blocks : Blocks (2 ^ k) count) (log2 : space.log2BlockSize = k) (enough : remain ≤ fuel)
    (left : remain ≠ 0) (inside : current + remain ≤ 2 ^ 32) (reaches : 2 ^ 32 < current + remain + 2 ^ k)
    (small : remain < 2 ^ 32) :
    space.readBlocks data current position remain fuel = .error (.thrown 1) := by
  induction fuel generalizing data current position remain with
  | zero => exact absurd (Nat.le_zero.mp enough) left
  | succ fuel ih =>
      have bound := Nat.mod_lt current (Nat.two_pow_pos k)
      have split := Nat.div_add_mod current (2 ^ k)
      have half := blocks.twice_le
      have known : current / 2 ^ k < count := blocks.index_lt (by omega)
      have limit := blocks.limit known
      simp only [readBlocks, if_neg left, Nat.and_two_pow_sub_one_eq_mod, Nat.shiftRight_eq_div_pow, log2]
      by_cases wraps : current % 2 ^ k + remain = 2 ^ 32
      · have first : current / 2 ^ k = 0 := by
          refine Nat.div_eq_of_lt ?_
          omega
        rw [txBytes_wrapped blocks bound (by omega) wraps, read_behind]
        · rfl
        · rw [first, Nat.zero_add, Nat.one_mul, Nat.mod_eq_of_lt (by omega)]
          omega
        · omega
      · rw [txBytes_eq blocks bound (by omega)]
        by_cases last : current / 2 ^ k + 1 = count
        · rw [read_behind]
          · rfl
          · rw [limit, if_pos last]
            omega
          · omega
        · have early : current / 2 ^ k + 1 < count := by omega
          have finish := blocks.end_le early
          rw [Nat.succ_mul, Nat.mul_comm] at finish
          rw [Nat.min_eq_right (by omega), read_block blocks (by omega) early]
          refine ih (by omega) (by omega) ?_ ?_ (by omega)
          · rw [Nat.mod_eq_of_lt (by omega)]
            omega
          · rw [Nat.mod_eq_of_lt (by omega)]
            omega

end MemorySpaceImpl

namespace MemorySpaceImpl

variable {k count : Nat} {space : MemorySpaceImpl (2 ^ k)} {addr length : Nat} {data : Buffer}

/-- The fast route is taken inside a block only. -/
theorem fast_fits (fast : addr + length ≤ (addr / 2 ^ k + 1) * 2 ^ k % 2 ^ 32) :
    addr % 2 ^ k + length ≤ 2 ^ k := by
  have below := fast.trans (Nat.mod_le _ _)
  have split := Nat.div_add_mod addr (2 ^ k)
  rw [Nat.succ_mul, Nat.mul_comm] at below
  omega

theorem write_ok (blocks : Blocks (2 ^ k) count) (log2 : space.log2BlockSize = k) (inside : addr + length ≤ 2 ^ 32)
    (short : addr % 2 ^ k + length < 2 ^ 32) :
    ∃ after, space.write addr length data = .ok after ∧ after.log2BlockSize = k ∧
      after.byte = copy space.byte addr data length := by
  have narrow : length < 2 ^ 32 := by omega
  have wide : addr + length < 2 ^ 64 := by omega
  simp only [write, Nat.mod_eq_of_lt wide, Nat.mod_eq_of_lt narrow, Nat.and_two_pow_sub_one_eq_mod,
    Nat.shiftRight_eq_div_pow, log2]
  split
  next fast =>
    obtain ⟨after, done, kept, bytes⟩ := @byte_writeBlock k space addr length data (fast_fits fast)
    exact ⟨after, done, kept.trans log2, bytes⟩
  next slow =>
    have placed : 0 + length < 2 ^ 32 := by omega
    obtain ⟨after, done, kept, bytes⟩ :=
      @writeBlocks_ok k count space addr 0 length length data blocks log2 (Nat.le_refl length) inside short placed
    exact ⟨after, done, kept, by rw [bytes, shift_zero]⟩

/-- A write from block zero to the end of memory fails the check of the block. -/
theorem write_wrapped (blocks : Blocks (2 ^ k) count) (log2 : space.log2BlockSize = k) (narrow : length < 2 ^ 32)
    (inside : addr + length ≤ 2 ^ 32) (wraps : ¬ addr % 2 ^ k + length < 2 ^ 32) :
    space.write addr length data = .error .assertion := by
  have half := blocks.twice_le
  have bound := Nat.mod_lt addr (Nat.two_pow_pos k)
  have split := Nat.div_add_mod addr (2 ^ k)
  have first : addr / 2 ^ k = 0 := Nat.div_eq_of_lt (by omega)
  have wide : addr + length < 2 ^ 64 := by omega
  have slow : ¬ addr + length ≤ (addr / 2 ^ k + 1) * 2 ^ k % 2 ^ 32 := by
    rw [first, Nat.zero_add, Nat.one_mul, Nat.mod_eq_of_lt (by omega)]
    omega
  simp only [write, Nat.mod_eq_of_lt wide, Nat.mod_eq_of_lt narrow, Nat.and_two_pow_sub_one_eq_mod,
    Nat.shiftRight_eq_div_pow, log2, if_neg slow]
  obtain ⟨fuel, rfl⟩ := Nat.exists_eq_succ_of_ne_zero (show length ≠ 0 by omega)
  have whole : addr % 2 ^ k + (fuel + 1) = 2 ^ 32 := by omega
  have refused : ¬ addr % 2 ^ k + (fuel + 1) ≤ 2 ^ k := by omega
  have pos : 0 < addr % 2 ^ k := by omega
  simp only [writeBlocks, if_neg (Nat.succ_ne_zero fuel), Nat.and_two_pow_sub_one_eq_mod,
    Nat.succ_eq_add_one, txBytes_wrapped blocks bound pos whole, writeBlock, MemStorage.write, if_neg refused]
  rfl

theorem read_ok (blocks : Blocks (2 ^ k) count) (log2 : space.log2BlockSize = k) (addressed : addr < 2 ^ 32)
    (inside : addr + length ≤ 2 ^ 32) (clear : length = 0 ∨ addr + length + 2 ^ k ≤ 2 ^ 32) :
    space.read addr length data = .ok (copy data 0 (shift space.byte addr) length) := by
  have pos := Nat.two_pow_pos k
  have narrow : length < 2 ^ 32 := by omega
  have wide : addr + length < 2 ^ 64 := by omega
  have split := Nat.div_add_mod addr (2 ^ k)
  simp only [read, Nat.mod_eq_of_lt wide, Nat.mod_eq_of_lt narrow, Nat.shiftRight_eq_div_pow, log2]
  split
  next fast =>
    refine read_block blocks (fast_fits fast) ?_
    have known := blocks.index_lt addressed
    by_contra late
    have last : addr / 2 ^ k + 1 = count := by omega
    have finish := blocks.last_begin last
    rw [blocks.limit known, if_pos last] at fast
    rw [Nat.mul_comm] at finish
    have half := blocks.twice_le
    have far : 0 < addr := by
      by_contra zero
      have first : addr / 2 ^ k = 0 := Nat.div_eq_of_lt (by omega)
      rw [first] at finish
      omega
    omega
  next slow => exact readBlocks_ok blocks log2 (Nat.le_refl length) clear (by omega)

theorem read_throws (blocks : Blocks (2 ^ k) count) (log2 : space.log2BlockSize = k) (narrow : length < 2 ^ 32)
    (addressed : addr < 2 ^ 32) (inside : addr + length ≤ 2 ^ 32)
    (reaches : ¬ (length = 0 ∨ addr + length + 2 ^ k ≤ 2 ^ 32)) :
    space.read addr length data = .error (.thrown 1) := by
  have wide : addr + length < 2 ^ 64 := by omega
  have slow : ¬ addr + length ≤ (addr / 2 ^ k + 1) * 2 ^ k % 2 ^ 32 := by
    intro fast
    have known := blocks.index_lt addressed
    rw [blocks.limit known] at fast
    by_cases last : addr / 2 ^ k + 1 = count
    · rw [if_pos last] at fast
      omega
    · rw [if_neg last] at fast
      have finish : (addr / 2 ^ k + 1) * 2 ^ k + 2 ^ k ≤ 2 ^ 32 := blocks.end_le (by omega)
      omega
  simp only [read, Nat.mod_eq_of_lt wide, Nat.mod_eq_of_lt narrow, Nat.shiftRight_eq_div_pow, log2,
    if_neg slow]
  exact readBlocks_throws blocks log2 (Nat.le_refl length) (by omega) inside (by omega) narrow

end MemorySpaceImpl

namespace MemoryOp

def addr : MemoryOp → Nat
  | write addr _ _ | read addr _ _ => addr

def length : MemoryOp → Nat
  | write _ length _ | read _ length _ => length

/-- The access lies in the 32-bit address space. -/
def InSpace (op : MemoryOp) : Prop := op.addr < 2 ^ 32 ∧ op.addr + op.length ≤ 2 ^ 32

/-- Reads stay out of the last block, and no write runs from the first block to the end. -/
def Clear (bsize : Nat) : MemoryOp → Prop
  | write addr length _ => ¬ (addr < bsize ∧ addr + length = 2 ^ 32)
  | read addr length _ => length = 0 ∨ addr + length + bsize ≤ 2 ^ 32

end MemoryOp

/-- What the reads of a run leave in their buffers when each byte has the value of the latest
earlier write that covers it, and zero when there is none. -/
def flatReads (earlier : List (Write UInt8)) : List MemoryOp → List Buffer
  | [] => []
  | .write addr length data :: ops => flatReads (earlier ++ [⟨addr, length, data⟩]) ops
  | .read addr length data :: ops =>
      copy data 0 (shift (latest 0 earlier) addr) length :: flatReads earlier ops

theorem log2BlockSize_two_pow {k : Nat} (small : k < 32) : log2BlockSize (2 ^ k) = .ok k := by
  revert k
  decide

section
variable {k count : Nat} {space : MemorySpaceImpl (2 ^ k)} {earlier : List (Write UInt8)} {ops : List MemoryOp}

theorem runMemory_ok (blocks : Blocks (2 ^ k) count) (log2 : space.log2BlockSize = k)
    (bytes : space.byte = contents 0 earlier) (inside : ∀ op ∈ ops, op.InSpace)
    (clear : ∀ op ∈ ops, op.Clear (2 ^ k)) :
    ∃ final, runMemory space ops = .ok (final, flatReads earlier ops) := by
  induction ops generalizing space earlier with
  | nil => exact ⟨space, rfl⟩
  | cons op ops ih =>
      obtain ⟨addressed, within⟩ := inside op List.mem_cons_self
      have safe := clear op List.mem_cons_self
      have inside' := fun other member => inside other (List.mem_cons_of_mem op member)
      have clear' := fun other member => clear other (List.mem_cons_of_mem op member)
      cases op with
      | write addr length data =>
          simp only [MemoryOp.addr, MemoryOp.length, MemoryOp.Clear] at addressed within safe
          have short : addr % 2 ^ k + length < 2 ^ 32 := by
            have lower := Nat.mod_le addr (2 ^ k)
            have upper := Nat.mod_lt addr (Nat.two_pow_pos k)
            omega
          obtain ⟨after, done, kept, written⟩ :=
            @MemorySpaceImpl.write_ok k count space addr length data blocks log2 within short
          rw [bytes, ← contents_append (w := ⟨addr, length, data⟩)] at written
          obtain ⟨final, rest⟩ := ih kept written inside' clear'
          exact ⟨final, by simp only [runMemory, done, flatReads]; exact rest⟩
      | read addr length data =>
          simp only [MemoryOp.addr, MemoryOp.length, MemoryOp.Clear] at addressed within safe
          obtain ⟨final, rest⟩ := ih log2 bytes inside' clear'
          have done := @MemorySpaceImpl.read_ok k count space addr length data blocks log2 addressed within safe
          rw [bytes, contents_eq_latest] at done
          exact ⟨final, by simp only [runMemory, done, rest, flatReads]; rfl⟩

end

section
variable {k count : Nat} {space final : MemorySpaceImpl (2 ^ k)} {earlier : List (Write UInt8)} {ops : List MemoryOp}
  {buffers : List Buffer}

/-- A run whose calls are shorter than the address space only returns when its calls meet the condition. -/
theorem clear_of_runMemory (blocks : Blocks (2 ^ k) count) (log2 : space.log2BlockSize = k)
    (inside : ∀ op ∈ ops, op.InSpace) (short : ∀ op ∈ ops, op.length < 2 ^ 32)
    (done : runMemory space ops = .ok (final, buffers)) : ∀ op ∈ ops, op.Clear (2 ^ k) := by
  induction ops generalizing space final buffers with
  | nil => exact fun _ member => absurd member List.not_mem_nil
  | cons op ops ih =>
      obtain ⟨addressed, within⟩ := inside op List.mem_cons_self
      have narrow := short op List.mem_cons_self
      have inside' := fun other member => inside other (List.mem_cons_of_mem op member)
      have short' := fun other member => short other (List.mem_cons_of_mem op member)
      have half := blocks.twice_le
      cases op with
      | write addr length data =>
          simp only [MemoryOp.addr, MemoryOp.length] at addressed within narrow
          obtain ⟨after, written, done⟩ := bind_ok.mp done
          by_cases fits : addr % 2 ^ k + length < 2 ^ 32
          · obtain ⟨_, again, kept, -⟩ :=
              @MemorySpaceImpl.write_ok k count space addr length data blocks log2 within fits
            obtain rfl := Except.ok.inj (again.symm.trans written)
            refine List.forall_mem_cons.mpr ⟨?_, ih kept inside' short' done⟩
            rintro ⟨first, reaches⟩
            rw [Nat.mod_eq_of_lt first] at fits
            omega
          · rw [MemorySpaceImpl.write_wrapped blocks log2 narrow within fits] at written
            contradiction
      | read addr length data =>
          simp only [MemoryOp.addr, MemoryOp.length] at addressed within narrow
          obtain ⟨buffer, filled, done⟩ := bind_ok.mp done
          obtain ⟨⟨_, _⟩, rest, -⟩ := bind_ok.mp done
          refine List.forall_mem_cons.mpr ⟨?_, ih log2 inside' short' rest⟩
          by_contra reaches
          rw [MemorySpaceImpl.read_throws blocks log2 narrow addressed within reaches] at filled
          contradiction

end

theorem new_two_pow {k : Nat} (small : k < 32) :
    ∃ space, MemorySpaceImpl.new (2 ^ k) = .ok space ∧ space.log2BlockSize = k ∧ space.byte = contents 0 [] := by
  refine ⟨{ log2BlockSize := k, data := fun _ => none }, ?_, rfl, rfl⟩
  simp only [MemorySpaceImpl.new, log2BlockSize_two_pow small]
  rfl

/-- Every call on a new memory returns, and the reads leave the bytes of the latest earlier writes. -/
def RefinesFlat (bsize : Nat) (ops : List MemoryOp) : Prop :=
  ∃ space final, MemorySpaceImpl.new bsize = .ok space ∧ runMemory space ops = .ok (final, flatReads [] ops)

/-- The memory is a flat array as long as its reads stay out of the last block and no write runs from the first
block to the end; and where the calls are shorter than the address space, only then. -/
theorem memory_refines_flat_array {k : Nat} (small : k < 32) (ops : List MemoryOp) (inside : ∀ op ∈ ops, op.InSpace) :
    ((∀ op ∈ ops, op.Clear (2 ^ k)) → RefinesFlat (2 ^ k) ops) ∧
      ((∀ op ∈ ops, op.length < 2 ^ 32) → RefinesFlat (2 ^ k) ops → ∀ op ∈ ops, op.Clear (2 ^ k)) := by
  have blocks := Blocks.of_pow small
  obtain ⟨space, made, log2, empty⟩ := new_two_pow small
  constructor
  · intro clear
    obtain ⟨final, done⟩ := runMemory_ok blocks log2 empty inside clear
    exact ⟨space, final, made, done⟩
  · rintro short ⟨space', final, made', done⟩
    obtain rfl := Except.ok.inj (made.symm.trans made')
    exact clear_of_runMemory blocks log2 inside short done

/-- A write over the border of two blocks and a read of it. -/
theorem memory_refines_flat_array_below_the_last_block :
    RefinesFlat (2 ^ 5) [.write 30 4 fun i => UInt8.ofNat (i + 1), .read 29 6 fun _ => 9] := by
  refine (memory_refines_flat_array (by decide) _ ?_).1 ?_
  · simp [MemoryOp.InSpace, MemoryOp.addr, MemoryOp.length]
  · simp [MemoryOp.Clear]

/-- A read of the last byte of the address space throws. -/
theorem last_byte_throws :
    ¬ ∀ (k : Nat) (ops : List MemoryOp), k < 32 → (∀ op ∈ ops, op.InSpace) → RefinesFlat (2 ^ k) ops := by
  intro claim
  have inside : ∀ op ∈ [MemoryOp.read (2 ^ 32 - 1) 1 fun _ => 0], op.InSpace := by
    simp [MemoryOp.InSpace, MemoryOp.addr, MemoryOp.length]
  obtain ⟨space, final, made, done⟩ := claim 5 _ (by decide) inside
  obtain ⟨space', made', log2, -⟩ := @new_two_pow 5 (by decide)
  obtain rfl := Except.ok.inj (made'.symm.trans made)
  have blocks : Blocks (2 ^ 5) (2 ^ (32 - 5)) := .of_pow (by decide)
  have clear := clear_of_runMemory blocks log2 inside (by simp [MemoryOp.length]) done
  simp [MemoryOp.Clear] at clear

end GpgpuSim.Functional
