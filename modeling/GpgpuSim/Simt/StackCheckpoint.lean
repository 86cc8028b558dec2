import GpgpuSim.Simt.Stack
import GpgpuSim.Text.Lines
import GpgpuSim.Text.Numerals
import Mathlib.Data.BitVec

/-! The SIMT stack in a checkpoint: one line of text for each entry, from the bottom entry
up. The divergence cycle is written with 64 bits and read back with 32. -/
namespace GpgpuSim.Simt
open Text

/-- `simt_stack_entry` with the fields that a checkpoint keeps. -/
structure CheckpointEntry (w : Nat) where
  pc : AddressType := nullPc
  calldepth : BitVec 32 := 0
  activeMask : SimtMask w := ∅
  recvgPc : AddressType := nullPc
  branchDivCycle : BitVec 64 := 0
  type : StackEntryType := .normal
  deriving DecidableEq

/-- The value of the enumerator. -/
def StackEntryType.value : StackEntryType → Int
  | .normal => 0
  | .call => 1

variable {w : Nat}

namespace SimtStack

/-- What `print_checkpoint` writes for an entry. -/
def printEntry (warpId : BitVec 32) (entry : CheckpointEntry w) : List Char :=
  ((List.finRange w).flatMap fun j => [if j ∈ entry.activeMask then '1' else '0', ' ']) ++
    (decimal entry.pc.toInt ++ ' ' :: decimal entry.calldepth.toInt ++ ' ' :: decimal entry.recvgPc.toInt ++
      ' ' :: decimal entry.branchDivCycle.toInt ++ ' ' :: decimal entry.type.value ++ [' ']) ++
    (decimal warpId.toInt ++ ' ' :: decimal w ++ ['\n'])

def printCheckpoint (warpId : BitVec 32) (stack : List (CheckpointEntry w)) : List Char :=
  stack.flatMap (printEntry warpId)

/-- The test of the word for lane `j`. -/
def readFlag (tokens : List (List Char)) (mask : SimtMask w) (j : Fin w) : Option (SimtMask w) := do
  let pch ← tokens[j.val]?
  return if pch.head? = some '1' then insert j mask else mask.erase j

/-- A pass of the loop of `resume`. It fails where the source would read through a null pointer. -/
def resumeEntry (w : Nat) (line : List Char) : Option (CheckpointEntry w) := do
  let tokens := words line
  let activeMask ← (List.finRange w).foldlM (readFlag tokens) ∅
  let pc ← tokens[w]?
  let calldepth ← tokens[w + 1]?
  let recvgPc ← tokens[w + 2]?
  let branchDivCycle ← tokens[w + 3]?
  let type ← tokens[w + 4]?
  return {
    pc := atoi pc
    calldepth := atoi calldepth
    activeMask
    recvgPc := atoi recvgPc
    branchDivCycle := (atoi branchDivCycle).signExtend 64
    type := if type.head? = some '0' then .normal else .call }

/-- `resume` with a buffer of 200 characters, the last of them for the end of the string. -/
def resume (w : Nat) (text : List Char) : Option (List (CheckpointEntry w)) :=
  (lines 199 text).mapM (resumeEntry w)

end SimtStack

namespace CheckpointEntry

/-- The numbers of an entry's line, but for the warp size at its end. -/
def numbers (warpId : BitVec 32) (entry : CheckpointEntry w) : List (List Char) :=
  [decimal entry.pc.toInt, decimal entry.calldepth.toInt, decimal entry.recvgPc.toInt,
    decimal entry.branchDivCycle.toInt, decimal entry.type.value, decimal warpId.toInt]

def tokens (warpId : BitVec 32) (entry : CheckpointEntry w) : List (List Char) :=
  ((List.finRange w).map fun j => [if j ∈ entry.activeMask then '1' else '0']) ++ entry.numbers warpId

/-- The line of an entry, without its end. -/
def line (warpId : BitVec 32) (entry : CheckpointEntry w) : List Char :=
  joinWords (entry.tokens warpId) ++ decimal w

/-- The entry as it comes back: the cycle is read as an `int`. -/
def narrowed (entry : CheckpointEntry w) : CheckpointEntry w :=
  { entry with branchDivCycle := (BitVec.ofInt 32 entry.branchDivCycle.toInt).signExtend 64 }

/-- The cycle, taken as a signed number, is an `int`. -/
def CycleFits (entry : CheckpointEntry w) : Prop :=
  -2 ^ 31 ≤ entry.branchDivCycle.toInt ∧ entry.branchDivCycle.toInt < 2 ^ 31

end CheckpointEntry

namespace SimtStack
open CheckpointEntry

variable {warpId : BitVec 32} {entry : CheckpointEntry w} {words : List (List Char)} {mask : SimtMask w}

/-! ## The line of an entry -/

theorem printEntry_eq : printEntry warpId entry = entry.line warpId ++ ['\n'] := by
  simp [printEntry, line, tokens, numbers, joinWords, List.flatMap_map]

theorem notMem_decimal {c : Char} {i : Int} (minus : c ≠ '-') (digit : c.isDigit = false) : c ∉ decimal i := by
  intro mem
  rcases mem_decimal mem with same | isDigit
  · exact minus same
  · rw [digit] at isDigit
    contradiction

theorem isWord_decimal (i : Int) : IsWord (decimal i) :=
  ⟨decimal_ne_nil i, notMem_decimal (by decide) (by decide)⟩

/-- The words are flags or decimals. -/
theorem forall_tokens {p : List Char → Prop} (zero : p ['0']) (one : p ['1']) (number : ∀ i, p (decimal i)) :
    ∀ token ∈ entry.tokens warpId, p token := by
  intro token mem
  rcases List.mem_append.mp mem with flag | field
  · obtain ⟨j, -, rfl⟩ := List.mem_map.mp flag
    split <;> assumption
  · simp only [numbers, List.mem_cons, List.not_mem_nil, or_false] at field
    rcases field with rfl | rfl | rfl | rfl | rfl | rfl <;> exact number _

theorem noEnd_line : '\n' ∉ entry.line warpId := by
  have noEnd : ∀ i, '\n' ∉ decimal i := fun i => notMem_decimal (by decide) (by decide)
  have words : ∀ token ∈ entry.tokens warpId, '\n' ∉ token := forall_tokens (by decide) (by decide) noEnd
  intro mem
  rcases List.mem_append.mp mem with before | last
  · obtain ⟨token, isToken, mem⟩ := List.mem_flatMap.mp before
    rcases List.mem_append.mp mem with inside | blank
    · exact words token isToken inside
    · simp at blank
  · exact noEnd _ last

theorem length_word32 (v : BitVec 32) : (decimal v.toInt).length ≤ 11 := by
  have lower := BitVec.le_toInt v
  have upper := BitVec.toInt_lt (x := v)
  exact length_decimal (by decide) (by omega)

theorem length_word64 (v : BitVec 64) : (decimal v.toInt).length ≤ 20 := by
  have lower := BitVec.le_toInt v
  have upper := BitVec.toInt_lt (x := v)
  exact length_decimal (by decide) (by omega)

theorem length_line (small : w ≤ 32) : (entry.line warpId).length < 199 := by
  have type : (decimal entry.type.value).length ≤ 2 :=
    length_decimal (k := 1) (by decide) (by cases entry.type <;> decide)
  have size : (decimal w).length ≤ 3 := length_decimal (k := 2) (by decide) (by omega)
  have pc := length_word32 entry.pc
  have depth := length_word32 entry.calldepth
  have recvgPc := length_word32 entry.recvgPc
  have cycle := length_word64 entry.branchDivCycle
  have warp := length_word32 warpId
  simp [line, joinWords, tokens, numbers, List.flatMap_map]
  omega

/-! ## Reading an entry -/

/-- The lanes of `lanes` are read, the other ones stay. -/
theorem readFlags (reads : ∀ j : Fin w, words[j.val]? = some [if j ∈ mask then '1' else '0']) (lanes : List (Fin w))
    (init : SimtMask w) :
    ∃ read : SimtMask w, lanes.foldlM (readFlag words) init = some read ∧
      ∀ j, j ∈ read ↔ if j ∈ lanes then j ∈ mask else j ∈ init := by
  induction lanes generalizing init with
  | nil => exact ⟨init, rfl, fun j => by simp⟩
  | cons lane lanes ih =>
      have step : readFlag words init lane = some (if lane ∈ mask then insert lane init else init.erase lane) := by
        simp only [readFlag, reads lane]
        by_cases active : lane ∈ mask <;> simp [active]
      obtain ⟨read, done, members⟩ := ih (if lane ∈ mask then insert lane init else init.erase lane)
      refine ⟨read, by rw [List.foldlM_cons, step]; exact done, fun j => ?_⟩
      rw [members j]
      by_cases same : j = lane
      · subst same
        by_cases active : j ∈ mask <;> simp [active]
      · by_cases active : lane ∈ mask <;> simp [active, same]

theorem readMask (reads : ∀ j : Fin w, words[j.val]? = some [if j ∈ mask then '1' else '0']) :
    (List.finRange w).foldlM (readFlag words) ∅ = some mask := by
  obtain ⟨read, done, members⟩ := readFlags reads (List.finRange w) ∅
  have same : read = mask := by
    ext j
    simp [members j]
  rw [done, same]

theorem atoi_word32 (v : BitVec 32) : atoi (decimal v.toInt) = v := by
  have lower := BitVec.le_toInt v
  have upper := BitVec.toInt_lt (x := v)
  rw [atoi_decimal (by omega) (by omega), BitVec.ofInt_toInt]

theorem atoi_word64 (v : BitVec 64) : atoi (decimal v.toInt) = BitVec.ofInt 32 v.toInt :=
  atoi_decimal (BitVec.le_toInt v) BitVec.toInt_lt

theorem readType (type : StackEntryType) :
    (if (decimal type.value).head? = some '0' then StackEntryType.normal else .call) = type := by
  cases type <;> rfl

theorem words_line : Text.words (entry.line warpId ++ ['\n']) =
    ((List.finRange w).map fun j => [if j ∈ entry.activeMask then '1' else '0']) ++
      (entry.numbers warpId ++ [decimal w ++ ['\n']]) := by
  have word : ∀ token ∈ entry.tokens warpId, IsWord token :=
    forall_tokens ⟨by decide, by decide⟩ ⟨by decide, by decide⟩ isWord_decimal
  have lastWord : IsWord (decimal w ++ ['\n']) :=
    ⟨by simp, by simpa using notMem_decimal (by decide) (by decide)⟩
  rw [line, List.append_assoc, words_joinWords word lastWord, tokens, List.append_assoc]

theorem resumeEntry_line : resumeEntry w (entry.line warpId ++ ['\n']) = some entry.narrowed := by
  have flags : (List.finRange w).foldlM (readFlag (Text.words (entry.line warpId ++ ['\n']))) ∅ =
      some entry.activeMask := by
    refine readMask fun j => ?_
    rw [words_line, List.getElem?_append_left (by simp)]
    simp
  have field : ∀ k, (Text.words (entry.line warpId ++ ['\n']))[w + k]? =
      (entry.numbers warpId ++ [decimal w ++ ['\n']])[k]? := by
    intro k
    rw [words_line, List.getElem?_append_right (by simp)]
    simp
  have pc := field 0
  simp only [Nat.add_zero] at pc
  simp only [resumeEntry, flags, pc, field, numbers]
  simp [atoi_word32, atoi_word64, readType, narrowed]

theorem resumeEntry_lines (stack : List (CheckpointEntry w)) :
    (stack.map fun entry => entry.line warpId ++ ['\n']).mapM (resumeEntry w) = some (stack.map narrowed) := by
  induction stack with
  | nil => rfl
  | cons entry stack ih =>
      rw [List.map_cons, List.mapM_cons, resumeEntry_line, ih]
      rfl

/-- Every entry comes back, with its cycle narrowed. -/
theorem resume_printCheckpoint (small : w ≤ 32) (warpId : BitVec 32) (stack : List (CheckpointEntry w)) :
    resume w (printCheckpoint warpId stack) = some (stack.map narrowed) := by
  have text : printCheckpoint warpId stack = joinLines (stack.map (line warpId)) := by
    rw [printCheckpoint, joinLines, List.flatMap_map]
    exact List.flatMap_congr fun entry _ => printEntry_eq
  have fits : ∀ body ∈ stack.map (line warpId), '\n' ∉ body ∧ body.length < 199 := by
    intro body mem
    obtain ⟨entry, -, rfl⟩ := List.mem_map.mp mem
    exact ⟨noEnd_line, length_line small⟩
  rw [resume, text, lines_joinLines (fun body mem => (fits body mem).1) fun body mem => (fits body mem).2, List.map_map]
  exact resumeEntry_lines stack

/-! ## Which cycles come back -/

theorem narrowed_iff : entry.narrowed = entry ↔ entry.CycleFits := by
  have read : ((BitVec.ofInt 32 entry.branchDivCycle.toInt).signExtend 64).toInt =
      entry.branchDivCycle.toInt.bmod (2 ^ 32) := by
    rw [BitVec.toInt_signExtend_of_le (by decide), BitVec.toInt_ofInt]
  constructor
  · intro same
    have cycle := congrArg (fun entry => entry.branchDivCycle.toInt) same
    simp only [narrowed, read] at cycle
    have lower := Int.le_bmod (x := entry.branchDivCycle.toInt) (m := 2 ^ 32) (by decide)
    have upper := Int.bmod_lt (x := entry.branchDivCycle.toInt) (m := 2 ^ 32) (by decide)
    rw [cycle] at lower upper
    exact ⟨by omega, by omega⟩
  · rintro ⟨lower, upper⟩
    have cycle : (BitVec.ofInt 32 entry.branchDivCycle.toInt).signExtend 64 = entry.branchDivCycle := by
      apply BitVec.eq_of_toInt_eq
      rw [read]
      exact Int.bmod_eq_of_le (by omega) (by omega)
    rw [narrowed, cycle]

/-- A stack comes back as it was exactly when its cycles are in the range of an `int`. -/
theorem resume_printCheckpoint_iff (small : w ≤ 32) (warpId : BitVec 32) (stack : List (CheckpointEntry w)) :
    resume w (printCheckpoint warpId stack) = some stack ↔ ∀ entry ∈ stack, entry.CycleFits := by
  rw [resume_printCheckpoint small, Option.some_inj]
  constructor
  · intro same entry mem
    have fixed := List.map_eq_map_iff.mp (same.trans (List.map_id stack).symm) entry mem
    exact narrowed_iff.mp fixed
  · intro fits
    calc stack.map narrowed
      _ = stack.map id := List.map_congr_left fun entry mem => narrowed_iff.mpr (fits entry mem)
      _ = stack := List.map_id stack

def sampleEntry (cycle : BitVec 64) : CheckpointEntry 2 where
  pc := 16
  calldepth := 1
  activeMask := {⟨0, Nat.two_pos⟩}
  recvgPc := nullPc
  branchDivCycle := cycle
  type := .call

/-- A call by two threads that a branch has taken apart: each goes on to PC 64 by itself. -/
def divergedStack : List (CheckpointEntry 2) :=
  [{ sampleEntry 100 with pc := 64, activeMask := Finset.univ },
    { sampleEntry 200 with pc := 24, recvgPc := 64, activeMask := {⟨1, Nat.one_lt_two⟩}, type := .normal },
    { sampleEntry 0 with pc := 48, recvgPc := 64, type := .normal }]

theorem resume_printCheckpoint_iff_sample : resume 2 (printCheckpoint 3 divergedStack) = some divergedStack := by
  refine (resume_printCheckpoint_iff (by decide) 3 divergedStack).mpr ?_
  unfold CheckpointEntry.CycleFits
  decide

/-- The lowest bit of an `int` that is out of range comes back as a sign. -/
theorem resume_narrows_cycle : resume 2 (printCheckpoint 3 [sampleEntry (2 ^ 31)]) =
    some [sampleEntry 0xFFFFFFFF80000000] ∧
    resume 2 (printCheckpoint 3 [sampleEntry (2 ^ 31)]) ≠ some [sampleEntry (2 ^ 31)] := by
  rw [resume_printCheckpoint (by decide)]
  decide

end SimtStack
end GpgpuSim.Simt
