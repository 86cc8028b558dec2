import GpgpuSim.Functional.MemoryRefinement
import GpgpuSim.Text.Lines
import GpgpuSim.Text.Numerals
import Mathlib.Data.List.Basic

/-! A memory space in a checkpoint: for each block a header line with its index, then a line
for each of its words. The loader keeps the index of the last header in a variable that is
declared inside its loop, and a line of data reads it without having set it. -/
namespace GpgpuSim.Functional
open FlatMemory Transition Text

/-! ## Writing -/

namespace MemStorage

variable {bsize : Nat}

/-- `i_data[d]`, with the low byte first. -/
def word (storage : MemStorage bsize) (d : Nat) : BitVec 32 :=
  BitVec.ofNat 32 ((storage.data (4 * d)).toNat + 2 ^ 8 * (storage.data (4 * d + 1)).toNat +
    2 ^ 16 * (storage.data (4 * d + 2)).toNat + 2 ^ 24 * (storage.data (4 * d + 3)).toNat)

/-- `mem_storage<BSIZE>::print`. -/
def print (storage : MemStorage bsize) (format : BitVec 32 → List Char) : List Char :=
  ((List.range (bsize / 4)).flatMap fun d => '\n' :: format (storage.word d) ++ [' ']) ++ ['\n']

end MemStorage

namespace MemorySpaceImpl

variable {bsize : Nat}

/-- `memory_space_impl<BSIZE>::print`; `pages` are the indices in the order of the map's iterator. -/
def print (space : MemorySpaceImpl bsize) (name : List Char) (format : BitVec 32 → List Char)
    (pages : List (BitVec 32)) : List Char :=
  pages.flatMap fun page =>
    match space.data page.toNat with
    | none => []
    | some storage => name ++ ' ' :: hexadecimal 8 page.toNat ++ [':'] ++ storage.print format

/-- The order of the parameters is that of the source. -/
def writeOnly (space : MemorySpaceImpl bsize) (offset index length : Nat) (data : Buffer) :
    Except MemoryFault (MemorySpaceImpl bsize) :=
  space.writeBlock index offset length data

end MemorySpaceImpl

/-- The format `%08x`. -/
def format08x (v : BitVec 32) : List Char := hexadecimal 8 v.toNat

variable {bsize : Nat}

def storeGlobalMem (space : MemorySpaceImpl bsize) (name : List Char) (format : BitVec 32 → List Char)
    (pages : List (BitVec 32)) : List Char :=
  space.print name format pages

/-! ## Loading -/

inductive LoadFault
  | nullToken
  | memory (fault : MemoryFault)

/-- The memory and the variables of `load_global_mem`. -/
structure LoadState (bsize : Nat) where
  space : MemorySpaceImpl bsize
  offset : BitVec 32
  index : BitVec 32

/-- `(const unsigned char *)&data`. -/
def wordBytes (data : BitVec 32) : Buffer := fun j => UInt8.ofNat (data.toNat / 2 ^ (8 * j))

namespace LoadState

/-- The branch for a header. -/
def header (state : LoadState bsize) (index : BitVec 32) : LoadState bsize :=
  { state with index, offset := 0 }

/-- The branch for a line of data. -/
def data (state : LoadState bsize) (data : BitVec 32) : Except LoadFault (LoadState bsize) := do
  let space ← (state.space.writeOnly state.offset.toNat state.index.toNat 4 (wordBytes data)).mapError .memory
  return { state with space, offset := state.offset + 4 }

/-- A pass of the loop. -/
def line (state : LoadState bsize) (line : List Char) : Except LoadFault (LoadState bsize) :=
  match words line with
  | [] => .error .nullToken
  | pch :: tokens =>
      if pch.head? = some 'g' ∨ pch.head? = some 's' ∨ pch.head? = some 'l' then
        match tokens with
        | [] => .error .nullToken
        | pch :: _ => .ok (state.header (extractHex pch))
      else state.data (extractHex pch)

end LoadState

/-- What `index` holds at the start of a pass, given the pass and what it held at the end of the pass before.
The source declares it anew in each pass and leaves its value open. -/
abbrev StartIndex := Nat → BitVec 32 → BitVec 32

/-- The variable keeps its value from pass to pass. -/
def keptIndex : StartIndex := fun _ last => last

def loadLines (start : StartIndex) : Nat → LoadState bsize → List (List Char) → Except LoadFault (LoadState bsize)
  | _, state, [] => .ok state
  | k, state, line :: rest => do
      let state ← LoadState.line { state with index := start k state.index } line
      loadLines start (k + 1) state rest

/-- `checkpoint::load_global_mem` with a buffer of 128 characters. Before the first header `offset` and `index`
hold anything. -/
def loadGlobalMem (start : StartIndex) (offset index : BitVec 32) (space : MemorySpaceImpl bsize) (text : List Char) :
    Except LoadFault (MemorySpaceImpl bsize) := do
  let state ← loadLines start 0 { space, offset, index } (lines 127 text)
  return state.space

/-! ## What a round trip is -/

/-- The name of a space whose headers the loader tells from data and reads in one line. -/
structure HeaderName (name : List Char) : Prop where
  first : name.head? = some 'g' ∨ name.head? = some 's' ∨ name.head? = some 'l'
  noBlank : ' ' ∉ name
  noEnd : '\n' ∉ name
  fits : name.length + 11 < 128

/-- The list holds the indices of the blocks that exist. -/
def Lists (pages : List (BitVec 32)) (space : MemorySpaceImpl bsize) : Prop :=
  ∀ i, (space.data i).isSome ↔ ∃ page ∈ pages, page.toNat = i

/-- Every read of an object gives the same bytes, or fails alike. -/
def SameReads (space other : MemorySpaceImpl bsize) : Prop :=
  ∀ addr length data, addr < 2 ^ 32 → length < 2 ^ 63 → other.read addr length data = space.read addr length data

/-- The file of `space`, loaded into `empty`, gives the reads of `space`. -/
def RoundTrip (start : StartIndex) (name : List Char) (pages : List (BitVec 32))
    (space empty : MemorySpaceImpl bsize) : Prop :=
  ∀ offset index, ∃ loaded,
    loadGlobalMem start offset index empty (storeGlobalMem space name format08x pages) = .ok loaded ∧
      SameReads space loaded

/-! ## The lines of a file -/

/-- A line of a checkpoint. -/
inductive Record
  | header (page : BitVec 32)
  | data (word : BitVec 32)

namespace Record

def body (name : List Char) : Record → List Char
  | header page => name ++ ' ' :: hexadecimal 8 page.toNat ++ [':']
  | data word => format08x word ++ [' ']

def perform (state : LoadState bsize) : Record → Except LoadFault (LoadState bsize)
  | header page => .ok (state.header page)
  | data word => state.data word

end Record

/-- The lines of a block. -/
def MemStorage.records (storage : MemStorage bsize) (page : BitVec 32) : List Record :=
  .header page :: (List.range (bsize / 4)).map fun d => .data (storage.word d)

def MemorySpaceImpl.records (space : MemorySpaceImpl bsize) (pages : List (BitVec 32)) : List Record :=
  pages.flatMap fun page =>
    match space.data page.toNat with
    | none => []
    | some storage => storage.records page

def loadRecords (start : StartIndex) : Nat → LoadState bsize → List Record → Except LoadFault (LoadState bsize)
  | _, state, [] => .ok state
  | k, state, record :: rest => do
      let state ← record.perform { state with index := start k state.index }
      loadRecords start (k + 1) state rest

variable {name : List Char} {pages : List (BitVec 32)} {space empty : MemorySpaceImpl bsize} {start : StartIndex}
  {state after : LoadState bsize} {record : Record} {records : List Record} {k : Nat}

theorem print_eq : storeGlobalMem space name format08x pages =
    joinLines ((space.records pages).map (Record.body name)) := by
  rw [storeGlobalMem, MemorySpaceImpl.print, MemorySpaceImpl.records, List.map_flatMap, joinLines, List.flatMap_assoc]
  refine List.flatMap_congr fun page _ => ?_
  cases space.data page.toNat with
  | none => rfl
  | some storage =>
      have block := joinLines_cons (name ++ ' ' :: hexadecimal 8 page.toNat ++ [':'])
        ((List.range (bsize / 4)).map fun d => format08x (storage.word d) ++ [' '])
      simp only [MemStorage.records, MemStorage.print, List.map_cons, Record.body, List.map_map]
      rw [List.flatMap_map] at block
      simpa [joinLines, Function.comp_def, Record.body] using block.symm

theorem hexadecimal_plain (n : Nat) : ' ' ∉ hexadecimal 8 n ∧ '\n' ∉ hexadecimal 8 n :=
  ⟨fun mem => forall_hexadecimal (p := (· ≠ ' ')) (by decide) 8 n _ mem rfl,
    fun mem => forall_hexadecimal (p := (· ≠ '\n')) (by decide) 8 n _ mem rfl⟩

theorem length_hexadecimal32 (v : BitVec 32) : (hexadecimal 8 v.toNat).length = 8 :=
  length_hexadecimal (by decide) v.isLt

theorem body_fits (valid : HeaderName name) (record : Record) :
    '\n' ∉ record.body name ∧ (record.body name).length < 127 := by
  have fits := valid.fits
  cases record with
  | header page =>
      have length := length_hexadecimal32 page
      simp only [Record.body, List.mem_append, List.mem_cons, List.length_append, List.length_cons, length]
      refine ⟨?_, by simp; omega⟩
      simp [valid.noEnd, (hexadecimal_plain page.toNat).2]
  | data word =>
      have length := length_hexadecimal32 word
      simp only [Record.body, format08x, List.mem_append, List.length_append, length]
      simp [(hexadecimal_plain word.toNat).2]

/-- The loader finds in a line the record it was written from. -/
theorem line_body (valid : HeaderName name) (state : LoadState bsize) (record : Record) :
    state.line (record.body name ++ ['\n']) = record.perform state := by
  have nameWord : IsWord name := ⟨by rintro rfl; simpa using valid.first, valid.noBlank⟩
  have ends : ∀ c ∈ [':', '\n'].head?, hexDigit c = none := by
    rintro _ ⟨⟩
    decide
  cases record with
  | header page =>
      have last : IsWord (hexadecimal 8 page.toNat ++ [':', '\n']) :=
        ⟨by simp, by simp [(hexadecimal_plain page.toNat).1]⟩
      have split : Record.body name (.header page) ++ ['\n'] =
          name ++ ' ' :: (hexadecimal 8 page.toNat ++ [':', '\n']) := by
        simp [Record.body]
      rw [LoadState.line, split, words_append, words_word nameWord, words_word last]
      simp only [List.singleton_append, if_pos valid.first, extractHex_hexadecimal page ends, Record.perform]
  | data word =>
      have length := length_hexadecimal32 word
      have first : IsWord (hexadecimal 8 word.toNat) :=
        ⟨List.ne_nil_of_length_pos (by omega), (hexadecimal_plain word.toNat).1⟩
      have last : IsWord ['\n'] := ⟨by decide, by decide⟩
      have split : Record.body name (.data word) ++ ['\n'] = hexadecimal 8 word.toNat ++ ' ' :: ['\n'] := by
        simp [Record.body, format08x]
      have digit : ∀ c ∈ (hexadecimal 8 word.toNat).head?, c ≠ 'g' ∧ c ≠ 's' ∧ c ≠ 'l' := fun c mem =>
        forall_hexadecimal (p := fun c => c ≠ 'g' ∧ c ≠ 's' ∧ c ≠ 'l') (by decide) 8 word.toNat c
          (List.mem_of_mem_head? mem)
      have isData : ¬ ((hexadecimal 8 word.toNat).head? = some 'g' ∨ (hexadecimal 8 word.toNat).head? = some 's' ∨
          (hexadecimal 8 word.toNat).head? = some 'l') := by
        rintro (g | s | l)
        · exact (digit 'g' g).1 rfl
        · exact (digit 's' s).2.1 rfl
        · exact (digit 'l' l).2.2 rfl
      have read : extractHex (hexadecimal 8 word.toNat ++ []) = word := extractHex_hexadecimal word (by simp)
      rw [List.append_nil] at read
      rw [LoadState.line, split, words_append, words_word first, words_word last]
      simp only [List.singleton_append, if_neg isData, read, Record.perform]

theorem loadLines_records (valid : HeaderName name) :
    loadLines start k state ((records.map (Record.body name)).map (· ++ ['\n'])) =
      loadRecords start k state records := by
  induction records generalizing k state with
  | nil => rfl
  | cons record records ih =>
      simp only [List.map_cons, loadLines, loadRecords, line_body valid, ih]

/-- Loading a stored file performs its records. -/
theorem loadGlobalMem_eq (valid : HeaderName name) (offset index : BitVec 32) :
    loadGlobalMem start offset index empty (storeGlobalMem space name format08x pages) =
      (do return (← loadRecords start 0 { space := empty, offset, index } (space.records pages)).space) := by
  have fits : ∀ body ∈ (space.records pages).map (Record.body name), '\n' ∉ body ∧ body.length < 127 := by
    intro body mem
    obtain ⟨record, -, rfl⟩ := List.mem_map.mp mem
    exact body_fits valid record
  rw [loadGlobalMem, print_eq, lines_joinLines (fun body mem => (fits body mem).1) fun body mem => (fits body mem).2,
    loadLines_records valid]

end GpgpuSim.Functional
