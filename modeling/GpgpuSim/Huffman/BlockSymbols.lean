import GpgpuSim.Coding.Spelling
import GpgpuSim.Huffman.Encoding

/-! The symbols of a block. The frequency table has a bit loop of its own, which reads the
symbols that the compressor reads; spelled out they are the bits of the block. -/
namespace GpgpuSim.Huffman
open Coding Containers

namespace FrequencyValueTable

/-- The loop over `j`, with its remaining values. -/
def extractBits (table : FrequencyValueTable) (data : List UInt8) (size : Nat) : List Nat → Nat → Nat → Nat × Nat
  | [], bitPos, symbol => (symbol, bitPos)
  | j :: later, bitPos, symbol =>
      -- past the end of the data the rest of the symbol is skipped
      if bitPos / 8 ≥ size then (symbol, bitPos + (table.symbolLength - j))
      else
        let symbol := if bitAt data bitPos then symbol ||| 1 <<< (table.symbolLength - 1 - j) else symbol
        table.extractBits data size later (bitPos + 1) symbol

def extractSymbolFromBitstream (table : FrequencyValueTable) (data : List UInt8) (size bitPos : Nat) : Nat × Nat :=
  table.extractBits data size (List.range table.symbolLength) bitPos 0

/-- The locals of `process_data_block` with the table, and a record of the symbols that
`update_frequency` was called with, in the order of the calls. -/
structure BlockRun where
  table : FrequencyValueTable
  symbolsProcessed : Nat := 0
  updated : List Nat := []

def BlockRun.update (ascending : Sorter lessFrequent) (run : BlockRun) (symbol : Nat) : BlockRun where
  table := (run.table.updateFrequency ascending symbol).1
  symbolsProcessed := run.symbolsProcessed + 1
  updated := run.updated ++ [symbol]

/-- The loop over the symbols of a block. -/
def processSymbols (ascending : Sorter lessFrequent) (data : List UInt8) (size : Nat) : Nat → Nat → BlockRun → BlockRun
  | 0, _, run => run
  | count + 1, bitPos, run =>
      let (symbol, bitPos) := run.table.extractSymbolFromBitstream data size bitPos
      processSymbols ascending data size count bitPos (run.update ascending symbol)

/-- A null pointer leaves the table alone. Bits that do not fill a symbol only print a warning. -/
def processDataBlock (ascending : Sorter lessFrequent) (table : FrequencyValueTable) (data : Option (List UInt8))
    (size : Nat) : BlockRun :=
  match data with
  | none => { table }
  | some data => processSymbols ascending data size (size * 8 / table.symbolLength) 0 { table }

end FrequencyValueTable

variable {data : List UInt8} {size remaining bitPos symbol symbolLength count p : Nat}

/-! ## The two bit loops -/

/-- Counting up to the length sets the bits that counting down from it sets. -/
theorem FrequencyValueTable.extractBits_eq (table : FrequencyValueTable) (fits : remaining ≤ table.symbolLength) :
    table.extractBits data size (List.range' (table.symbolLength - remaining) remaining) bitPos symbol =
      Huffman.extractBits data size remaining bitPos symbol := by
  induction remaining generalizing bitPos symbol with
  | zero => rfl
  | succ remaining ih =>
      have place : table.symbolLength - 1 - (table.symbolLength - (remaining + 1)) = remaining := by omega
      have left : table.symbolLength - (table.symbolLength - (remaining + 1)) = remaining + 1 := by omega
      have next : table.symbolLength - (remaining + 1) + 1 = table.symbolLength - remaining := by omega
      rw [List.range'_succ, FrequencyValueTable.extractBits, Huffman.extractBits, place, left, next]
      split
      · rfl
      · exact ih (Nat.le_of_succ_le fits)

theorem FrequencyValueTable.extractSymbolFromBitstream_eq (table : FrequencyValueTable) :
    table.extractSymbolFromBitstream data size bitPos =
      Huffman.extractSymbolFromBitstream data size bitPos table.symbolLength := by
  have whole := @table.extractBits_eq data size table.symbolLength bitPos 0 (Nat.le_refl _)
  rwa [Nat.sub_self, ← List.range_eq_range'] at whole

/-! ## The loops over the symbols -/

/-- A symbol of the block is the one at its own bit position. -/
theorem getElem?_extractFrom (inside : p < count) : (extractFrom data size symbolLength count bitPos)[p]? =
    some (extractSymbolFromBitstream data size (bitPos + p * symbolLength) symbolLength).1 := by
  induction count generalizing bitPos p with
  | zero => exact absurd inside (Nat.not_lt_zero p)
  | succ count ih =>
      rw [extractFrom_succ]
      cases p with
      | zero => rw [List.getElem?_cons_zero, Nat.zero_mul, Nat.add_zero]
      | succ p =>
          have place : bitPos + symbolLength + p * symbolLength = bitPos + (p + 1) * symbolLength := by
            rw [Nat.succ_mul]
            omega
          rw [List.getElem?_cons_succ, ih (Nat.lt_of_succ_lt_succ inside), place]

/-- The table after `update_frequency` of each of these symbols in turn. -/
def FrequencyValueTable.updateAll (ascending : Sorter lessFrequent) (table : FrequencyValueTable)
    (symbols : List Nat) : FrequencyValueTable :=
  symbols.foldl (fun table symbol => (table.updateFrequency ascending symbol).1) table

theorem FrequencyValueTable.processSymbols_succ (ascending : Sorter lessFrequent) (run : BlockRun) :
    processSymbols ascending data size (count + 1) bitPos run =
      processSymbols ascending data size count (bitPos + run.table.symbolLength)
        (run.update ascending
          (Huffman.extractSymbolFromBitstream data size bitPos run.table.symbolLength).1) := by
  simp only [processSymbols, extractSymbolFromBitstream_eq, position_extractSymbol]

/-- The table counts the symbols that the compressor extracts, one after another. -/
theorem FrequencyValueTable.processSymbols_eq (ascending : Sorter lessFrequent) (run : BlockRun) :
    processSymbols ascending data size count bitPos run =
      { table := run.table.updateAll ascending (extractFrom data size run.table.symbolLength count bitPos)
        symbolsProcessed := run.symbolsProcessed + count
        updated := run.updated ++ extractFrom data size run.table.symbolLength count bitPos } := by
  induction count generalizing bitPos run with
  | zero => rw [extractFrom, List.append_nil]; rfl
  | succ count ih =>
      have kept (symbol : Nat) : (run.update ascending symbol).table.symbolLength = run.table.symbolLength :=
        symbolLength_update ascending symbol 1
      rw [processSymbols_succ, ih, kept, extractFrom_succ]
      simp only [BlockRun.update, updateAll, List.foldl_cons, List.append_assoc, List.singleton_append,
        BlockRun.mk.injEq, true_and, and_true]
      omega

theorem FrequencyValueTable.processDataBlock_eq (ascending : Sorter lessFrequent) (table : FrequencyValueTable)
    (data : List UInt8) (size : Nat) :
    table.processDataBlock ascending (some data) size =
      { table := table.updateAll ascending
          (extractFrom data size table.symbolLength (size * 8 / table.symbolLength) 0)
        symbolsProcessed := size * 8 / table.symbolLength
        updated := extractFrom data size table.symbolLength (size * 8 / table.symbolLength) 0 } := by
  rw [processDataBlock, processSymbols_eq, Nat.zero_add, List.nil_append]

/-! ## The bits of a block -/

/-- The bits of the bytes in their order, the most significant bit of a byte first. -/
def blockBits (data : List UInt8) : List Bool := spelling 8 (data.map UInt8.toNat)

theorem bitAt_eq (data : List UInt8) (p : Nat) :
    ((data.map UInt8.toNat).getD (p / 8) 0).testBit (8 - 1 - p % 8) = bitAt data p := by
  have byte : (data.map UInt8.toNat).getD (p / 8) 0 = (data.getD (p / 8) 0).toNat :=
    List.getD_map data 0 UInt8.toNat
  rw [byte, bitAt]

/-- Symbols of any length spell the bits of the block that they cover. -/
theorem spelling_extractFrom (inside : count * symbolLength ≤ data.length * 8) :
    spelling symbolLength (extractFrom data data.length symbolLength count 0) =
      (blockBits data).take (symbolLength * count) := by
  have long : (extractFrom data data.length symbolLength count 0).length = count := length_extractFrom
  have fits : symbolLength * count ≤ 8 * data.length := by rwa [Nat.mul_comm, Nat.mul_comm 8]
  rw [blockBits, spelling_eq_take, long]
  · rwa [long, List.length_map]
  · intro p covered
    rw [long] at covered
    have positive : 0 < symbolLength := Nat.pos_of_mul_pos_right (Nat.zero_lt_of_lt covered)
    have within : p / symbolLength < count := Nat.div_lt_of_lt_mul covered
    have whole := Nat.div_add_mod' p symbolLength
    have low := Nat.mod_lt p positive
    have room : p / symbolLength * symbolLength + symbolLength ≤ data.length * 8 := by
      calc p / symbolLength * symbolLength + symbolLength = (p / symbolLength + 1) * symbolLength :=
            (Nat.succ_mul _ _).symm
        _ ≤ count * symbolLength := Nat.mul_le_mul_right _ within
        _ ≤ data.length * 8 := inside
    have place : p / symbolLength * symbolLength + (symbolLength - 1 - (symbolLength - 1 - p % symbolLength)) = p := by
      omega
    rw [bitAt_eq, List.getD_eq_getElem?_getD, getElem?_extractFrom within, Option.getD_some, Nat.zero_add,
      testBit_extractSymbol room, place, decide_eq_true (by omega), Bool.true_and]

end GpgpuSim.Huffman
