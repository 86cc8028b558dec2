import GpgpuSim.Huffman.BlockSymbols
import GpgpuSim.Partition.Schedules

/-! The symbols that are sampled from a line. They are symbols of the line as the compressor and
the frequency table divide it, at evenly spread indices. -/
namespace GpgpuSim.Partition.CodebookUnit
open GpgpuSim.Huffman GpgpuSim.Memory Coding Containers

variable {symbolLength count : Nat} {data : List UInt8}

/-- A sampled position is an index of the sequence of symbols, and the loop reads the symbol at this index. -/
theorem getElem?_of_mem_spreadPositions {p size : Nat} (fits : count ≤ size * 8 / symbolLength)
    (member : p ∈ spreadPositions (size * 8 / symbolLength) count) :
    (extractFrom data size symbolLength (size * 8 / symbolLength) 0)[p]? =
      some (extractSymbolFromBitstream data size (p * symbolLength) symbolLength).1 := by
  rw [getElem?_extractFrom (lt_of_mem_spreadPositions fits member), Nat.zero_add]

/-- Sampling a line is sampling the sequence of its symbols. -/
theorem sampleLine_symbols (long : data.length = memoryRequestSize)
    (fits : count ≤ data.length * 8 / symbolLength) (fifo : List Nat) :
    sampleLine symbolLength (data.length * 8 / symbolLength) count data fifo =
      fifo ++ ((spreadPositions (data.length * 8 / symbolLength) count).map fun p =>
        (extractFrom data data.length symbolLength (data.length * 8 / symbolLength) 0).getD p 0).take
          (samplingFifoCapacity - fifo.length) := by
  have read : (spreadPositions (data.length * 8 / symbolLength) count).map (fun p =>
      (extractSymbolFromBitstream data memoryRequestSize (p * symbolLength) symbolLength).1) =
        (spreadPositions (data.length * 8 / symbolLength) count).map fun p =>
          (extractFrom data data.length symbolLength (data.length * 8 / symbolLength) 0).getD p 0 := by
    apply List.map_congr_left
    intro p member
    rw [List.getD_eq_getElem?_getD, getElem?_of_mem_spreadPositions fits member, Option.getD_some, long]
  rw [sampleLine_eq, read]

theorem length_readMemory (memory : GlobalMemory) (addr size : Nat) :
    (readMemory memory addr size).length = size := by
  rw [readMemory, List.length_map, List.length_range]

/-- A sampled request puts symbols of its line into the queue. -/
theorem enqueueSampledSymbols_symbols (unit : CodebookUnit) (blockAddr : Nat → Nat) (memory : GlobalMemory)
    (cycle : Nat) (request : MemFetch) (some_bits : unit.codebook.freqTable.symbolLength ≠ 0)
    (sampled : shouldSampleRequest (some request) = true) :
    let data := readMemory memory (blockAddr request.addr) memoryRequestSize
    let symbols := unit.codebook.extractSymbols (some data) memoryRequestSize
    unit.enqueueSampledSymbols blockAddr memory cycle (some request) =
      { unit with samplingSymbolFifo := unit.samplingSymbolFifo ++
          ((spreadPositions symbols.length (min samplingSymbolsPerRequest symbols.length)).map fun p =>
            symbols.getD p 0).take (samplingFifoCapacity - unit.samplingSymbolFifo.length) } := by
  intro data symbols
  have long : data.length = memoryRequestSize := length_readMemory memory _ _
  have total : symbols.length = data.length * 8 / unit.codebook.freqTable.symbolLength := by
    rw [long]
    exact length_extractFrom
  have enabled : samplingEnabled cycle = true := Bool.or_true _
  have line := sampleLine_symbols long
    (min_le_right samplingSymbolsPerRequest (data.length * 8 / unit.codebook.freqTable.symbolLength))
    unit.samplingSymbolFifo
  rw [enqueueSampledSymbols, enabled, sampled, total]
  simp only [Bool.not_true, Bool.or_false, Bool.false_eq_true, if_false, some_bits]
  rw [long] at line ⊢
  rw [line]
  rfl

/-- For blocks of all sizes and symbols of all lengths the compressor reads the complete symbols of the
block, the frequency table counts the same sequence, and sampling reads it at evenly spread indices. -/
theorem block_symbols_agree (codebook : HuffmanCodebook) (some_bits : 0 < codebook.freqTable.symbolLength) :
    let symbolLength := codebook.freqTable.symbolLength
    (∀ data : List UInt8,
      let available := data.length * 8 / symbolLength
      let symbols := codebook.extractSymbols (some data) data.length
      symbols.length = available ∧
      (∀ s ∈ symbols, s < 2 ^ symbolLength) ∧
      spelling symbolLength symbols = (blockBits data).take (symbolLength * available) ∧
      (∀ (ascending : Sorter lessFrequent) (table : FrequencyValueTable), table.symbolLength = symbolLength →
        table.processDataBlock ascending (some data) data.length =
          { table := table.updateAll ascending symbols, symbolsProcessed := available, updated := symbols }) ∧
      ∀ count ≤ available,
        (spreadPositions available count).Nodup ∧
        (∀ p ∈ spreadPositions available count, p < available ∧
          symbols[p]? = some (extractSymbolFromBitstream data data.length (p * symbolLength) symbolLength).1) ∧
        (data.length = memoryRequestSize → ∀ fifo, sampleLine symbolLength available count data fifo =
          fifo ++ ((spreadPositions available count).map fun p => symbols.getD p 0).take
            (samplingFifoCapacity - fifo.length))) ∧
    ∀ (unit : CodebookUnit) (blockAddr : Nat → Nat) (memory : GlobalMemory) (cycle : Nat) (request : MemFetch),
      unit.codebook = codebook → shouldSampleRequest (some request) = true →
      let symbols :=
        codebook.extractSymbols (some (readMemory memory (blockAddr request.addr) memoryRequestSize)) memoryRequestSize
      unit.enqueueSampledSymbols blockAddr memory cycle (some request) =
        { unit with samplingSymbolFifo := unit.samplingSymbolFifo ++
            ((spreadPositions symbols.length (min samplingSymbolsPerRequest symbols.length)).map fun p =>
              symbols.getD p 0).take (samplingFifoCapacity - unit.samplingSymbolFifo.length) } := by
  intro symbolLength
  constructor
  · intro data available symbols
    have inside : available * symbolLength ≤ data.length * 8 := Nat.div_mul_le_self _ _
    refine ⟨length_extractFrom, extractFrom_lt (by rwa [Nat.zero_add]), spelling_extractFrom inside, ?_, ?_⟩
    · intro ascending table same
      rw [FrequencyValueTable.processDataBlock_eq, same]
      rfl
    · intro count fits
      refine ⟨spreadPositions_nodup fits, ?_, fun long fifo => sampleLine_symbols long fits fifo⟩
      intro p member
      exact ⟨lt_of_mem_spreadPositions fits member, getElem?_of_mem_spreadPositions fits member⟩
  · intro unit blockAddr memory cycle request same sampled
    subst same
    exact enqueueSampledSymbols_symbols unit blockAddr memory cycle request some_bits.ne' sampled

/-- Symbols of twelve bits, every other one of which begins inside a byte. -/
def twelveBits : HuffmanCodebook :=
  { create.codebook with freqTable := ⟨∅, 307, huffmanTableSize, 12, by decide⟩ }

theorem block_symbols_agree_twelveBits :
    spelling 12 [0x123, 0x456] = (blockBits [0x12, 0x34, 0x56, 0x78]).take 24 ∧
    (twelveBits.freqTable.processDataBlock Choices.stable.ascending (some [0x12, 0x34, 0x56, 0x78]) 4).updated =
      [0x123, 0x456] ∧
    (spreadPositions 2 2).Nodup ∧
    (enqueueSampledSymbols { create with codebook := twelveBits } id (fun addr => UInt8.ofNat addr) 0
      (some (MemoryPartitionUnit.plainRequest .globalAccR 0 128))).samplingSymbolFifo.length = 64 := by
  have symbols : twelveBits.extractSymbols (some [0x12, 0x34, 0x56, 0x78]) 4 = [0x123, 0x456] := by decide
  obtain ⟨blocks, requests⟩ := block_symbols_agree twelveBits (by decide)
  obtain ⟨-, -, spelled, counted, positions⟩ := blocks [0x12, 0x34, 0x56, 0x78]
  have sampled := requests { create with codebook := twelveBits } id (fun addr => UInt8.ofNat addr) 0
    (MemoryPartitionUnit.plainRequest .globalAccR 0 128) rfl (by decide)
  refine ⟨symbols ▸ spelled, ?_, (positions 2 (by decide)).1, ?_⟩
  · exact (congrArg FrequencyValueTable.BlockRun.updated (counted Choices.stable.ascending _ rfl)).trans symbols
  · have total : (twelveBits.extractSymbols (some (readMemory (fun addr => UInt8.ofNat addr) 0 memoryRequestSize))
        memoryRequestSize).length = 85 := length_extractFrom
    rw [sampled]
    dsimp only [MemoryPartitionUnit.plainRequest, id]
    rw [total]
    decide

end GpgpuSim.Partition.CodebookUnit
