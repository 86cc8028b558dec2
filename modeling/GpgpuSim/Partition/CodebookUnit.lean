import GpgpuSim.Huffman.Compressor
import GpgpuSim.Memory.MemFetch
import GpgpuSim.Transition.Fallible

/-! The part of a memory partition that samples symbols, builds the codebook and
rebuilds it while the partition runs. -/
namespace GpgpuSim.Partition
open GpgpuSim.Huffman GpgpuSim.Memory Transition

def mag : Nat := 32
def memoryRequestSize : Nat := 128
def samplingSymbolsPerRequest : Nat := 64
def samplingFifoCapacity : Nat := 1024
def samplingSymbolUpdatesPerCycle : Nat := 4
def huffmanSymbolLength : Nat := 16
def huffmanTableSize : Nat := 256
def codebookRebuildDelay : Nat := huffmanTableSize * 2 + 22
def dynamicUpdateFlag : Bool := true
def dynamicUpdateInterval : Nat := 5000
def samplingDuration : Nat := 15000
def selectedCodebookBuildMethod : CodebookBuildMethod := .shannon
def snapshotTopEntries : Nat := 10

structure CompressionStats where
  totalCompressionRequests : Nat := 0
  totalRawCompressionRatio : ℚ := 0
  totalEffectiveCompressionRatio : ℚ := 0

/-- The running averages. -/
def CompressionStats.updateStats (stats : CompressionStats) (raw effective : ℚ) : CompressionStats where
  totalCompressionRequests := stats.totalCompressionRequests + 1
  totalRawCompressionRatio :=
    (stats.totalRawCompressionRatio * stats.totalCompressionRequests + raw) /
      (stats.totalCompressionRequests + 1)
  totalEffectiveCompressionRatio :=
    (stats.totalEffectiveCompressionRatio * stats.totalCompressionRequests + effective) /
      (stats.totalCompressionRequests + 1)

structure IntervalCodebookSnapshot where
  cycle : Nat
  symbolLengthBits : Nat
  totalFrequency : Nat
  uniqueSymbols : Nat
  topEntries : List (Nat × Nat)

structure PendingCodebookRebuild where
  active : Bool := false
  startCycle : Nat := 0
  readyCycle : Nat := 0
  method : CodebookBuildMethod := .huffman
  deriving DecidableEq, Repr

structure CodebookUnit where
  codebook : HuffmanCodebook
  huffmanEnabled : Bool := false
  pendingRebuild : PendingCodebookRebuild := {}
  samplingSymbolFifo : List Nat := []
  compressionStats : CompressionStats := {}
  intervalCompressionStats : List CompressionStats := []
  intervalCodebookSnapshots : List IntervalCodebookSnapshot := []
  cycleHuffmanGenerated : Nat := 0

/-- The global memory a cycle reads. -/
abbrev GlobalMemory := Nat → UInt8

def readMemory (memory : GlobalMemory) (addr size : Nat) : List UInt8 :=
  (List.range size).map fun i => memory (addr + i)

namespace CodebookUnit

/-- `HUFFMAN_TABLE_SIZE * 1.2` is 307 as a `size_t`. -/
def create : CodebookUnit where
  codebook :=
    { codes := ∅
      maxCodeLength := 0
      mag := mag
      freqTable := ⟨∅, 307, huffmanTableSize, huffmanSymbolLength, by decide⟩ }

def samplingEnabled (cycle : Nat) : Bool := decide (cycle < samplingDuration) || dynamicUpdateFlag

def captureIntervalCodebookSnapshot (choices : Choices) (unit : CodebookUnit) (cycle : Nat) :
    CodebookUnit :=
  let table := unit.codebook.freqTable
  { unit with
    intervalCodebookSnapshots := unit.intervalCodebookSnapshots ++
      [{ cycle
         symbolLengthBits := table.symbolLength
         totalFrequency := table.getTotalFrequency
         uniqueSymbols := table.size
         topEntries := (table.getTopFrequencies choices.descending).take snapshotTopEntries }] }

def startNewInterval (choices : Choices) (unit : CodebookUnit) (cycle : Nat)
    (captureCodebookSnapshot : Bool) : CodebookUnit :=
  let started := { unit with intervalCompressionStats := unit.intervalCompressionStats ++ [{}] }
  if captureCodebookSnapshot then started.captureIntervalCodebookSnapshot choices cycle else started

def startDynamicCodebookRebuild (unit : CodebookUnit) (cycle : Nat) (method : CodebookBuildMethod) :
    CodebookUnit × Bool :=
  if unit.pendingRebuild.active then (unit, false)
  else
    let pending := { active := true, startCycle := cycle, readyCycle := cycle + codebookRebuildDelay, method }
    ({ unit with pendingRebuild := pending }, true)

def rebuildCodebookAndAgeSamples (choices : Choices) (fp : FloatArithmetic) (unit : CodebookUnit)
    (cycle : Nat) (method : CodebookBuildMethod) : Except LengthFault (CodebookUnit × Bool) := do
  let (codebook, codeCount) ← unit.codebook.generateCodebook choices fp method
  let built := { unit with codebook }
  if codeCount = 0 then return (built, false)
  let started := built.startNewInterval choices cycle true
  let aged := { started.codebook with freqTable := started.codebook.freqTable.scaleDown 2 }
  return ({ started with codebook := aged }, true)

def completeDynamicCodebookRebuildIfReady (choices : Choices) (fp : FloatArithmetic)
    (unit : CodebookUnit) (currentCycle : Nat) : Except LengthFault CodebookUnit := do
  if !unit.pendingRebuild.active || decide (currentCycle < unit.pendingRebuild.readyCycle) then
    return unit
  let (rebuilt, done) ←
    unit.rebuildCodebookAndAgeSamples choices fp currentCycle unit.pendingRebuild.method
  let marked := if done then { rebuilt with cycleHuffmanGenerated := currentCycle % 2 ^ 32 } else rebuilt
  return { marked with pendingRebuild := { marked.pendingRebuild with active := false } }

def shouldSampleRequest (mf : Option MemFetch) : Bool :=
  match mf with
  | none => false
  | some request => request.isLineRead

/-- The loop over the sampled positions, spread evenly over the line. -/
def sampleLine (symbolLength available count : Nat) (data : List UInt8) (fifo : List Nat) : List Nat :=
  (List.range count).foldl (fun fifo i =>
    if fifo.length ≥ samplingFifoCapacity then fifo
    else
      let symbolIndex := (2 * i + 1) * available / (2 * count)
      let symbol :=
        extractSymbolFromBitstream data memoryRequestSize (symbolIndex * symbolLength) symbolLength
      fifo ++ [symbol.1]) fifo

def enqueueSampledSymbols (unit : CodebookUnit) (blockAddr : Nat → Nat) (memory : GlobalMemory)
    (cycle : Nat) (mf : Option MemFetch) : CodebookUnit :=
  if !samplingEnabled cycle || !shouldSampleRequest mf then unit
  else
    match mf with
    | none => unit
    | some request =>
        let symbolLength := unit.codebook.freqTable.symbolLength
        if symbolLength = 0 then unit
        else
          let data := readMemory memory (blockAddr request.addr) memoryRequestSize
          let available := memoryRequestSize * 8 / symbolLength
          let count := min samplingSymbolsPerRequest available
          { unit with
            samplingSymbolFifo := sampleLine symbolLength available count data unit.samplingSymbolFifo }

/-- At most `count` symbols go from the queue into the table. -/
def drainSamples (choices : Choices) : Nat → FrequencyValueTable → List Nat → FrequencyValueTable × List Nat
  | 0, table, fifo => (table, fifo)
  | _, table, [] => (table, [])
  | count + 1, table, symbol :: fifo =>
      drainSamples choices count (table.updateFrequency choices.ascending symbol).1 fifo

def samplingCycle (choices : Choices) (unit : CodebookUnit) : CodebookUnit :=
  if unit.pendingRebuild.active then unit
  else
    let (freqTable, samplingSymbolFifo) :=
      drainSamples choices samplingSymbolUpdatesPerCycle unit.codebook.freqTable unit.samplingSymbolFifo
    { unit with codebook := { unit.codebook with freqTable }, samplingSymbolFifo }

/-- An interval boundary starts a rebuild once the codebook is enabled. -/
def startAtBoundary (unit : CodebookUnit) (currentCycle : Nat) : CodebookUnit × Bool :=
  let inCompressionPhase := decide (currentCycle ≥ samplingDuration)
  let reachedIntervalBoundary :=
    inCompressionPhase && (currentCycle - samplingDuration) % dynamicUpdateInterval == 0
  if dynamicUpdateFlag && unit.huffmanEnabled && reachedIntervalBoundary then
    unit.startDynamicCodebookRebuild currentCycle selectedCodebookBuildMethod
  else (unit, false)

/-- The first lines of a cycle: a rebuild may start, a due one is completed, and
sampled symbols are counted. -/
def codebookCycle (choices : Choices) (fp : FloatArithmetic) (unit : CodebookUnit) (currentCycle : Nat) :
    Except LengthFault (CodebookUnit × Bool) := do
  let completed ←
    (unit.startAtBoundary currentCycle).1.completeDynamicCodebookRebuildIfReady choices fp currentCycle
  return (completed.samplingCycle choices, (unit.startAtBoundary currentCycle).2)

/-- The initial build, tried in every cycle of the compression phase until it succeeds. -/
def initialBuild (choices : Choices) (fp : FloatArithmetic) (unit : CodebookUnit) (currentCycle : Nat) :
    Except LengthFault CodebookUnit := do
  if unit.huffmanEnabled then return unit
  let (built, done) ← unit.rebuildCodebookAndAgeSamples choices fp currentCycle selectedCodebookBuildMethod
  if done then
    return { built with huffmanEnabled := true, cycleHuffmanGenerated := currentCycle % 2 ^ 32 }
  else return built

/-- The statistics after a compressed block: there is nothing to update at the
back of an empty list of intervals. -/
def updateStats (unit : CodebookUnit) (outcome : CompressOutcome) : Option CodebookUnit :=
  match unit.intervalCompressionStats.getLast? with
  | none => none
  | some current =>
      let raw := outcome.rawCompressionRatio
      let effective := outcome.effectiveCompressionRatio
      some { unit with
        compressionStats := unit.compressionStats.updateStats raw effective
        intervalCompressionStats :=
          unit.intervalCompressionStats.dropLast ++ [current.updateStats raw effective] }

end CodebookUnit

end GpgpuSim.Partition
