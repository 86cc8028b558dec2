import GpgpuSim.Huffman.Codebook

/-! The compressor of a codebook: symbols of a data block, most significant bit
first, and the size of their encoding in memory access granules. Ratios are exact
quotients where the source divides `double`s. -/
namespace GpgpuSim.Huffman

structure CompressOutcome where
  rawCompressedSizeBits : Nat
  rawCompressionRatio : ℚ
  magCompressedSizeBytes : Nat
  burstSize : Nat
  effectiveCompressionRatio : ℚ
  deriving DecidableEq, Repr

/-- `data[pos / 8] & (1 << (7 - pos % 8))`. -/
def bitAt (data : List UInt8) (pos : Nat) : Bool := ((data.getD (pos / 8) 0).toNat).testBit (7 - pos % 8)

/-- The loop over the bits of a symbol, with `remaining` bits to go: the symbol
and the position after it. -/
def extractBits (data : List UInt8) (size : Nat) : Nat → Nat → Nat → Nat × Nat
  | 0, bitPos, symbol => (symbol, bitPos)
  | remaining + 1, bitPos, symbol =>
      -- past the end of the data the rest of the symbol is skipped
      if size ≤ bitPos / 8 then (symbol, bitPos + (remaining + 1))
      else
        let symbol := if bitAt data bitPos then symbol ||| 1 <<< remaining else symbol
        extractBits data size remaining (bitPos + 1) symbol

def extractSymbolFromBitstream (data : List UInt8) (size bitPos symbolLength : Nat) : Nat × Nat :=
  extractBits data size symbolLength bitPos 0

/-- The loop over the symbols of a block. -/
def extractFrom (data : List UInt8) (size symbolLength : Nat) : Nat → Nat → List Nat
  | 0, _ => []
  | count + 1, bitPos =>
      let (symbol, bitPos) := extractSymbolFromBitstream data size bitPos symbolLength
      symbol :: extractFrom data size symbolLength count bitPos

namespace HuffmanCodebook

/-- A null pointer gives no symbols. -/
def extractSymbols (codebook : HuffmanCodebook) (data : Option (List UInt8)) (size : Nat) : List Nat :=
  match data with
  | none => []
  | some data =>
      let symbolLength := codebook.freqTable.symbolLength
      extractFrom data size symbolLength (size * 8 / symbolLength) 0

/-- The bits of one symbol: its code, or the symbol itself when it has none. -/
def encodedBits (codebook : HuffmanCodebook) (symbol : Nat) : Nat :=
  if codebook.hasCode symbol then codebook.getCodeLength symbol else codebook.freqTable.symbolLength

def compressDataBlock (codebook : HuffmanCodebook) (data : Option (List UInt8)) (size : Nat) :
    CompressOutcome :=
  let mag := codebook.mag
  if codebook.size = 0 ∨ data.isNone then
    { rawCompressedSizeBits := size * 8
      rawCompressionRatio := 1
      magCompressedSizeBytes := size
      burstSize := (size + mag - 1) / mag
      effectiveCompressionRatio := 1 }
  else
    let symbols := codebook.extractSymbols data size
    -- one more bit for each symbol tells a code from a literal
    let compressedSizeBits := (symbols.map codebook.encodedBits).sum + symbols.length
    let compressedSizeBytes := (compressedSizeBits + 7) / 8
    let magCompressedSizeBytes := (compressedSizeBytes + mag - 1) / mag * mag
    let burstSize := magCompressedSizeBytes / mag
    if burstSize > 3 then
      { rawCompressedSizeBits := size * 8
        rawCompressionRatio := 1
        magCompressedSizeBytes := 4 * mag
        burstSize := 4
        effectiveCompressionRatio := 1 }
    else
      { rawCompressedSizeBits := compressedSizeBits
        rawCompressionRatio :=
          if compressedSizeBits > 0 then (size * 8 : ℚ) / compressedSizeBits else 1
        magCompressedSizeBytes
        burstSize
        effectiveCompressionRatio :=
          if magCompressedSizeBytes > 0 then (size : ℚ) / magCompressedSizeBytes else 1 }

def compressBlock (codebook : HuffmanCodebook) (data : Option (List UInt8)) (size : Nat) :
    CompressOutcome :=
  codebook.compressDataBlock data size

end HuffmanCodebook

end GpgpuSim.Huffman
