import GpgpuSim.Huffman.BuildOutcome
import GpgpuSim.Huffman.Compressor

/-! The string behind the size of a compressed block: a flag for each symbol, then
its code or the symbol itself. The block can be read back from it. -/
namespace GpgpuSim.Huffman
open Coding Containers Transition

/-! ## Symbols of a block -/

variable {data other : List UInt8} {size remaining bitPos symbol symbolLength count : Nat}

/-- The position moves by the length of a symbol, also past the end of the data. -/
theorem position_extractBits : (extractBits data size remaining bitPos symbol).2 = bitPos + remaining := by
  induction remaining generalizing bitPos symbol with
  | zero => rfl
  | succ remaining ih =>
      rw [extractBits]
      split
      · rfl
      · exact ih.trans (by omega)

theorem position_extractSymbol :
    (extractSymbolFromBitstream data size bitPos symbolLength).2 = bitPos + symbolLength := position_extractBits

/-- The loop sets the bits below `remaining` to the bits of the block, the first one on top. -/
theorem testBit_extractBits (inside : bitPos + remaining ≤ size * 8) (j : Nat) :
    (extractBits data size remaining bitPos symbol).1.testBit j =
      (symbol.testBit j || (decide (j < remaining) && bitAt data (bitPos + (remaining - 1 - j)))) := by
  induction remaining generalizing bitPos symbol with
  | zero => simp [extractBits]
  | succ remaining ih =>
      have within : ¬ size ≤ bitPos / 8 := by omega
      have inside' : bitPos + 1 + remaining ≤ size * 8 := by omega
      have added : (if bitAt data bitPos then symbol ||| 1 <<< remaining else symbol).testBit j =
          (symbol.testBit j || (decide (j = remaining) && bitAt data bitPos)) := by
        by_cases one : bitAt data bitPos
        · by_cases top : j = remaining
          · simp [one, top]
          · have shifted : (1 <<< remaining).testBit j = false := by
              rw [Nat.one_shiftLeft]
              exact Nat.testBit_two_pow_of_ne (Ne.symm top)
            simp [one, top, shifted]
        · simp [one]
      simp only [extractBits, if_neg within]
      rw [ih inside', added]
      rcases Nat.lt_trichotomy j remaining with low | rfl | high
      · have place : bitPos + 1 + (remaining - 1 - j) = bitPos + (remaining + 1 - 1 - j) := by omega
        simp [low, Nat.lt_succ_of_lt low, low.ne, place]
      · simp
      · simp [high.ne', Nat.not_lt.mpr high.le, Nat.not_lt.mpr (show remaining + 1 ≤ j by omega)]

/-- A symbol of the bitstream, bit by bit. -/
theorem testBit_extractSymbol (inside : bitPos + symbolLength ≤ size * 8) (j : Nat) :
    (extractSymbolFromBitstream data size bitPos symbolLength).1.testBit j =
      (decide (j < symbolLength) && bitAt data (bitPos + (symbolLength - 1 - j))) := by
  rw [extractSymbolFromBitstream, testBit_extractBits inside, Nat.zero_testBit, Bool.false_or]

theorem extractFrom_succ : extractFrom data size symbolLength (count + 1) bitPos =
    (extractSymbolFromBitstream data size bitPos symbolLength).1 ::
      extractFrom data size symbolLength count (bitPos + symbolLength) := by
  simp only [extractFrom, position_extractSymbol]

theorem length_extractFrom : (extractFrom data size symbolLength count bitPos).length = count := by
  induction count generalizing bitPos with
  | zero => rfl
  | succ count ih => rw [extractFrom_succ, List.length_cons, ih]

theorem extractFrom_lt (inside : bitPos + count * symbolLength ≤ size * 8) :
    ∀ s ∈ extractFrom data size symbolLength count bitPos, s < 2 ^ symbolLength := by
  induction count generalizing bitPos with
  | zero => simp [extractFrom]
  | succ count ih =>
      rw [Nat.succ_mul] at inside
      have room : bitPos + symbolLength ≤ size * 8 := by omega
      rw [extractFrom_succ]
      refine List.forall_mem_cons.mpr ⟨?_, ih (by omega)⟩
      apply Nat.lt_pow_two_of_testBit
      intro j high
      rw [testBit_extractSymbol room, decide_eq_false (Nat.not_lt.mpr high), Bool.false_and]

/-- Equal symbols come from equal bits. -/
theorem bitAt_of_extractFrom (inside : bitPos + count * symbolLength ≤ size * 8)
    (same : extractFrom data size symbolLength count bitPos = extractFrom other size symbolLength count bitPos) :
    ∀ p, bitPos ≤ p → p < bitPos + count * symbolLength → bitAt data p = bitAt other p := by
  induction count generalizing bitPos with
  | zero => intro p lower upper; omega
  | succ count ih =>
      rw [Nat.succ_mul] at inside
      have room : bitPos + symbolLength ≤ size * 8 := by omega
      rw [extractFrom_succ, extractFrom_succ, List.cons.injEq] at same
      intro p lower upper
      rw [Nat.succ_mul] at upper
      by_cases first : p < bitPos + symbolLength
      · have bit := congrArg (fun s => s.testBit (symbolLength - 1 - (p - bitPos))) same.1
        have small : symbolLength - 1 - (p - bitPos) < symbolLength := by omega
        have place : bitPos + (symbolLength - 1 - (symbolLength - 1 - (p - bitPos))) = p := by omega
        simpa only [testBit_extractSymbol room, small, decide_true, Bool.true_and, place] using bit
      · exact ih (by omega) same.2 p (by omega) (by omega)

theorem eq_of_bitAt (long : data.length = other.length)
    (bits : ∀ p < data.length * 8, bitAt data p = bitAt other p) : data = other := by
  refine List.ext_getElem long ?_
  intro i small small'
  refine UInt8.toNat.inj (Nat.eq_of_testBit_eq ?_)
  intro j
  by_cases low : j < 8
  · have bit := bits (8 * i + (7 - j)) (by omega)
    have byte : (8 * i + (7 - j)) / 8 = i := by omega
    have place : 7 - (8 * i + (7 - j)) % 8 = j := by omega
    simpa only [bitAt, byte, place, List.getD_eq_getElem _ _ small, List.getD_eq_getElem _ _ small'] using bit
  · have bound : ∀ x : UInt8, x.toNat.testBit j = false := by
      intro x
      refine Nat.testBit_eq_false_of_lt (x.toNat_lt.trans_le ?_)
      exact Nat.pow_le_pow_right (by decide) (Nat.le_of_not_lt low)
    rw [bound, bound]

namespace HuffmanCodebook

/-- `compressed_size_bits` of `compress_data_block`, before the limit on the bursts. -/
def compressedSizeBits (codebook : HuffmanCodebook) (data : List UInt8) : Nat :=
  let symbols := codebook.extractSymbols (some data) data.length
  (symbols.map codebook.encodedBits).sum + symbols.length

/-- A flag, then the code of the symbol or the symbol itself. -/
def symbolBits (codebook : HuffmanCodebook) (symbol : Nat) : List Bool :=
  if codebook.hasCode symbol then true :: codebook.getCodeBits symbol
  else false :: word symbol codebook.freqTable.symbolLength

def encode (codebook : HuffmanCodebook) (data : List UInt8) : List Bool :=
  (codebook.extractSymbols (some data) data.length).flatMap codebook.symbolBits

variable {codebook built : HuffmanCodebook} {symbols : List Nat} {s t : Nat}

theorem IsPrefixCode.length_symbolBits (prefixCode : IsPrefixCode codebook symbols) :
    (codebook.symbolBits s).length = codebook.encodedBits s + 1 := by
  by_cases coded : codebook.hasCode s
  · obtain ⟨entry, stored⟩ := Option.isSome_iff_exists.mp coded
    have consistent := prefixCode.lengths (s, entry) (AList.mem_pairs.mpr stored)
    simp only [symbolBits, encodedBits, getCodeBits, getCodeLength, coded, if_true, stored, List.length_cons]
    rw [consistent]
  · simp only [symbolBits, encodedBits, coded, Bool.false_eq_true, if_false, List.length_cons]
    simp [word]

theorem IsPrefixCode.length_encode (prefixCode : IsPrefixCode codebook symbols) :
    (codebook.encode data).length = codebook.compressedSizeBits data := by
  simp only [encode, compressedSizeBits, List.length_flatMap, prefixCode.length_symbolBits]
  induction codebook.extractSymbols (some data) data.length with
  | nil => rfl
  | cons s rest ih =>
      simp only [List.map_cons, List.sum_cons, List.length_cons, ih]
      omega

/-- The flags and the fixed length of literals extend the prefix code to all symbols. -/
theorem IsPrefixCode.symbolBits_free (prefixCode : IsPrefixCode codebook symbols)
    (small : s < 2 ^ codebook.freqTable.symbolLength) (small' : t < 2 ^ codebook.freqTable.symbolLength)
    (different : s ≠ t) : ¬ codebook.symbolBits s <+: codebook.symbolBits t := by
  by_cases coded : codebook.hasCode s
  · by_cases coded' : codebook.hasCode t
    · simp only [symbolBits, coded, coded', if_true, List.cons_prefix_cons, true_and]
      exact prefixCode.free s t coded coded' different
    · simp [symbolBits, coded, coded']
  · by_cases coded' : codebook.hasCode t
    · simp [symbolBits, coded, coded']
    · simp only [symbolBits, coded, coded', Bool.false_eq_true, if_false, List.cons_prefix_cons, true_and]
      intro below
      have same := eq_div_of_word_prefix small small' below
      simp only [Nat.sub_self, Nat.pow_zero, Nat.div_one] at same
      exact different same

/-- Blocks of the same size that encode alike are the same block. -/
theorem IsPrefixCode.encode_injOn (prefixCode : IsPrefixCode codebook symbols)
    (whole : codebook.freqTable.symbolLength ∣ data.length * 8) (long : data.length = other.length)
    (same : codebook.encode data = codebook.encode other) : data = other := by
  have count : data.length * 8 / codebook.freqTable.symbolLength * codebook.freqTable.symbolLength =
      data.length * 8 := Nat.div_mul_cancel whole
  simp only [encode, extractSymbols, ← long] at same
  have symbolsEq := flatMap_injOn (P := fun s => s < 2 ^ codebook.freqTable.symbolLength)
    (fun s t small small' different => prefixCode.symbolBits_free small small' different)
    (extractFrom_lt (by omega)) (extractFrom_lt (by omega))
    (by rw [length_extractFrom, length_extractFrom]) same
  refine eq_of_bitAt long ?_
  intro p small
  exact bitAt_of_extractFrom (by omega) symbolsEq p (Nat.zero_le p) (by omega)

variable {choices : Choices} {fp : FloatArithmetic} {method : CodebookBuildMethod} {count : Nat}

/-- Every build renumbers lengths of the top symbols; only Shannon lengths can be too short. -/
theorem generateCodebook_renumbers (done : codebook.generateCodebook choices fp method = .ok (built, count)) :
    ∃ assigned, Renumbers built assigned ∧
      (assigned.map Prod.fst).Perm ((codebook.topFrequencies choices).map Prod.fst) ∧
      (method ≠ .shannon → kraftSum (assigned.map Prod.snd) ≤ 1) := by
  by_cases empty : codebook.topFrequencies choices = []
  · obtain ⟨rfl, -⟩ := generateCodebook_cleared empty done
    exact ⟨[], ⟨rfl, rfl⟩, by simp [empty], by simp⟩
  · cases method with
    | huffman =>
        obtain ⟨generated, renumbers, assignment, -⟩ := huffman_assigns choices empty
        simp only [generateCodebook, generated, Except.ok.injEq, Prod.mk.injEq] at done
        obtain ⟨rfl, -⟩ := done
        exact ⟨_, renumbers, assignment.symbols, fun _ => assignment.kraft⟩
    | shannonFano =>
        obtain ⟨generated, renumbers, assignment⟩ := shannonFano_assigns choices empty
        simp only [generateCodebook, generated, Except.ok.injEq, Prod.mk.injEq] at done
        obtain ⟨rfl, -⟩ := done
        exact ⟨_, renumbers, assignment.symbols, fun _ => assignment.kraft⟩
    | shannon =>
        have filled : (codebook.freqTable.getTopFrequencies choices.descending).isEmpty = false := by
          simpa [topFrequencies] using empty
        simp only [generateCodebook, generateShannonCodes, filled, Bool.false_eq_true, if_false] at done
        obtain ⟨assigned, lengths, done⟩ := bind_ok.mp done
        cases done
        exact ⟨assigned, ⟨rfl, by simp [List.foldl_map]⟩, .of_eq (shannonLengths_symbols lengths), by simp⟩

theorem generateCodebook_isPrefixCode (done : codebook.generateCodebook choices fp method = .ok (built, count))
    (short : ∀ entry ∈ built.codes.pairs, entry.2.length ≤ 64)
    (room : method = .shannon → kraftSum (built.codes.pairs.map fun entry => entry.2.length) ≤ 1) :
    IsPrefixCode built ((codebook.topFrequencies choices).map Prod.fst) := by
  obtain ⟨assigned, renumbers, symbols, kraft⟩ := generateCodebook_renumbers done
  have distinct := codebook.topFrequencies_nodup choices
  have lengths := canonicalCodes_lengths (symbols.nodup_iff.mpr distinct)
  rw [← renumbers.codes] at lengths
  have sizes := lengths.map Prod.snd
  rw [List.map_map] at sizes
  refine (renumbers.isPrefixCode ⟨symbols, ?_⟩ distinct ?_).1
  · by_cases rounded : method = .shannon
    · rw [← kraftSum_perm sizes]
      exact room rounded
    · exact kraft rounded
  · intro p member
    obtain ⟨entry, stored, rfl⟩ := List.mem_map.mp (lengths.mem_iff.mpr member)
    exact short entry stored

/-- The outcome for a block whose encoding has this many bits. -/
def outcomeOf (mag size compressedSizeBits : Nat) : CompressOutcome :=
  let compressedSizeBytes := (compressedSizeBits + 7) / 8
  let magCompressedSizeBytes := (compressedSizeBytes + mag - 1) / mag * mag
  let burstSize := magCompressedSizeBytes / mag
  if burstSize > 3 then
    { rawCompressedSizeBits := size * 8
      rawCompressionRatio := 1
      magCompressedSizeBytes := 4 * mag
      burstSize := 4
      effectiveCompressionRatio := 1 }
  else
    { rawCompressedSizeBits := compressedSizeBits
      rawCompressionRatio := if compressedSizeBits > 0 then (size * 8 : ℚ) / compressedSizeBits else 1
      magCompressedSizeBytes
      burstSize
      effectiveCompressionRatio :=
        if magCompressedSizeBytes > 0 then (size : ℚ) / magCompressedSizeBytes else 1 }

theorem compressDataBlock_eq (filled : codebook.size ≠ 0) :
    codebook.compressDataBlock (some data) data.length =
      outcomeOf codebook.mag data.length (codebook.compressedSizeBits data) := by
  simp only [compressDataBlock, filled, Option.isNone_some, Bool.false_eq_true, or_self, if_false]
  rfl

/-- Where no code length exceeds a word and the lengths fit into the code space, the size charged for
a block is that of a string from which the block can be recovered. -/
theorem encoding_recoverable (done : codebook.generateCodebook choices fp method = .ok (built, count))
    (short : ∀ entry ∈ built.codes.pairs, entry.2.length ≤ 64)
    (room : method = .shannon → kraftSum (built.codes.pairs.map fun entry => entry.2.length) ≤ 1) :
    (∀ data, built.compressedSizeBits data = (built.encode data).length) ∧
      (∀ data : List UInt8, built.size ≠ 0 → built.compressDataBlock (some data) data.length =
        outcomeOf built.mag data.length (built.encode data).length) ∧
      ∀ data other : List UInt8, data.length = other.length →
        built.freqTable.symbolLength ∣ data.length * 8 → data ≠ other → built.encode data ≠ built.encode other := by
  have prefixCode := generateCodebook_isPrefixCode done short room
  refine ⟨fun data => prefixCode.length_encode.symm, ?_, ?_⟩
  · intro data filled
    rw [compressDataBlock_eq filled, prefixCode.length_encode]
  · intro data other long whole different same
    exact different (prefixCode.encode_injOn whole long same)

/-- An empty codebook over bytes with these counts. -/
def startingFrom (counts : List (Nat × Nat)) : HuffmanCodebook where
  codes := ∅
  maxCodeLength := 0
  mag := 32
  freqTable := ⟨AList.insertAll ∅ counts, 80, 70, 8, by decide⟩

theorem encoding_recoverable_sample :
    let built := (sample.generateHuffmanCodes .stable).1
    (∀ data, built.compressedSizeBits data = (built.encode data).length) ∧
      (∀ data : List UInt8, built.size ≠ 0 → built.compressDataBlock (some data) data.length =
        outcomeOf built.mag data.length (built.encode data).length) ∧
      ∀ data other : List UInt8, data.length = other.length →
        built.freqTable.symbolLength ∣ data.length * 8 → data ≠ other → built.encode data ≠ built.encode other :=
  @encoding_recoverable sample _ .stable .exact .huffman (sample.generateHuffmanCodes .stable).2 rfl
    (by decide) (by intro other; cases other)

/-- Five symbols of count `2 ^ 62`: their total wraps to the count of one. -/
def crowded : HuffmanCodebook := startingFrom [(0, 2 ^ 62), (1, 2 ^ 62), (2, 2 ^ 62), (3, 2 ^ 62), (4, 2 ^ 62)]

theorem crowded_lengths : shannonLengths .exact (crowded.freqTable.getTopFrequencies Choices.stable.descending) =
    .ok [(4, 1), (3, 1), (2, 1), (1, 1), (0, 1)] := by
  have top : crowded.freqTable.getTopFrequencies Choices.stable.descending =
      [(4, 2 ^ 62), (3, 2 ^ 62), (2, 2 ^ 62), (1, 2 ^ 62), (0, 2 ^ 62)] := rfl
  have total : rangeTotal [(4, 2 ^ 62), (3, 2 ^ 62), (2, 2 ^ 62), (1, 2 ^ 62), (0, 2 ^ 62)] = 2 ^ 62 := by
    decide
  have len : shannonLength .exact (2 ^ 62) (2 ^ 62) = .ok 1 := by
    have certain : FloatArithmetic.exact.round (FloatArithmetic.exact.round (2 ^ 62 : ℕ) /
        FloatArithmetic.exact.round (2 ^ 62 : ℕ)) = (1 / 2) ^ 0 := by
      simp [FloatArithmetic.exact]
    simp only [shannonLength, certain, FloatArithmetic.exact.ceilNegLog2_half_pow 0 (by decide)]
    simp
  rw [top]
  simp only [shannonLengths, total, List.mapM_cons, List.mapM_nil, len]
  rfl

/-- Counts that grow like Fibonacci numbers; the tree over them is a chain. -/
def growingCounts : Nat → Nat → Nat → List (Nat × Nat)
  | 0, _, _ => []
  | n + 1, a, b => (n, a) :: growingCounts n b (a + b)

def chain : HuffmanCodebook := startingFrom (growingCounts 66 1 1)

/-- A total that wraps gives two symbols one code; a code of 65 bits loses its first bit, and
then three symbols encode like another order of them. -/
theorem encoding_ambiguous :
    (∃ built, crowded.generateCodebook .stable .exact .shannon = .ok (built, 5) ∧
      built.encode [0] = built.encode [2]) ∧
    (∃ built, chain.generateCodebook .stable .exact .huffman = .ok (built, 66) ∧
      built.encode [0, 62, 64] = built.encode [64, 0, 62]) := by
  constructor
  · refine ⟨{ crowded with
      codes := canonicalCodes [(4, 1), (3, 1), (2, 1), (1, 1), (0, 1)]
      maxCodeLength := 1 }, ?_, rfl⟩
    have filled : (crowded.freqTable.getTopFrequencies Choices.stable.descending).isEmpty = false := rfl
    simp only [generateCodebook, generateShannonCodes, filled, crowded_lengths, Bool.false_eq_true, if_false]
    refine congrArg Except.ok (Prod.ext rfl ?_)
    change (canonicalCodes [(4, 1), (3, 1), (2, 1), (1, 1), (0, 1)]).size = 5
    rfl
  · refine ⟨(chain.generateHuffmanCodes .stable).1, ?_, by decide +kernel⟩
    have count : (chain.generateHuffmanCodes .stable).2 = 66 := by decide +kernel
    rw [generateCodebook, ← count]

end HuffmanCodebook

end GpgpuSim.Huffman
