import GpgpuSim.Huffman.Encoding
import Mathlib.Algebra.Order.Floor.Div

/-! Compressed sizes in memory access granules. A block whose encoding needs more than three
granules is charged four, whatever its own size is. -/
namespace GpgpuSim.Huffman
open HuffmanCodebook

variable {mag size bits k : Nat}

/-- The number of granules that hold a size. -/
def granules (size mag : Nat) : Nat := (size + mag - 1) / mag

theorem granules_le (pos : 0 < mag) : granules size mag ≤ k ↔ size ≤ k * mag := by
  rw [Nat.mul_comm k mag]
  exact ceilDiv_le_iff_le_mul pos

theorem lt_granules (pos : 0 < mag) : k < granules size mag ↔ k * mag < size := by
  rw [← not_le, granules_le pos, not_le]

theorem le_granules_mul (pos : 0 < mag) (size : Nat) : size ≤ granules size mag * mag :=
  (granules_le pos).mp (Nat.le_refl _)

theorem granules_mono (pos : 0 < mag) {smaller : Nat} (le : smaller ≤ size) :
    granules smaller mag ≤ granules size mag :=
  (granules_le pos).mpr (le.trans (le_granules_mul pos size))

theorem granules_mul (pos : 0 < mag) : granules (k * mag) mag = k :=
  Nat.le_antisymm ((granules_le pos).mpr (Nat.le_refl _))
    (Nat.le_of_mul_le_mul_right (le_granules_mul pos (k * mag)) pos)

/-- What is reported for a block is never larger than the block in whole granules. -/
structure NoExpansion (mag size : Nat) (outcome : CompressOutcome) : Prop where
  raw : outcome.rawCompressedSizeBits ≤ 8 * size
  bursts : outcome.burstSize * mag = outcome.magCompressedSizeBytes
  bounded : outcome.magCompressedSizeBytes ≤ granules size mag * mag
  stored : outcome.rawCompressionRatio = 1 → outcome.effectiveCompressionRatio = 1 →
    outcome.magCompressedSizeBytes = granules size mag * mag

/-- The bursts of an encoding: more than three when it has more than three granules. -/
theorem lt_granules_bits (pos : 0 < mag) : 3 < granules ((bits + 7) / 8) mag ↔ 24 * mag < bits := by
  rw [lt_granules pos]
  omega

/-- A block that is charged four granules. -/
theorem outcomeOf_stored (pos : 0 < mag) (long : 24 * mag < bits) :
    NoExpansion mag size (outcomeOf mag size bits) ↔ 3 * mag < size ∧ size ≤ 4 * mag := by
  have bursts : granules ((bits + 7) / 8) mag * mag / mag > 3 := by
    rw [Nat.mul_div_cancel _ pos]
    exact (lt_granules_bits pos).mpr long
  have outcome : outcomeOf mag size bits =
      { rawCompressedSizeBits := size * 8, rawCompressionRatio := 1, magCompressedSizeBytes := 4 * mag
        burstSize := 4, effectiveCompressionRatio := 1 } := if_pos bursts
  rw [outcome]
  constructor
  · intro kept
    have same : granules size mag = 4 :=
      Nat.eq_of_mul_eq_mul_right pos (kept.stored rfl rfl).symm
    exact ⟨(lt_granules pos).mp (by omega), (granules_le pos).mp same.le⟩
  · rintro ⟨lower, upper⟩
    have same : granules size mag = 4 :=
      Nat.le_antisymm ((granules_le pos).mpr upper) ((lt_granules pos).mpr lower)
    exact ⟨(Nat.mul_comm size 8).le, rfl, by rw [same], fun _ _ => by rw [same]⟩

/-- A block that is charged the granules of its encoding. -/
theorem outcomeOf_compressed (pos : 0 < mag) (nonempty : 0 < size) (short : bits ≤ 24 * mag) :
    NoExpansion mag size (outcomeOf mag size bits) ↔ 0 < bits ∧ bits ≤ 8 * size := by
  have bursts : ¬ granules ((bits + 7) / 8) mag * mag / mag > 3 := by
    rw [Nat.mul_div_cancel _ pos]
    exact fun many => Nat.not_lt.mpr short ((lt_granules_bits pos).mp many)
  have outcome : outcomeOf mag size bits =
      { rawCompressedSizeBits := bits
        rawCompressionRatio := if bits > 0 then (size * 8 : ℚ) / bits else 1
        magCompressedSizeBytes := granules ((bits + 7) / 8) mag * mag
        burstSize := granules ((bits + 7) / 8) mag * mag / mag
        effectiveCompressionRatio :=
          if granules ((bits + 7) / 8) mag * mag > 0 then (size : ℚ) / (granules ((bits + 7) / 8) mag * mag : ℕ)
          else 1 } := if_neg bursts
  rw [outcome]
  constructor
  · intro kept
    refine ⟨?_, kept.raw⟩
    by_contra empty
    obtain rfl : bits = 0 := by omega
    have none : granules ((0 + 7) / 8) mag = 0 := Nat.le_zero.mp ((granules_le pos).mpr (by omega))
    have all := kept.stored (by simp) (by simp [none])
    simp only [none, Nat.zero_mul] at all
    have := le_granules_mul pos size
    omega
  · rintro ⟨some, fits⟩
    have bytes : (bits + 7) / 8 ≤ size := by omega
    refine ⟨fits, by rw [Nat.mul_div_cancel _ pos],
      Nat.mul_le_mul_right mag (granules_mono pos bytes), ?_⟩
    intro _ effective
    have charged : granules ((bits + 7) / 8) mag * mag > 0 :=
      Nat.mul_pos ((lt_granules pos).mpr (by omega)) pos
    simp only [charged, if_true] at effective
    have whole : size = granules ((bits + 7) / 8) mag * mag := by
      have nonzero : ((granules ((bits + 7) / 8) mag * mag : ℕ) : ℚ) ≠ 0 := Nat.cast_ne_zero.mpr charged.ne'
      exact Nat.cast_injective ((div_eq_one_iff_eq nonzero).mp effective)
    have same := congrArg (granules · mag) whole
    simp only [granules_mul pos] at same
    rw [same]

namespace HuffmanCodebook

/-- The setter of the granule. -/
def setMag (codebook : HuffmanCodebook) (mag : Nat) : HuffmanCodebook := { codebook with mag }

/-- When a block of this size is reported without expansion. An empty codebook reports the size itself. -/
def FitsGranules (codebook : HuffmanCodebook) (data : List UInt8) : Prop :=
  if codebook.size = 0 then codebook.mag ∣ data.length
  else
    let symbols := codebook.extractSymbols (some data) data.length
    let bits := (symbols.map fun s => codebook.encodedBits s + 1).sum
    if bits ≤ 24 * codebook.mag then symbols ≠ [] ∧ bits ≤ 8 * data.length
    else 3 * codebook.mag < data.length ∧ data.length ≤ 4 * codebook.mag

variable {codebook : HuffmanCodebook} {data : List UInt8}

theorem compressedSizeBits_eq : codebook.compressedSizeBits data =
    ((codebook.extractSymbols (some data) data.length).map fun s => codebook.encodedBits s + 1).sum := by
  simp only [compressedSizeBits]
  induction codebook.extractSymbols (some data) data.length with
  | nil => rfl
  | cons s rest ih =>
      simp only [List.map_cons, List.sum_cons, List.length_cons, ← ih]
      omega

/-- A block is reported without expansion exactly when it fits its granules. -/
theorem compressBlock_noExpansion_iff (codebook : HuffmanCodebook) (data : List UInt8) (mag : Nat) (pos : 0 < mag)
    (nonempty : data ≠ []) :
    NoExpansion mag data.length ((codebook.setMag mag).compressBlock (some data) data.length) ↔
      (codebook.setMag mag).FitsGranules data := by
  have size : 0 < data.length := List.length_pos_iff.mpr nonempty
  simp only [compressBlock, FitsGranules]
  by_cases empty : (codebook.setMag mag).size = 0
  · have outcome : (codebook.setMag mag).compressDataBlock (some data) data.length =
        { rawCompressedSizeBits := data.length * 8, rawCompressionRatio := 1
          magCompressedSizeBytes := data.length, burstSize := granules data.length mag
          effectiveCompressionRatio := 1 } := if_pos (.inl empty)
    rw [if_pos empty, outcome]
    constructor
    · intro kept
      exact ⟨granules data.length mag, by rw [Nat.mul_comm]; exact kept.bursts.symm⟩
    · rintro ⟨count, whole⟩
      have whole' : data.length = count * mag := whole.trans (Nat.mul_comm mag count)
      have same : granules data.length mag * mag = data.length := by
        rw [whole', granules_mul pos]
      exact ⟨(Nat.mul_comm _ 8).le, same, same.ge, fun _ _ => same.symm⟩
  · rw [if_neg empty, compressDataBlock_eq empty, ← compressedSizeBits_eq]
    change NoExpansion mag data.length (outcomeOf mag data.length _) ↔ _
    split
    next short =>
      rw [outcomeOf_compressed pos size short]
      refine and_congr_left fun _ => ?_
      rw [compressedSizeBits_eq]
      cases (codebook.setMag mag).extractSymbols (some data) data.length with
      | nil => simp
      | cons s rest =>
          simp only [List.map_cons, List.sum_cons, ne_eq, reduceCtorEq, not_false_eq_true, iff_true]
          omega
    next long => exact outcomeOf_stored pos (Nat.lt_of_not_le long)

/-- A line of four granules. -/
theorem line_noExpansion_iff :
    NoExpansion 32 128 (((sample.generateHuffmanCodes .stable).1.setMag 32).compressBlock
      (some (List.replicate 128 255)) 128) ↔
      ((sample.generateHuffmanCodes .stable).1.setMag 32).FitsGranules (List.replicate 128 255) :=
  compressBlock_noExpansion_iff (sample.generateHuffmanCodes .stable).1 (List.replicate 128 255) 32
    (by decide) (by decide)

/-- A sector of one granule with no coded symbol is reported with more bits than it has. -/
theorem sector_expands :
    ¬ NoExpansion 32 32 (((sample.generateHuffmanCodes .stable).1.setMag 32).compressBlock
      (some (List.replicate 32 255)) 32) := by
  intro kept
  exact absurd kept.raw (by decide)

end HuffmanCodebook

end GpgpuSim.Huffman
