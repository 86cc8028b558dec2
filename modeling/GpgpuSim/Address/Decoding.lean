import GpgpuSim.Address.Hashing
import GpgpuSim.Words.Masks
import GpgpuSim.Words.Packing

/-! The mapping of a linear address to a channel, a sub partition and a place in
DRAM: masks parsed from the mapping string, fields packed from the bits under
them, and the hash that spreads addresses over the channels. -/
namespace GpgpuSim.Address
open Words

/-- `partition_index_function`, without the one that keeps a table of random numbers. -/
inductive PartitionIndexFunction
  | consecutive
  | bitwisePermutation
  | ipoly
  | pae
  | custom
  deriving DecidableEq, Repr

/-- `addrdec_mask`. -/
structure AddrdecMask where
  chip : Nat := 0
  bk : Nat := 0
  row : Nat := 0
  col : Nat := 0
  burst : Nat := 0
  deriving DecidableEq, Repr

structure AddrdecT where
  chip : Nat
  bk : Nat
  row : Nat
  col : Nat
  burst : Nat
  subPartition : Nat
  deriving DecidableEq, Repr

/-! ## The mapping string -/

/-- `1ULL << ofs`. -/
def bitAt (ofs : Int) : Except AddrdecFault Nat :=
  if 0 ≤ ofs ∧ ofs < 64 then .ok (2 ^ ofs.toNat) else .error .undefined

/-- One character of the mapping that follows `dramid@<start>;`. -/
def parseLetter (state : AddrdecMask × Int) (letter : Char) : Except AddrdecFault (AddrdecMask × Int) := do
  let (mask, ofs) := state
  match letter with
  | 'D' | 'd' => throw .assertion
  | 'B' | 'b' => return ({ mask with bk := mask.bk ||| (← bitAt ofs) }, ofs - 1)
  | 'R' | 'r' => return ({ mask with row := mask.row ||| (← bitAt ofs) }, ofs - 1)
  | 'C' | 'c' => return ({ mask with col := mask.col ||| (← bitAt ofs) }, ofs - 1)
  | 'S' | 's' =>
      let bit ← bitAt ofs
      return ({ mask with burst := mask.burst ||| bit, col := mask.col ||| bit }, ofs - 1)
  | '0' => return (mask, ofs - 1)
  | _ => return (mask, ofs)

def addrdecParseoption (mapping : List Char) : Except AddrdecFault AddrdecMask := do
  let (mask, ofs) ← mapping.foldlM parseLetter ({}, 63)
  if ofs ≠ -1 then throw .assertion
  return mask

/-! ## Initialisation -/

/-- `LOGB2_32`: one step for each half of the bits that are left. -/
def logb2_32 (v : Nat) : Nat :=
  let shift := if v &&& 0xFFFF0000 ≠ 0 then 16 else 0
  let v := v >>> shift
  let r := shift
  let shift := if v &&& 0xFF00 ≠ 0 then 8 else 0
  let v := v >>> shift
  let r := r ||| shift
  let shift := if v &&& 0xF0 ≠ 0 then 4 else 0
  let v := v >>> shift
  let r := r ||| shift
  let shift := if v &&& 0xC ≠ 0 then 2 else 0
  let v := v >>> shift
  let r := r ||| shift
  let shift := if v &&& 0x2 ≠ 0 then 1 else 0
  r ||| shift

/-- The loop of `next_powerOf2`: the lowest bit goes until one is left. -/
def unsetRightmost (n : Nat) : Nat :=
  if n &&& (n - 1) = 0 then n else unsetRightmost (n &&& (n - 1))
termination_by n
decreasing_by
  have le : n &&& (n - 1) ≤ n - 1 := Nat.and_le_right
  have positive : n ≠ 0 := by
    rintro rfl
    simp at *
  omega

def nextPowerOf2 (n : Nat) : Nat := (unsetRightmost (n - 1) * 2) % 2 ^ 32

structure Translation where
  addrChipS : Nat
  mask : AddrdecMask
  gap : Nat
  nChannel : Nat
  nSubPartitionInChannel : Nat
  log2channel : Nat
  log2subPartition : Nat
  nextPowerOf2NChannel : Nat
  memoryPartitionIndexing : PartitionIndexFunction
  deriving DecidableEq

/-- The settings `init` works from: the mapping option is `dramid@<dramidStart>;<mapping>`. -/
structure Settings where
  nChannel : Nat
  nSubPartitionInChannel : Nat
  dramidStart : Nat
  mapping : List Char
  memoryPartitionIndexing : PartitionIndexFunction

/-- A field mask with `nchipbits` positions opened at `start`. -/
def openMask (start nchipbits field : Nat) : Nat :=
  ((field &&& (2 ^ 64 - 1 - (2 ^ start - 1))) <<< nchipbits) % 2 ^ 64 ||| (field &&& (2 ^ start - 1))

/-- The channel bits go in at `start`; the burst mask is left as it is. -/
def insertChip (start nchipbits : Nat) (mask : AddrdecMask) : Except AddrdecFault AddrdecMask :=
  if 64 ≤ start ∨ 64 < start + nchipbits then .error .undefined
  else .ok { mask with
    chip := (List.range nchipbits).foldl (fun chip i => chip ||| 2 ^ (start + i)) mask.chip
    bk := openMask start nchipbits mask.bk
    row := openMask start nchipbits mask.row
    col := openMask start nchipbits mask.col }

/-- The masks are not changed when the number of channels is no power of two. -/
def openChannel (gap start nchipbits : Nat) (mask : AddrdecMask) : Except AddrdecFault AddrdecMask :=
  if gap = 0 then insertChip start nchipbits mask else .ok mask

def init (settings : Settings) : Except AddrdecFault Translation := do
  let nChannel := settings.nChannel
  let log2channel := logb2_32 nChannel
  let gap := nChannel - 2 ^ log2channel
  let parsed ← addrdecParseoption settings.mapping
  let mask ← openChannel gap settings.dramidStart log2channel parsed
  -- the number of sub partitions is kept as an `int`
  let nSub := settings.nSubPartitionInChannel
  if 2 ^ 31 ≤ nSub then throw .undefined
  if nSub &&& (nSub - 1) ≠ 0 then throw .assertion
  return {
    addrChipS := settings.dramidStart
    mask
    gap
    nChannel
    nSubPartitionInChannel := nSub
    log2channel
    log2subPartition := logb2_32 nSub
    nextPowerOf2NChannel := nextPowerOf2 nChannel
    memoryPartitionIndexing := settings.memoryPartitionIndexing }

/-! ## Decoding -/

/-- The bounds `(high, low)` of the positions of a mask. -/
def addrdecGetmasklimit (mask : Nat) : Nat × Nat :=
  let (high, low, _) := (List.range 64).foldl
    (fun (state : Nat × Nat × Bool) i =>
      if mask &&& 2 ^ i ≠ 0 then (i + 1, if state.2.2 then state.2.1 else i, true) else state)
    (64, 0, false)
  (high, low)

def addrdecPackbits (mask val high low : Nat) : Nat :=
  ((List.range' low (high - low)).foldl (gatherStep mask val) (0, 0)).2

/-- A field of the raw address, in the 32 bits of its variable. -/
def field (mask addr : Nat) : Nat :=
  let (high, low) := addrdecGetmasklimit mask
  addrdecPackbits mask addr high low % 2 ^ 32

namespace Translation

/-- The address without what selects the channel: quotient and low bits stitched together. -/
def restOfAddr (t : Translation) (addr : Nat) : Nat :=
  ((addr >>> t.addrChipS / t.nChannel) <<< t.addrChipS) ||| (addr &&& (2 ^ t.addrChipS - 1))

/-- The channel and the low bits of the bank. -/
def joinSubPartition (t : Translation) (chip bk : Nat) : Nat :=
  (chip * t.nSubPartitionInChannel + (bk &&& (t.nSubPartitionInChannel - 1))) % 2 ^ 32

/-- The switch over the indexing functions: channel and sub partition. -/
def partitionIndex (t : Translation) (chip bk highBits : Nat) : Except AddrdecFault (Nat × Nat) :=
  match t.memoryPartitionIndexing with
  | .consecutive | .custom => .ok (chip, t.joinSubPartition chip bk)
  | .bitwisePermutation =>
      let hashed := bitwiseHashFunction highBits chip t.nChannel
      if t.gap ≠ 0 ∨ t.nChannel ≤ hashed then .error .assertion
      else .ok (hashed, t.joinSubPartition hashed bk)
  | .ipoly => do
      let total := t.nChannel * t.nSubPartitionInChannel % 2 ^ 32
      let hashed ← ipolyHashFunction highBits (t.joinSubPartition chip bk)
        (t.nextPowerOf2NChannel * t.nSubPartitionInChannel % 2 ^ 32)
      let subPartition := if t.gap ≠ 0 then hashed % total else hashed
      let hashedChip := subPartition / t.nSubPartitionInChannel
      if t.nChannel ≤ hashedChip ∨ total ≤ subPartition then throw .assertion
      return (hashedChip, subPartition)
  | .pae => .error .assertion

def addrdecTlx (t : Translation) (addr : Nat) : Except AddrdecFault AddrdecT := do
  -- `1 << ADDR_CHIP_S` is an `int`, the shifts of the address are not
  let highShift := t.addrChipS + (t.log2channel + t.log2subPartition)
  if t.gap = 0 ∧ 64 ≤ highShift ∨ t.gap ≠ 0 ∧ 31 ≤ t.addrChipS then throw .undefined
  let word := if t.gap = 0 then addr else t.restOfAddr addr
  let chip := if t.gap = 0 then field t.mask.chip addr else addr >>> t.addrChipS % t.nChannel
  let highBits := if t.gap = 0 then addr >>> highShift else addr >>> t.addrChipS / t.nChannel
  let bk := field t.mask.bk word
  let (chip, subPartition) ← t.partitionIndex chip bk highBits
  return {
    chip
    bk
    row := field t.mask.row word
    col := field t.mask.col word
    burst := field t.mask.burst word
    subPartition }

end Translation

/-! ## What the helpers compute -/

/-- One step of the search for the highest bit, among `2 * half` bits. -/
theorem log2_step (half : Nat) {v : Nat} (positive : v ≠ 0) (small : v < 2 ^ (half + half)) :
    ∃ shift, (if v &&& (2 ^ (half + half) - 2 ^ half) ≠ 0 then half else 0) = shift ∧
      (shift = 0 ∨ shift = half) ∧ v >>> shift ≠ 0 ∧ v >>> shift < 2 ^ half ∧
      v.log2 = shift + (v >>> shift).log2 := by
  have upper : v &&& (2 ^ (half + half) - 2 ^ half) ≠ 0 ↔ 2 ^ half ≤ v := by
    rw [and_two_pow_sub_two_pow v (Nat.le_add_left half half), Nat.mod_eq_of_lt small]
    rw [Nat.mul_ne_zero_iff, and_iff_left (Nat.two_pow_pos half).ne', Nat.div_ne_zero_iff]
    exact and_iff_right (Nat.two_pow_pos half).ne'
  refine ⟨_, rfl, ?_⟩
  by_cases high : 2 ^ half ≤ v
  · rw [if_pos (upper.mpr high)]
    have shifted : v >>> half ≠ 0 := by
      rw [Nat.shiftRight_eq_div_pow, Nat.div_ne_zero_iff]
      exact ⟨(Nat.two_pow_pos half).ne', high⟩
    refine ⟨.inr rfl, shifted, ?_, ?_⟩
    · rw [Nat.shiftRight_eq_div_pow]
      exact Nat.div_lt_of_lt_mul (by rwa [← Nat.pow_add])
    · rw [Nat.log2_eq_iff positive]
      have low := Nat.log2_self_le shifted
      have up := Nat.lt_log2_self (n := v >>> half)
      rw [Nat.shiftRight_eq_div_pow] at low up ⊢
      rw [Nat.le_div_iff_mul_le (Nat.two_pow_pos half)] at low
      rw [Nat.div_lt_iff_lt_mul (Nat.two_pow_pos half)] at up
      constructor
      · rwa [Nat.pow_add, Nat.mul_comm]
      · rwa [Nat.add_assoc, Nat.pow_add, Nat.mul_comm]
  · rw [if_neg (fun hit => high (upper.mp hit))]
    exact ⟨.inl rfl, positive, Nat.lt_of_not_le high, by simp⟩

theorem logb2_32_eq {v : Nat} (positive : v ≠ 0) (small : v < 2 ^ 32) : logb2_32 v = v.log2 := by
  obtain ⟨a, at_a, range_a, pos_a, small_a, log_a⟩ := log2_step 16 positive small
  obtain ⟨b, at_b, range_b, pos_b, small_b, log_b⟩ := log2_step 8 pos_a small_a
  obtain ⟨c, at_c, range_c, pos_c, small_c, log_c⟩ := log2_step 4 pos_b small_b
  obtain ⟨d, at_d, range_d, pos_d, small_d, log_d⟩ := log2_step 2 pos_c small_c
  obtain ⟨e, at_e, range_e, pos_e, small_e, log_e⟩ := log2_step 1 pos_d small_d
  have one : v >>> a >>> b >>> c >>> d >>> e = 1 :=
    Nat.le_antisymm (Nat.le_of_lt_succ small_e) (Nat.pos_of_ne_zero pos_e)
  have sum : v.log2 = a + (b + (c + (d + e))) := by
    rw [log_a, log_b, log_c, log_d, log_e, one]
    rfl
  have computed : logb2_32 v = a ||| b ||| c ||| d ||| e := by
    unfold logb2_32
    norm_num only at at_a at_b at_c at_d at_e
    dsimp only
    rw [at_a, at_b, at_c, at_d, at_e]
  rw [computed, sum]
  rcases range_a with rfl | rfl <;> rcases range_b with rfl | rfl <;> rcases range_c with rfl | rfl <;>
    rcases range_d with rfl | rfl <;> rcases range_e with rfl | rfl <;> rfl

end GpgpuSim.Address
