import GpgpuSim.Address.Decoding
import GpgpuSim.Transition.Fallible

/-! When the address mapping keeps different addresses apart. -/
namespace GpgpuSim.Address
open Words Transition

/-- The word the fields are taken from. -/
def Translation.word (t : Translation) (addr : Nat) : Nat :=
  if t.gap = 0 then addr else t.restOfAddr addr

/-- The mapping string is accepted, and the indexing mode is one that the number of
channels is supported for. -/
structure Settings.Supported (settings : Settings) : Prop where
  channels : 0 < settings.nChannel ∧ settings.nChannel < 2 ^ 32
  subPartitions : ∃ s, settings.nSubPartitionInChannel = 2 ^ s
  mapping : ∃ mask, addrdecParseoption settings.mapping = .ok mask
  indexing : match settings.memoryPartitionIndexing with
    | .consecutive => True
    | .bitwisePermutation => ∃ k, settings.nChannel = 2 ^ k
    | .ipoly => ∃ w, settings.nChannel ≤ 2 ^ w ∧ 2 ^ w < 2 * settings.nChannel ∧
        IpolyBanks (2 ^ w * settings.nSubPartitionInChannel)
    | .pae | .custom => False

/-- What the indexing function makes of a bank number is an exclusive or with this. -/
def Translation.hashOffset (t : Translation) (high : Nat) : Nat :=
  match t.memoryPartitionIndexing with
  | .bitwisePermutation => (high &&& (t.nChannel - 1)) * t.nSubPartitionInChannel
  | .ipoly => ipolyOffset high (t.nextPowerOf2NChannel * t.nSubPartitionInChannel)
  | .consecutive | .pae | .custom => 0

/-- The channel after the hash, folded back to the channels there are. -/
def Translation.hashedChip (t : Translation) (chip high : Nat) : Nat :=
  (chip ^^^ t.hashOffset high / t.nSubPartitionInChannel) % t.nChannel

/-- The upper part of an address that the hash is taken from. -/
def Translation.hashedPart (t : Translation) (upper : Nat) : Nat :=
  if t.gap = 0 then upper >>> (t.log2channel + t.log2subPartition) else upper / t.nChannel

/-- The shifts and products of the settings stay inside their types, and there are banks to hash. -/
structure Settings.InRange (settings : Settings) : Prop where
  signed : settings.nSubPartitionInChannel < 2 ^ 31
  powerOfTwo : settings.nChannel = 2 ^ settings.nChannel.log2 →
    settings.dramidStart + (settings.nChannel.log2 + settings.nSubPartitionInChannel.log2) < 64
  otherwise : settings.nChannel ≠ 2 ^ settings.nChannel.log2 → settings.dramidStart < 31
  total : settings.nChannel * settings.nSubPartitionInChannel ≤ 2 ^ 32
  several : settings.memoryPartitionIndexing = .ipoly → settings.nChannel ≠ 1

/-! ## Initialisation -/

/-- What `init` makes of its settings. -/
structure Initialised (settings : Settings) (t : Translation) : Prop where
  addrChipS : t.addrChipS = settings.dramidStart
  nChannel : t.nChannel = settings.nChannel
  nSub : t.nSubPartitionInChannel = settings.nSubPartitionInChannel
  indexing : t.memoryPartitionIndexing = settings.memoryPartitionIndexing
  log2channel : t.log2channel = settings.nChannel.log2
  gap : t.gap = 0 ↔ settings.nChannel = 2 ^ settings.nChannel.log2
  next : t.nextPowerOf2NChannel = nextPowerOf2 settings.nChannel
  log2subPartition : t.log2subPartition = settings.nSubPartitionInChannel.log2
  signed : settings.nSubPartitionInChannel < 2 ^ 31
  start : t.gap = 0 → t.addrChipS < 64 ∧ t.addrChipS + t.log2channel ≤ 64
  chip : ∀ i, t.mask.chip.testBit i = true ↔
    t.gap = 0 ∧ t.addrChipS ≤ i ∧ i < t.addrChipS + t.log2channel

section Index

variable {settings : Settings} {t : Translation} {chip bk high : Nat}

/-- The sub partition of a hashed channel. -/
def Translation.hashedSubPartition (t : Translation) (chip bk high : Nat) : Nat :=
  t.hashedChip chip high * t.nSubPartitionInChannel +
    (bk % t.nSubPartitionInChannel ^^^ t.hashOffset high % t.nSubPartitionInChannel)

end Index

/-! ## Decoding -/

section Decode

variable {settings : Settings} {t : Translation} {addr left right i : Nat}

/-- The shifts of the decoder stay inside their types. -/
def Translation.Defined (t : Translation) : Prop :=
  (t.gap = 0 → t.addrChipS + (t.log2channel + t.log2subPartition) < 64) ∧ (t.gap ≠ 0 → t.addrChipS < 31)

theorem Settings.InRange.defined (inRange : settings.InRange) (made : Initialised settings t) : t.Defined := by
  constructor
  · intro gap
    rw [made.addrChipS, made.log2channel, made.log2subPartition]
    exact inRange.powerOfTwo (made.gap.mp gap)
  · intro gap
    rw [made.addrChipS]
    exact inRange.otherwise fun power => gap (made.gap.mpr power)

/-- The raw address of settings in range. -/
def Translation.decoded (t : Translation) (addr : Nat) : AddrdecT where
  chip := t.hashedChip (addr >>> t.addrChipS % t.nChannel) (t.hashedPart (addr >>> t.addrChipS))
  bk := field t.mask.bk (t.word addr)
  row := field t.mask.row (t.word addr)
  col := field t.mask.col (t.word addr)
  burst := field t.mask.burst (t.word addr)
  subPartition := t.hashedSubPartition (addr >>> t.addrChipS % t.nChannel) (field t.mask.bk (t.word addr))
    (t.hashedPart (addr >>> t.addrChipS))

end Decode

end GpgpuSim.Address
