import GpgpuSim.Cache.DataCache
import GpgpuSim.Huffman.Codebook

/-! The configuration of a memory partition, and what can stop it. -/
namespace GpgpuSim.Partition
open GpgpuSim.Huffman GpgpuSim.Cache

structure MemoryConfig where
  id : Nat
  nSubPartition : Nat
  nSubPartition_pos : 0 < nSubPartition
  nMem : Nat
  dramLatency : Nat
  dramSchedQueueSize : Nat
  dramReturnQueueSize : Nat
  dramWriteQueueSize : Nat
  seperateWriteQueueEnabled : Bool
  dramL2QueueSize : Nat
  l2LineSize : Nat
  metadataConfig : CacheConfig
  fp : FloatArithmetic

namespace MemoryConfig

def blockAddr (cfg : MemoryConfig) (addr : Nat) : Nat := CacheConfig.align cfg.l2LineSize addr

/-- The return queue of the DRAM model. -/
def returnCapacity (cfg : MemoryConfig) : Nat :=
  if cfg.dramReturnQueueSize = 0 then 1024 else cfg.dramReturnQueueSize

/-- Zero stands for no limit. -/
def sharedCreditLimit (cfg : MemoryConfig) : Int :=
  if cfg.dramSchedQueueSize = 0 ∨ cfg.dramReturnQueueSize = 0 then 0
  else
    cfg.dramSchedQueueSize + cfg.dramReturnQueueSize - (cfg.nSubPartition - 1) +
      if cfg.seperateWriteQueueEnabled then cfg.dramWriteQueueSize else 0

end MemoryConfig

def privateCreditLimit : Nat := 1
def compressorLatency : Nat := 46
def decompressorLatency : Nat := 82
def totalNumberOfCompressor : Nat := 10000000
def totalNumberOfDecompressor : Nat := 10000000
def pwd : Nat := 4
/-- The capacity of the FIFOs between the units of the partition. -/
def fifoCapacity : Nat := 1000

/-- `(TOTAL_NUMBER_OF_COMPRESSOR + n_mem - 1) / n_mem`. -/
def compressorBound (cfg : MemoryConfig) : Nat := (totalNumberOfCompressor + cfg.nMem - 1) / cfg.nMem

def decompressorBound (cfg : MemoryConfig) : Nat :=
  (totalNumberOfDecompressor / pwd + cfg.nMem - 1) / cfg.nMem

inductive FifoName
  | l2ToMetadataTranslater
  | l2ToCompressor
  | toMetadataCache
  | fromMetadataCache
  | dramToMetadataCache
  | huffmanToDram
  | decompressorToL2
  deriving DecidableEq, Repr

inductive Fault
  | assertion
  | emptyIntervalStats
  | fifoFull (name : FifoName)
  | depletedCredit
  | creditUnderflow
  | cache (fault : CacheFault)
  | length (fault : LengthFault)
  deriving DecidableEq, Repr

end GpgpuSim.Partition
