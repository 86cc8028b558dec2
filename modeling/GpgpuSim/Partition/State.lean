import GpgpuSim.Partition.Arbitration
import GpgpuSim.Partition.CodebookUnit
import GpgpuSim.Transition.Stages

/-! The state of a memory partition: request queues, the metadata cache, DRAM
credits and the codebook. The DRAM keeps its requests in `dramPending` until it
completes them in any order it likes; then a read waits in its return queue. -/
namespace GpgpuSim.Partition
open GpgpuSim.Memory GpgpuSim.Cache Transition

inductive LatencyName
  | decompressor
  | compressor
  | dram
  deriving DecidableEq, Repr

/-- What an observer sees of a partition. -/
inductive Event
  | called (cycle : Nat)
  | rebuildStarted (cycle : Nat)
  | creditBorrowed (spid : Nat) (mf : MfId)
  | creditReturned (spid : Nat) (mf : MfId)
  /-- Popped from the L2-to-DRAM queue of a sub partition. -/
  | issued (spid : Nat) (mf : MfId) (request : MemFetch)
  /-- Pushed into the DRAM-to-L2 queue of a sub partition. -/
  | delivered (spid : Nat) (mf : MfId) (request : MemFetch)
  /-- Handed to `set_done` and deleted. -/
  | retired (mf : MfId)
  /-- Made by the metadata cache to write a line back. -/
  | allocated (mf : MfId)
  /-- Popped from a queue and not passed on. -/
  | dropped (mf : MfId)
  | dramPush (mf : MfId) (request : MemFetch)
  deriving DecidableEq, Repr

structure MemoryPartitionUnit where
  pool : MfPool
  /-- The core cycle of the last call. -/
  clock : Nat
  codebookUnit : CodebookUnit
  arbitration : ArbitrationMetadata
  metadataCache : DataCache
  fifo : FifoName → List MfId
  latency : LatencyName → List (Nat × MfId)
  dramPending : List MfId
  dramReturn : List MfId
  l2Dram : Nat → List MfId
  dramL2 : Nat → List MfId
  /-- The local variable of a cycle between arbitration and classification. -/
  mfToBeClassified : Option MfId

namespace MemoryPartitionUnit

def create (cfg : MemoryConfig) : MemoryPartitionUnit where
  pool := ⟨fun _ => default, 0⟩
  clock := 0
  codebookUnit := .create
  arbitration := .create cfg
  metadataCache := .create cfg.metadataConfig
  fifo _ := []
  latency _ := []
  dramPending := []
  dramReturn := []
  l2Dram _ := []
  dramL2 _ := []
  mfToBeClassified := none

def request (st : MemoryPartitionUnit) (mf : MfId) : MemFetch := st.pool.get mf

def modify (st : MemoryPartitionUnit) (mf : MfId) (change : MemFetch → MemFetch) : MemoryPartitionUnit :=
  { st with pool := st.pool.modify mf change }

def fifoFull (st : MemoryPartitionUnit) (name : FifoName) : Bool := decide ((st.fifo name).length ≥ fifoCapacity)

/-- The queue after a push whose assertion holds. -/
def append (st : MemoryPartitionUnit) (name : FifoName) (mf : MfId) : MemoryPartitionUnit :=
  { st with fifo := Function.update st.fifo name (st.fifo name ++ [mf]) }

def push (st : MemoryPartitionUnit) (name : FifoName) (mf : MfId) : Except Fault MemoryPartitionUnit :=
  if (st.fifo name).length < fifoCapacity then .ok (st.append name mf) else .error (.fifoFull name)

def pop (st : MemoryPartitionUnit) (name : FifoName) : MemoryPartitionUnit :=
  { st with fifo := Function.update st.fifo name (st.fifo name).tail }

def pushLatency (st : MemoryPartitionUnit) (name : LatencyName) (readyCycle : Nat) (mf : MfId) : MemoryPartitionUnit :=
  { st with latency := Function.update st.latency name (st.latency name ++ [(readyCycle, mf)]) }

def popLatency (st : MemoryPartitionUnit) (name : LatencyName) : MemoryPartitionUnit :=
  { st with latency := Function.update st.latency name (st.latency name).tail }

/-- `global_sub_partition_id_to_local_id` with the assertion that follows its uses. -/
def localId (cfg : MemoryConfig) (globalId : Nat) : Except Fault Nat :=
  if cfg.id * cfg.nSubPartition ≤ globalId ∧ globalId - cfg.id * cfg.nSubPartition < cfg.nSubPartition then
    .ok (globalId - cfg.id * cfg.nSubPartition)
  else .error .assertion

theorem push_ok {st next : MemoryPartitionUnit} {name : FifoName} {mf : MfId}
    (pushed : st.push name mf = .ok next) : next = st.append name mf := by
  unfold push at pushed
  split at pushed
  · cases pushed
    rfl
  · contradiction

theorem push_error {st : MemoryPartitionUnit} {name : FifoName} {mf : MfId} {fault : Fault}
    (stopped : st.push name mf = .error fault) :
    fault = .fifoFull name ∧ fifoCapacity ≤ (st.fifo name).length := by
  unfold push at stopped
  split at stopped
  · contradiction
  · cases stopped
    exact ⟨rfl, not_lt.mp ‹_›⟩

end MemoryPartitionUnit

end GpgpuSim.Partition
