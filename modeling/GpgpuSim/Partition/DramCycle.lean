import GpgpuSim.Partition.State
import GpgpuSim.Transition.Runs

/-! `dram_cycle`, one stage for each of its blocks, and the runs of a partition. -/
namespace GpgpuSim.Partition
open GpgpuSim.Huffman GpgpuSim.Memory GpgpuSim.Cache Transition

/-- What one call reads from outside the partition: the core cycle, the global
memory, the order of ties in the sorts, and what its DRAM does. -/
structure CycleInput where
  cycle : Nat
  memory : GlobalMemory
  choices : Choices
  dramFull : Bool → Bool
  completes : Option MfId

abbrev PartitionStage := Stage MemoryPartitionUnit Event Fault

namespace MemoryPartitionUnit

variable (cfg : MemoryConfig) (input : CycleInput)

/-! ## Returns -/

def codebookStage : PartitionStage := fun st =>
  match st.codebookUnit.codebookCycle input.choices cfg.fp input.cycle with
  | .error fault => .error (.length fault)
  | .ok (codebookUnit, begun) =>
      .ok ({ st with codebookUnit, clock := input.cycle },
        .called input.cycle :: if begun then [.rebuildStarted input.cycle] else [])

def returnFromDram : PartitionStage := fun st =>
  match st.dramReturn with
  | [] => .ok (st, [])
  | mf :: rest =>
      let popped := { st with dramReturn := rest }
      if (st.request mf).isMetaDataRequest then do
        let st ← popped.push .dramToMetadataCache mf
        return (st, [])
      else if (st.request mf).isLineRead && st.codebookUnit.huffmanEnabled then
        if (st.latency .decompressor).length ≤ decompressorBound cfg then
          .ok (popped.pushLatency .decompressor (input.cycle + decompressorLatency / pwd) mf, [])
        else .ok (st, [])
      else if st.fifoFull .decompressorToL2 then .ok (st, [])
      else do
        let st ← popped.push .decompressorToL2 mf
        return (st, [])

/-- A compressed request gets back the size it was issued with. -/
def restoreSize (request : MemFetch) : MemFetch :=
  if request.compressed then request.setDataSize request.originalSize else request

def completeDecompression : PartitionStage := fun st =>
  match st.latency .decompressor with
  | [] => .ok (st, [])
  | (readyCycle, mf) :: _ =>
      if input.cycle ≥ readyCycle then do
        let restored := (st.popLatency .decompressor).modify mf restoreSize
        let st ← restored.push .decompressorToL2 mf
        return (st, [])
      else .ok (st, [])

def returnCredit (st : MemoryPartitionUnit) (spid : Nat) : Except Fault MemoryPartitionUnit := do
  let arbitration ← st.arbitration.returnCredit spid
  return { st with arbitration }

def returnToL2 : PartitionStage := fun st =>
  match st.fifo .decompressorToL2 with
  | [] => .ok (st, [])
  | mf :: _ => do
      let spid ← localId cfg (st.request mf).subPartitionId
      if (st.dramL2 spid).length ≥ cfg.dramL2QueueSize then return (st, [])
      let popped := st.pop .decompressorToL2
      if (st.request mf).accessType = .l1WrbkAcc then return (popped, [.retired mf])
      let delivered := { popped with dramL2 := Function.update st.dramL2 spid (st.dramL2 spid ++ [mf]) }
      let st' ← delivered.returnCredit spid
      return (st', [.delivered spid mf (st.request mf), .creditReturned spid mf])

/-- `set_done` of the partition and the deletion that follows it. -/
def setDone (st : MemoryPartitionUnit) (mf : MfId) : Except Fault (MemoryPartitionUnit × List Event) := do
  let spid ← localId cfg (st.request mf).subPartitionId
  if (st.request mf).isWriteBack then
    let st ← st.returnCredit spid
    return (st, [.retired mf, .creditReturned spid mf])
  else return (st, [.retired mf])

/-- What `dram_t::cycle` does to the partition: while its return queue has room it
may complete one request. -/
def dramModelCycle : PartitionStage := fun st =>
  if st.dramReturn.length ≥ cfg.returnCapacity then .ok (st, [])
  else
    match input.completes with
    | none => .ok (st, [])
    | some mf =>
        if mf ∈ st.dramPending then
          let left := { st with dramPending := st.dramPending.erase mf }
          if (st.request mf).isWriteBack then left.setDone cfg mf
          else .ok ({ left with dramReturn := st.dramReturn ++ [mf] }, [])
        else .ok (st, [])

/-! ## Issue -/

def canIssueToDram (st : MemoryPartitionUnit) (spid : Nat) : Bool :=
  st.arbitration.hasCredits cfg spid && !decide ((st.dramL2 spid).length ≥ cfg.dramL2QueueSize)

/-- The first sub partition after the last borrower that has a request and may issue it. -/
def nextToIssue (st : MemoryPartitionUnit) : Option Nat :=
  ((List.range cfg.nSubPartition).map fun p =>
    (p + st.arbitration.lastBorrower + 1) % cfg.nSubPartition).find? fun spid =>
      !(st.l2Dram spid).isEmpty && st.canIssueToDram cfg spid

def arbitrate : PartitionStage := fun st =>
  match st.nextToIssue cfg with
  | none => .ok ({ st with mfToBeClassified := none }, [])
  | some spid =>
      match st.l2Dram spid with
      | [] => .ok ({ st with mfToBeClassified := none }, [])
      | mf :: rest =>
          if input.dramFull (st.request mf).isWrite then .ok ({ st with mfToBeClassified := none }, [])
          else do
            let arbitration ← st.arbitration.borrowCredit cfg spid
            let issued := { st with
              l2Dram := Function.update st.l2Dram spid rest
              arbitration
              mfToBeClassified := some mf }
            return (issued, [.creditBorrowed spid mf, .issued spid mf (st.request mf)])

def sampleStage : PartitionStage := fun st =>
  let codebookUnit := st.codebookUnit.enqueueSampledSymbols cfg.blockAddr input.memory input.cycle
    (st.mfToBeClassified.map st.request)
  .ok ({ st with codebookUnit }, [])

def initialBuildStage : PartitionStage := fun st =>
  match st.codebookUnit.initialBuild input.choices cfg.fp input.cycle with
  | .error fault => .error (.length fault)
  | .ok codebookUnit => .ok ({ st with codebookUnit }, [])

def classify : PartitionStage := fun st =>
  match st.mfToBeClassified with
  | none => .ok (st, [])
  | some mf => do
      let taken := { st with mfToBeClassified := none }
      let queue : FifoName :=
        if (st.request mf).isLineRead then .l2ToMetadataTranslater
        else if (st.request mf).accessType = .l2WrbkAcc then .l2ToCompressor
        else .huffmanToDram
      let st ← taken.push queue mf
      return (st, [])

/-! ## Reads -/

/-- A read becomes a request for the metadata byte of its two data lines. -/
def asMetaDataRequest (request : MemFetch) : MemFetch :=
  { request with
    compressed := true
    originalSize := request.dataSize
    originalAddr := request.addr
    metadataAddr := request.addr >>> 8
    addr := request.addr >>> 8
    isMetaDataRequest := true }

def translate : PartitionStage := fun st =>
  match st.fifo .l2ToMetadataTranslater with
  | [] => .ok (st, [])
  | mf :: _ => do
      let altered := (st.pop .l2ToMetadataTranslater).modify mf asMetaDataRequest
      let st ← altered.push .toMetadataCache mf
      return (st, [])

/-- The compressor's answer for the line of a request. -/
def compressLine (st : MemoryPartitionUnit) (addr : Nat) : CompressOutcome :=
  let data := readMemory input.memory (cfg.blockAddr addr) memoryRequestSize
  st.codebookUnit.codebook.compressDataBlock (some data) 128

def updateStats (st : MemoryPartitionUnit) (outcome : CompressOutcome) :
    Except Fault MemoryPartitionUnit :=
  match st.codebookUnit.updateStats outcome with
  | none => .error .emptyIntervalStats
  | some codebookUnit => .ok { st with codebookUnit }

/-- `std::min<unsigned>(burst_size * MAG, MEMORY_REQUEST_SIZE)`. -/
def burstBytes (outcome : CompressOutcome) : Nat :=
  min (outcome.burstSize * mag % 2 ^ 32) memoryRequestSize

def recompress : PartitionStage := fun st =>
  match st.fifo .fromMetadataCache with
  | [] => .ok (st, [])
  | mf :: _ =>
      if !(st.request mf).isMetaDataRequest then .error .assertion
      else
        let popped := (st.pop .fromMetadataCache).modify mf fun request =>
          { request with isMetaDataRequest := false }
        if (st.request mf).compressed && (st.request mf).isLineRead then do
          let outcome := st.compressLine cfg input (st.request mf).originalAddr
          let counted ← popped.updateStats outcome
          let sized := counted.modify mf fun request =>
            (request.setAddr request.originalAddr).setDataSize (burstBytes outcome)
          let st ← sized.push .huffmanToDram mf
          return (st, [])
        else .ok (popped, [.dropped mf])

/-! ## Write-backs -/

def startCompression : PartitionStage := fun st =>
  match st.fifo .l2ToCompressor with
  | [] => .ok (st, [])
  | mf :: _ =>
      if (st.latency .compressor).length ≤ compressorBound cfg then
        if (st.request mf).accessType = .l2WrbkAcc then
          .ok ((st.pop .l2ToCompressor).pushLatency .compressor (input.cycle + compressorLatency) mf, [])
        else .error .assertion
      else .ok (st, [])

def completeCompression : PartitionStage := fun st =>
  match st.latency .compressor with
  | [] => .ok (st, [])
  | (readyCycle, mf) :: _ =>
      if input.cycle ≥ readyCycle then do
        let sent ← (st.popLatency .compressor).push .huffmanToDram mf
        let st ← sent.updateStats (st.compressLine cfg input (st.request mf).addr)
        return (st, [])
      else .ok (st, [])

/-! ## The metadata cache -/

def metadataResponse : PartitionStage := fun st =>
  if st.metadataCache.accessReady && !st.fifoFull .fromMetadataCache then
    match st.metadataCache.nextAccess with
    | .error fault => .error (.cache fault)
    | .ok (mf, metadataCache) =>
        let answered := { st with metadataCache }
        if (st.request mf).isLineRead then do
          let st ← answered.push .fromMetadataCache mf
          return (st, [])
        else .ok (answered, [.dropped mf])
  else .ok (st, [])

def metadataFill : PartitionStage := fun st =>
  match st.fifo .dramToMetadataCache with
  | [] => .ok (st, [])
  | mf :: _ =>
      let popped := st.pop .dramToMetadataCache
      if st.metadataCache.waitingForFill mf then
        match st.metadataCache.fill cfg.metadataConfig st.pool mf (input.cycle % 2 ^ 32) with
        | .error fault => .error (.cache fault)
        | .ok (metadataCache, pool) => .ok ({ popped with metadataCache, pool }, [])
      else .ok (popped, [.dropped mf])

/-- `baseline_cache::cycle` with the port into `huffman_to_dram`. -/
def metadataCycle : PartitionStage := fun st =>
  let replenished := { st with metadataCache := st.metadataCache.replenishPortBandwidth }
  match st.metadataCache.missQueue with
  | [] => .ok (replenished, [])
  | mf :: rest =>
      if st.fifoFull .huffmanToDram then .ok (replenished, [])
      else do
        let sent := { replenished with
          metadataCache := { replenished.metadataCache with missQueue := rest } }
        let st ← sent.push .huffmanToDram mf
        return (st, [])

/-- The write-back an access has made, if any. -/
def allocatedBy (st : MemoryPartitionUnit) (result : AccessResult) : List Event :=
  if result.pool.nextSerial > st.pool.nextSerial then [.allocated (.request st.pool.nextSerial)] else []

def metadataAccess : PartitionStage := fun st =>
  match st.fifo .toMetadataCache with
  | [] => .ok (st, [])
  | mf :: _ =>
      if !st.fifoFull .fromMetadataCache && st.metadataCache.dataPortFree then
        match st.metadataCache.access cfg.metadataConfig st.pool (st.request mf).addr mf
            (input.cycle % 2 ^ 32) with
        | .error fault => .error (.cache fault)
        | .ok result =>
            let accessed := { st with metadataCache := result.cache, pool := result.pool }
            let popped := accessed.pop .toMetadataCache
            match result.status with
            | .hit =>
                if !wasWriteSent result.events && (st.request mf).isLineRead then do
                  let st ← popped.push .fromMetadataCache mf
                  return (st, [])
                else .ok (popped, [.dropped mf])
            | .miss => .ok (popped, st.allocatedBy result)
            | .reservationFail => .ok (accessed, [])
            | _ => .error .assertion
      else .ok (st, [])

/-! ## Towards the DRAM -/

def enterDramLatency : PartitionStage := fun st =>
  match st.fifo .huffmanToDram with
  | [] => .ok (st, [])
  | mf :: _ => .ok ((st.pop .huffmanToDram).pushLatency .dram (input.cycle + cfg.dramLatency) mf, [])

/-- The sampling phase: a request goes to the DRAM latency queue as it is. -/
def samplingPhase : PartitionStage := fun st =>
  match st.mfToBeClassified with
  | none => .ok (st, [])
  | some mf =>
      let taken := { st with mfToBeClassified := none }
      .ok (taken.pushLatency .dram (input.cycle + cfg.dramLatency) mf, [])

def leaveDramLatency : PartitionStage := fun st =>
  match st.latency .dram with
  | [] => .ok (st, [])
  | (readyCycle, mf) :: _ =>
      if decide (input.cycle ≥ readyCycle) && !input.dramFull (st.request mf).isWrite then
        let popped := st.popLatency .dram
        if (st.request mf).isMetaDataRequest then do
          let st ← popped.push .dramToMetadataCache mf
          return (st, [])
        else if (st.request mf).chip = cfg.id then
          .ok ({ popped with dramPending := st.dramPending ++ [mf] }, [.dramPush mf (st.request mf)])
        else .error .assertion
      else .ok (st, [])

/-! ## The cycle -/

def returnStages : List PartitionStage :=
  [codebookStage cfg input, returnFromDram cfg input, completeDecompression input, returnToL2 cfg,
    dramModelCycle cfg input, arbitrate cfg input]

def compressionStages : List PartitionStage :=
  [sampleStage cfg input, initialBuildStage cfg input, classify, translate, recompress cfg input,
    startCompression cfg input, completeCompression cfg input, metadataResponse,
    metadataFill cfg input, metadataCycle, metadataAccess cfg input, enterDramLatency cfg input]

def samplingStages : List PartitionStage := [sampleStage cfg input, samplingPhase cfg input]

def phaseStages : List PartitionStage :=
  if input.cycle ≥ samplingDuration then compressionStages cfg input else samplingStages cfg input

def dramCycle : PartitionStage :=
  Stage.all (returnStages cfg input ++ phaseStages cfg input ++ [leaveDramLatency cfg input])

/-! ## Runs -/

/-- A sub partition pushes a request object into its L2-to-DRAM queue. -/
def handOver (st : MemoryPartitionUnit) (spid : Nat) (mf : MemFetch) : MemoryPartitionUnit :=
  { st with
    pool := (st.pool.alloc mf).2
    l2Dram := Function.update st.l2Dram spid (st.l2Dram spid ++ [(st.pool.alloc mf).1]) }

/-- Calls of `dram_cycle` at cycles that do not decrease, and the two ends of the
sub partitions' queues in between. Only `admitted` requests are handed over. -/
inductive Step (admitted : MemFetch → Prop) (st : MemoryPartitionUnit) :
    List Event → MemoryPartitionUnit → Prop
  | call (input : CycleInput) {next : MemoryPartitionUnit} {shown : List Event}
      (later : st.clock ≤ input.cycle) (done : dramCycle cfg input st = .ok (next, shown)) :
      Step admitted st shown next
  | handOver (spid : Nat) (mf : MemFetch) (here : spid < cfg.nSubPartition)
      (owned : mf.subPartitionId = cfg.id * cfg.nSubPartition + spid) (fresh : mf.Fresh)
      (admits : admitted mf) : Step admitted st [] (st.handOver spid mf)
  | collect (spid : Nat) (mf : MfId) (rest : List MfId) (front : st.dramL2 spid = mf :: rest) :
      Step admitted st [] { st with dramL2 := Function.update st.dramL2 spid rest }

/-- The runs of a partition from reset. -/
abbrev RunOf (admitted : MemFetch → Prop) (trace : List Event) (st : MemoryPartitionUnit) : Prop :=
  Reaches (Step cfg admitted) (create cfg) trace st

abbrev Run (trace : List Event) (st : MemoryPartitionUnit) : Prop := RunOf cfg (fun _ => True) trace st

/-- The runs without atomic operations. -/
abbrev AtomicFreeRun (trace : List Event) (st : MemoryPartitionUnit) : Prop :=
  RunOf cfg (fun mf => mf.isAtomic = false) trace st

end MemoryPartitionUnit

end GpgpuSim.Partition
