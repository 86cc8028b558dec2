import GpgpuSim.Partition.CycleRuns

/-! Runs by example: what happens to a partition, written down as a list. -/
namespace GpgpuSim.Partition
open GpgpuSim.Huffman GpgpuSim.Memory GpgpuSim.Cache Transition

inductive Action
  | call (input : CycleInput)
  | handOver (spid : Nat) (mf : MemFetch)
  | collect (spid : Nat)

instance (mf : MemFetch) : Decidable mf.Fresh := inferInstanceAs (Decidable (_ ∧ _))

namespace MemoryPartitionUnit

variable {cfg : MemoryConfig}

/-- An action that a run without atomic operations can take. -/
def perform (cfg : MemoryConfig) : Action → PartitionStage
  | .call input => fun st =>
      if st.clock ≤ input.cycle then dramCycle cfg input st else .error .assertion
  | .handOver spid mf => fun st =>
      if spid < cfg.nSubPartition ∧ mf.subPartitionId = cfg.id * cfg.nSubPartition + spid ∧ mf.Fresh ∧
          mf.isAtomic = false then
        .ok (st.handOver spid mf, [])
      else .error .assertion
  | .collect spid => fun st =>
      match st.dramL2 spid with
      | [] => .error .assertion
      | _ :: rest => .ok ({ st with dramL2 := Function.update st.dramL2 spid rest }, [])

def performAll (cfg : MemoryConfig) (actions : List Action) : PartitionStage :=
  Stage.all (actions.map (perform cfg))

theorem perform_step {action : Action} {st next : MemoryPartitionUnit} {shown : List Event}
    (done : perform cfg action st = .ok (next, shown)) :
    Step cfg (fun mf => mf.isAtomic = false) st shown next := by
  cases action with
  | call input =>
      simp only [perform] at done
      split at done
      · exact .call input ‹_› done
      · contradiction
  | handOver spid mf =>
      simp only [perform] at done
      split at done
      · rename_i allowed
        cases done
        exact .handOver spid mf allowed.1 allowed.2.1 allowed.2.2.1 allowed.2.2.2
      · contradiction
  | collect spid =>
      simp only [perform] at done
      split at done
      · contradiction
      · rename_i mf rest front
        cases done
        exact .collect spid mf rest front

theorem performAll_reaches {actions : List Action} {start st next : MemoryPartitionUnit} {trace shown : List Event}
    (run : Reaches (Step cfg fun mf => mf.isAtomic = false) start trace st)
    (done : performAll cfg actions st = .ok (next, shown)) :
    Reaches (Step cfg fun mf => mf.isAtomic = false) start (trace ++ shown) next := by
  induction actions generalizing trace st shown with
  | nil =>
      cases done
      rwa [List.append_nil]
  | cons action actions ih =>
      obtain ⟨middle, early, late, one, rest, rfl⟩ := Stage.andThen_ok.mp done
      rw [← List.append_assoc]
      exact ih (run.next (perform_step one)) rest

/-- The actions can be taken and `found` holds afterwards. -/
def arrives (cfg : MemoryConfig) (actions : List Action) (start : MemoryPartitionUnit)
    (found : List Event → MemoryPartitionUnit → Bool) : Bool :=
  match performAll cfg actions start with
  | .ok (st, trace) => found trace st
  | .error _ => false

theorem reaches_of_arrives {actions : List Action} {start : MemoryPartitionUnit}
    {found : List Event → MemoryPartitionUnit → Bool} (checked : arrives cfg actions start found = true) :
    ∃ trace st, Reaches (Step cfg fun mf => mf.isAtomic = false) start trace st ∧ found trace st = true := by
  unfold arrives at checked
  split at checked
  · rename_i st trace done
    exact ⟨trace, st, performAll_reaches .refl done, checked⟩
  · contradiction

/-- A call stops with a fault. -/
def stopsWith (cfg : MemoryConfig) (input : CycleInput) (fault : Fault) (st : MemoryPartitionUnit) : Bool :=
  match dramCycle cfg input st with
  | .ok _ => false
  | .error found => decide (found = fault)

theorem error_of_stopsWith {input : CycleInput} {fault : Fault} {st : MemoryPartitionUnit}
    (stopped : stopsWith cfg input fault st = true) : dramCycle cfg input st = .error fault := by
  unfold stopsWith at stopped
  split at stopped
  · contradiction
  · rename_i found failed
    rw [failed, of_decide_eq_true stopped]

theorem AtomicFreeRun.reaches {start st : MemoryPartitionUnit} {trace : List Event}
    (run : Reaches (Step cfg fun mf => mf.isAtomic = false) start trace st) :
    Reaches (Step cfg fun _ => True) start trace st := by
  apply Reaches.mono _ run
  intro s events t step
  cases step with
  | call input later done => exact .call input later done
  | handOver spid mf here owned fresh admits => exact .handOver spid mf here owned fresh trivial
  | collect spid mf rest front => exact .collect spid mf rest front

theorem AtomicFreeRun.run {trace : List Event} {st : MemoryPartitionUnit}
    (run : AtomicFreeRun cfg trace st) : Run cfg trace st :=
  AtomicFreeRun.reaches run

/-! ## A small partition -/

/-- One sub partition with 128-byte lines and the default metadata cache. -/
def small : MemoryConfig where
  id := 0
  nSubPartition := 1
  nSubPartition_pos := Nat.one_pos
  nMem := 1
  dramLatency := 100
  dramSchedQueueSize := 16
  dramReturnQueueSize := 16
  dramWriteQueueSize := 16
  seperateWriteQueueEnabled := false
  dramL2QueueSize := 8
  l2LineSize := 128
  metadataConfig :=
    { cacheType := .normal
      nset := 64
      lineSize := 128
      assoc := 8
      replacementPolicy := .lru
      writePolicy := .writeBack
      allocPolicy := .onMiss
      isStreaming := false
      mshrType := .assoc
      mshrEntries := 16
      mshrMaxMerge := 4
      missQueueSize := 4
      dataPortWidth := 128
      setIndex := fun addr => addr / 128 % 64 }
  fp := .exact

/-- A memory whose first line holds 64 different symbols. -/
def countingMemory : GlobalMemory := fun addr => if addr % 2 = 1 then UInt8.ofNat (addr / 2) else 0

/-- A call that finds the DRAM idle. -/
def idleCall (cycle : Nat) : CycleInput where
  cycle := cycle
  memory := countingMemory
  choices := .stable
  dramFull _ := false
  completes := none

def plainRequest (accessType : MemAccessType) (addr dataSize : Nat) : MemFetch where
  accessType := accessType
  addr := addr
  dataSize := dataSize
  subPartitionId := 0
  chip := 0

end MemoryPartitionUnit

end GpgpuSim.Partition
