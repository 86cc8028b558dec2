import GpgpuSim.Cache.Requests
import GpgpuSim.Partition.DramCycle
import GpgpuSim.Transition.Custody

/-! The places where a partition holds requests. -/
namespace GpgpuSim.Partition
open GpgpuSim.Memory GpgpuSim.Cache Transition

inductive Station
  | l2Dram (spid : Nat)
  | classified
  | fifo (name : FifoName)
  | latency (name : LatencyName)
  | dramPending
  | dramReturn
  | missQueue
  | waiting (block : Nat)
  deriving DecidableEq, Repr

/-- The station is behind the arbitration, so its requests have used a credit. -/
def Station.Inside : Station → Prop
  | .l2Dram _ => False
  | _ => True

namespace MemoryPartitionUnit

def held (st : MemoryPartitionUnit) : Station → List MfId
  | .l2Dram spid => st.l2Dram spid
  | .classified => st.mfToBeClassified.toList
  | .fifo name => st.fifo name
  | .latency name => (st.latency name).map Prod.snd
  | .dramPending => st.dramPending
  | .dramReturn => st.dramReturn
  | .missQueue => st.metadataCache.missQueue
  | .waiting block => st.metadataCache.waiting block

variable (st : MemoryPartitionUnit) (mf : MfId)

@[simp] theorem held_append (name : FifoName) :
    (st.append name mf).held = Function.update st.held (.fifo name) (st.fifo name ++ [mf]) := by
  funext s
  by_cases here : s = .fifo name
  · subst here
    simp [held, append]
  · rw [Function.update_of_ne here]
    cases s with
    | fifo other =>
        have apart : other ≠ name := fun same => here (same ▸ rfl)
        simp [held, append, apart]
    | _ => rfl

@[simp] theorem held_pop (name : FifoName) :
    (st.pop name).held = Function.update st.held (.fifo name) (st.fifo name).tail := by
  funext s
  by_cases here : s = .fifo name
  · subst here
    simp [held, pop]
  · rw [Function.update_of_ne here]
    cases s with
    | fifo other =>
        have apart : other ≠ name := fun same => here (same ▸ rfl)
        simp [held, pop, apart]
    | _ => rfl

@[simp] theorem held_pushLatency (name : LatencyName) (readyCycle : Nat) :
    (st.pushLatency name readyCycle mf).held =
      Function.update st.held (.latency name) (st.held (.latency name) ++ [mf]) := by
  funext s
  by_cases here : s = .latency name
  · subst here
    simp [held, pushLatency]
  · rw [Function.update_of_ne here]
    cases s with
    | latency other =>
        have apart : other ≠ name := fun same => here (same ▸ rfl)
        simp [held, pushLatency, apart]
    | _ => rfl

@[simp] theorem held_popLatency (name : LatencyName) :
    (st.popLatency name).held =
      Function.update st.held (.latency name) (st.held (.latency name)).tail := by
  funext s
  by_cases here : s = .latency name
  · subst here
    simp [held, popLatency]
  · rw [Function.update_of_ne here]
    cases s with
    | latency other =>
        have apart : other ≠ name := fun same => here (same ▸ rfl)
        simp [held, popLatency, apart]
    | _ => rfl

@[simp] theorem held_modify (change : MemFetch → MemFetch) : (st.modify mf change).held = st.held := by
  funext s
  cases s <;> rfl

theorem held_dramReturn (requests : List MfId) :
    held { st with dramReturn := requests } = Function.update st.held .dramReturn requests := by
  funext s
  cases s <;> rfl

theorem held_dramPending (requests : List MfId) :
    held { st with dramPending := requests } = Function.update st.held .dramPending requests := by
  funext s
  cases s <;> rfl

theorem held_classified (request : Option MfId) :
    held { st with mfToBeClassified := request } =
      Function.update st.held .classified request.toList := by
  funext s
  cases s <;> rfl

theorem held_l2Dram (spid : Nat) (requests : List MfId) :
    held { st with l2Dram := Function.update st.l2Dram spid requests } =
      Function.update st.held (.l2Dram spid) requests := by
  funext s
  by_cases here : s = .l2Dram spid
  · subst here
    simp [held]
  · rw [Function.update_of_ne here]
    cases s with
    | l2Dram other =>
        have apart : other ≠ spid := fun same => here (same ▸ rfl)
        simp [held, apart]
    | _ => rfl

theorem held_missQueue (requests : List MfId) :
    held { st with metadataCache := { st.metadataCache with missQueue := requests } } =
      Function.update st.held .missQueue requests := by
  funext s
  cases s <;> rfl

/-- Another cache with the same miss queue holds other waiting requests. -/
theorem held_waiting {cache : DataCache} {block : Nat} {requests : List MfId}
    (waits : cache.waiting = Function.update st.metadataCache.waiting block requests)
    (missQueue : cache.missQueue = st.metadataCache.missQueue) :
    held { st with metadataCache := cache } = Function.update st.held (.waiting block) requests := by
  funext s
  by_cases here : s = .waiting block
  · subst here
    simp [held, waits]
  · rw [Function.update_of_ne here]
    cases s with
    | waiting other =>
        have apart : other ≠ block := fun same => here (same ▸ rfl)
        simp [held, waits, apart]
    | missQueue => exact missQueue
    | _ => rfl

end MemoryPartitionUnit

end GpgpuSim.Partition
