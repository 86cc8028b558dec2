import GpgpuSim.Partition.CodebookRuns
import GpgpuSim.Partition.StageEffects

/-! What the stages of a cycle leave alone: the codebook outside the stages of the
codebook, and the queues in front of the compressor outside the stages that serve
them. -/
namespace GpgpuSim.Partition
open GpgpuSim.Huffman GpgpuSim.Memory GpgpuSim.Cache Transition

/-- The events of the codebook and of the calls. -/
def Event.ofCodebook : Event → Bool
  | .called _ | .rebuildStarted _ => true
  | _ => false

def Event.ofDram : Event → Bool
  | .dramPush _ _ => true
  | _ => false

namespace MemoryPartitionUnit

/-- Nothing happens to the codebook, its statistics left aside, and nothing is pushed to the DRAM. -/
structure Quiet (st next : MemoryPartitionUnit) (shown : List Event) : Prop where
  codebookUnit : next.codebookUnit.SameCodebook st.codebookUnit
  clock : next.clock = st.clock
  silent : ∀ e ∈ shown, e.ofCodebook = false
  dry : ∀ e ∈ shown, e.ofDram = false

/-- The queues that the compressor serves, and the request to classify. -/
structure SameFronts (st next : MemoryPartitionUnit) : Prop where
  answers : next.fifo .fromMetadataCache = st.fifo .fromMetadataCache
  compressor : next.latency .compressor = st.latency .compressor

variable {cfg : MemoryConfig} {input : CycleInput} {st next : MemoryPartitionUnit} {shown : List Event}

theorem Quiet.refl (st : MemoryPartitionUnit) : Quiet st st [] := ⟨.refl _, rfl, by simp, by simp⟩

/-- A stage that reports no event and keeps the codebook and the clock. -/
theorem Quiet.of_eq (unit : next.codebookUnit = st.codebookUnit) (clock : next.clock = st.clock) :
    Quiet st next [] := ⟨unit ▸ .refl _, clock, by simp, by simp⟩

/-! ## Returns and issue -/

theorem returnFromDram_keeps (done : returnFromDram cfg input st = .ok (next, shown)) :
    Quiet st next shown ∧ SameFronts st next ∧ next.mfToBeClassified = st.mfToBeClassified := by
  rcases returnFromDram_ok done with
    ⟨rfl, rfl | ⟨mf, rest, -, ⟨-, rfl⟩ | ⟨-, -, rfl⟩ | ⟨-, -, rfl⟩⟩⟩ <;>
  exact ⟨.of_eq rfl rfl, ⟨rfl, rfl⟩, rfl⟩

theorem completeDecompression_keeps (done : completeDecompression input st = .ok (next, shown)) :
    Quiet st next shown ∧ SameFronts st next ∧ next.mfToBeClassified = st.mfToBeClassified := by
  rcases completeDecompression_ok done with ⟨rfl, rfl | ⟨_, mf, rest, -, rfl⟩⟩ <;>
  exact ⟨.of_eq rfl rfl, ⟨rfl, rfl⟩, rfl⟩

theorem returnToL2_keeps (done : returnToL2 cfg st = .ok (next, shown)) :
    Quiet st next shown ∧ SameFronts st next ∧ next.mfToBeClassified = st.mfToBeClassified := by
  rcases returnToL2_ok done with
    ⟨rfl, rfl⟩ | ⟨mf, rest, spid, -, -, ⟨-, rfl, rfl⟩ | ⟨arbitration, -, rfl, rfl⟩⟩ <;>
  exact ⟨⟨.refl _, rfl, by simp [Event.ofCodebook], by simp [Event.ofDram]⟩, ⟨rfl, rfl⟩, rfl⟩

theorem dramModelCycle_keeps (done : dramModelCycle cfg input st = .ok (next, shown)) :
    Quiet st next shown ∧ SameFronts st next ∧ next.mfToBeClassified = st.mfToBeClassified := by
  rcases dramModelCycle_ok done with
    ⟨rfl, rfl⟩ | ⟨mf, -, ⟨-, spid, arbitration, -, -, rfl, rfl⟩ | ⟨-, rfl, rfl⟩⟩ <;>
  exact ⟨⟨.refl _, rfl, by simp [Event.ofCodebook], by simp [Event.ofDram]⟩, ⟨rfl, rfl⟩, rfl⟩

theorem arbitrate_keeps (done : arbitrate cfg input st = .ok (next, shown)) :
    Quiet st next shown ∧ SameFronts st next := by
  rcases arbitrate_ok done with ⟨rfl, rfl⟩ | ⟨spid, mf, rest, arbitration, -, -, -, rfl, rfl⟩ <;>
  exact ⟨⟨.refl _, rfl, by simp [Event.ofCodebook], by simp [Event.ofDram]⟩, rfl, rfl⟩

theorem classify_keeps (done : classify st = .ok (next, shown)) :
    Quiet st next shown ∧ SameFronts st next ∧ next.mfToBeClassified = none := by
  rcases classify_ok done with ⟨rfl, ⟨empty, rfl⟩ | ⟨mf, -, rfl⟩⟩
  · exact ⟨.refl _, ⟨rfl, rfl⟩, empty⟩
  · refine ⟨.of_eq rfl rfl, ⟨?_, rfl⟩, rfl⟩
    unfold queueOf
    split
    · rfl
    · split <;> rfl

/-! ## Reads and write-backs -/

theorem translate_keeps (done : translate st = .ok (next, shown)) :
    Quiet st next shown ∧ SameFronts st next ∧ next.mfToBeClassified = st.mfToBeClassified := by
  rcases translate_ok done with ⟨rfl, rfl | ⟨mf, rest, -, rfl⟩⟩ <;>
  exact ⟨.of_eq rfl rfl, ⟨rfl, rfl⟩, rfl⟩

theorem recompress_keeps (done : recompress cfg input st = .ok (next, shown)) :
    Quiet st next shown ∧ next.latency .compressor = st.latency .compressor ∧
      next.mfToBeClassified = st.mfToBeClassified := by
  rcases recompress_ok done with
    ⟨rfl, rfl⟩ | ⟨mf, rest, -, -, ⟨-, -, rfl, outcome, unit, updated, rfl⟩ | ⟨-, rfl, rfl⟩⟩
  · exact ⟨.refl _, rfl, rfl⟩
  · exact ⟨⟨CodebookUnit.updateStats_some updated, rfl, by simp, by simp⟩, rfl, rfl⟩
  · exact ⟨⟨.refl _, rfl, by simp [Event.ofCodebook], by simp [Event.ofDram]⟩, rfl, rfl⟩

theorem startCompression_keeps (done : startCompression cfg input st = .ok (next, shown)) :
    Quiet st next shown ∧ next.mfToBeClassified = st.mfToBeClassified := by
  rcases startCompression_ok done with ⟨rfl, rfl | ⟨mf, rest, -, -, rfl⟩⟩ <;>
  exact ⟨.of_eq rfl rfl, rfl⟩

theorem completeCompression_keeps (done : completeCompression cfg input st = .ok (next, shown)) :
    Quiet st next shown ∧ next.mfToBeClassified = st.mfToBeClassified := by
  rcases completeCompression_ok done with
    ⟨rfl, ⟨rfl, -⟩ | ⟨_, mf, rest, -, outcome, unit, updated, rfl⟩⟩
  · exact ⟨.refl _, rfl⟩
  · exact ⟨⟨CodebookUnit.updateStats_some updated, rfl, by simp, by simp⟩, rfl⟩

/-! ## The metadata cache and the way to the DRAM -/

theorem metadataResponse_keeps (done : metadataResponse st = .ok (next, shown)) :
    Quiet st next shown ∧ next.mfToBeClassified = st.mfToBeClassified := by
  rcases metadataResponse_ok done with
    ⟨rfl, rfl⟩ | ⟨mf, cache, -, ⟨-, rfl, rfl⟩ | ⟨-, rfl, rfl⟩⟩ <;>
  exact ⟨⟨.refl _, rfl, by simp [Event.ofCodebook], by simp [Event.ofDram]⟩, rfl⟩

theorem metadataFill_keeps (done : metadataFill cfg input st = .ok (next, shown)) :
    Quiet st next shown ∧ next.mfToBeClassified = st.mfToBeClassified := by
  rcases metadataFill_ok done with
    ⟨rfl, rfl⟩ | ⟨mf, rest, -, ⟨rfl, cache, pool, -, rfl⟩ | ⟨-, rfl, rfl⟩⟩ <;>
  exact ⟨⟨.refl _, rfl, by simp [Event.ofCodebook], by simp [Event.ofDram]⟩, rfl⟩

theorem metadataCycle_keeps (done : metadataCycle st = .ok (next, shown)) :
    Quiet st next shown ∧ next.mfToBeClassified = st.mfToBeClassified := by
  rcases metadataCycle_ok done with ⟨rfl, rfl | ⟨mf, rest, -, rfl⟩⟩ <;>
  exact ⟨.of_eq rfl rfl, rfl⟩

theorem metadataAccess_keeps (done : metadataAccess cfg input st = .ok (next, shown)) :
    Quiet st next shown ∧ next.mfToBeClassified = st.mfToBeClassified := by
  have allocated : ∀ result, ∀ e ∈ st.allocatedBy result, e.ofCodebook = false ∧ e.ofDram = false := by
    intro result e member
    unfold allocatedBy at member
    split at member
    · rw [List.mem_singleton.mp member]
      exact ⟨rfl, rfl⟩
    · contradiction
  rcases metadataAccess_ok done with ⟨rfl, rfl⟩ | ⟨mf, rest, result, -, -,
    ⟨-, -, rfl, rfl⟩ | ⟨-, -, rfl, rfl⟩ | ⟨-, rfl, rfl⟩ | ⟨-, rfl, rfl⟩⟩
  · exact ⟨.refl _, rfl⟩
  · exact ⟨.of_eq rfl rfl, rfl⟩
  · exact ⟨⟨.refl _, rfl, by simp [Event.ofCodebook], by simp [Event.ofDram]⟩, rfl⟩
  · exact ⟨⟨.refl _, rfl, fun e member => (allocated result e member).1,
      fun e member => (allocated result e member).2⟩, rfl⟩
  · exact ⟨.of_eq rfl rfl, rfl⟩

theorem enterDramLatency_keeps (done : enterDramLatency cfg input st = .ok (next, shown)) :
    Quiet st next shown ∧ next.mfToBeClassified = st.mfToBeClassified := by
  rcases enterDramLatency_ok done with ⟨rfl, rfl | ⟨mf, rest, -, rfl⟩⟩ <;>
  exact ⟨.of_eq rfl rfl, rfl⟩

theorem samplingPhase_keeps (done : samplingPhase cfg input st = .ok (next, shown)) :
    Quiet st next shown ∧ next.mfToBeClassified = none := by
  unfold samplingPhase at done
  split at done
  · rename_i empty
    cases done
    exact ⟨.refl _, empty⟩
  · cases done
    exact ⟨.of_eq rfl rfl, rfl⟩

/-- The last stage pushes a request to the DRAM and is quiet otherwise. -/
theorem leaveDramLatency_keeps (done : leaveDramLatency cfg input st = .ok (next, shown)) :
    next.codebookUnit = st.codebookUnit ∧ next.clock = st.clock ∧
      next.mfToBeClassified = st.mfToBeClassified ∧ ∀ e ∈ shown, e.ofCodebook = false := by
  rcases leaveDramLatency_ok done with
    ⟨rfl, rfl⟩ | ⟨_, mf, rest, -, ⟨-, rfl, rfl⟩ | ⟨-, rfl, rfl⟩⟩ <;>
  exact ⟨rfl, rfl, rfl, by simp [Event.ofCodebook]⟩

end MemoryPartitionUnit

end GpgpuSim.Partition
