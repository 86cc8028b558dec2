import GpgpuSim.Partition.Stations

/-! Everything a stage of `dram_cycle` can do, said once: the states it can leave
and the faults it can stop with. -/
namespace GpgpuSim.Partition
open GpgpuSim.Huffman GpgpuSim.Memory GpgpuSim.Cache Transition

namespace MemoryPartitionUnit

/-- Why a stage can stop, apart from the statistics: a full queue is pushed while
another place still holds the request to push, a credit is missing, or an
assertion of a part fails. -/
inductive Stopped (cfg : MemoryConfig) (st : MemoryPartitionUnit) : Fault → Prop
  | overflow (name : FifoName) (mf : MfId) (s : Station) (full : fifoCapacity ≤ (st.fifo name).length)
      (elsewhere : mf ∈ st.held s) (inside : s.Inside) (apart : s ≠ .fifo name) :
      Stopped cfg st (.fifoFull name)
  | credit (mf : MfId) (s : Station) (spid : Nat) (fault : Fault) (here : mf ∈ st.held s)
      (inside : s.Inside) (own : localId cfg (st.request mf).subPartitionId = .ok spid)
      (refused : st.arbitration.returnCredit spid = .error fault) : Stopped cfg st fault
  | assertion : Stopped cfg st .assertion
  | cache (fault : CacheFault) : Stopped cfg st (.cache fault)
  | length (fault : LengthFault) : Stopped cfg st (.length fault)

variable {cfg : MemoryConfig} {input : CycleInput} {st next : MemoryPartitionUnit} {shown : List Event}
  {fault : Fault}

theorem localId_ok {globalId spid : Nat} (own : localId cfg globalId = .ok spid) :
    spid < cfg.nSubPartition ∧ globalId = cfg.id * cfg.nSubPartition + spid := by
  unfold localId at own
  split at own
  · cases own
    omega
  · contradiction

theorem localId_error {globalId : Nat} (outside : localId cfg globalId = .error fault) :
    fault = .assertion := by
  unfold localId at outside
  split at outside
  · contradiction
  · cases outside
    rfl

theorem localId_owned {spid : Nat} (here : spid < cfg.nSubPartition) :
    localId cfg (cfg.id * cfg.nSubPartition + spid) = .ok spid := by
  unfold localId
  rw [if_pos (by omega)]
  congr 1
  omega

/-! ## Returns -/

theorem codebookStage_ok (done : codebookStage cfg input st = .ok (next, shown)) :
    ∃ codebookUnit begun,
      st.codebookUnit.codebookCycle input.choices cfg.fp input.cycle = .ok (codebookUnit, begun) ∧
      next = { st with codebookUnit, clock := input.cycle } ∧
      shown = .called input.cycle :: if begun then [.rebuildStarted input.cycle] else [] := by
  unfold codebookStage at done
  split at done
  · contradiction
  · cases done
    exact ⟨_, _, ‹_›, rfl, rfl⟩

theorem codebookStage_error (stopped : codebookStage cfg input st = .error fault) :
    Stopped cfg st fault := by
  unfold codebookStage at stopped
  split at stopped
  · cases stopped
    exact .length _
  · contradiction

/-- A push and the empty list of events. -/
theorem push_then {name : FifoName} {mf : MfId} {base : MemoryPartitionUnit}
    (done : (do let st ← base.push name mf; return (st, ([] : List Event))) = .ok (next, shown)) :
    shown = [] ∧ next = base.append name mf := by
  obtain ⟨pushed, push, done⟩ := bind_ok.mp done
  cases done
  exact ⟨rfl, push_ok push⟩

theorem push_then_error {name : FifoName} {mf : MfId} {base : MemoryPartitionUnit}
    (stopped : (do let st ← base.push name mf; return (st, ([] : List Event))) = .error fault) :
    fault = .fifoFull name ∧ fifoCapacity ≤ (base.fifo name).length := by
  rcases bind_error.mp stopped with push | ⟨_, _, done⟩
  · exact push_error push
  · contradiction

theorem returnFromDram_ok (done : returnFromDram cfg input st = .ok (next, shown)) :
    shown = [] ∧ (next = st ∨ ∃ mf rest, st.dramReturn = mf :: rest ∧
      (((st.request mf).isMetaDataRequest = true ∧
          next = append { st with dramReturn := rest } .dramToMetadataCache mf) ∨
        ((st.request mf).isMetaDataRequest = false ∧ (st.request mf).isLineRead = true ∧
          next = pushLatency { st with dramReturn := rest } .decompressor
            (input.cycle + decompressorLatency / pwd) mf) ∨
        ((st.request mf).isMetaDataRequest = false ∧
          ((st.request mf).isLineRead && st.codebookUnit.huffmanEnabled) = false ∧
          next = append { st with dramReturn := rest } .decompressorToL2 mf))) := by
  unfold returnFromDram at done
  split at done
  · cases done
    exact ⟨rfl, .inl rfl⟩
  · rename_i mf rest front
    dsimp only at done
    split at done
    · rename_i metadata
      obtain ⟨rfl, rfl⟩ := push_then done
      exact ⟨rfl, .inr ⟨mf, rest, front, .inl ⟨metadata, rfl⟩⟩⟩
    · rename_i data
      rw [Bool.not_eq_true] at data
      split at done
      · rename_i read
        split at done
        · cases done
          exact ⟨rfl, .inr ⟨mf, rest, front, .inr (.inl ⟨data, (Bool.and_eq_true_iff.mp read).1, rfl⟩)⟩⟩
        · cases done
          exact ⟨rfl, .inl rfl⟩
      · rename_i plain
        rw [Bool.not_eq_true] at plain
        split at done
        · cases done
          exact ⟨rfl, .inl rfl⟩
        · obtain ⟨rfl, rfl⟩ := push_then done
          exact ⟨rfl, .inr ⟨mf, rest, front, .inr (.inr ⟨data, plain, rfl⟩)⟩⟩

theorem returnFromDram_error (stopped : returnFromDram cfg input st = .error fault) :
    Stopped cfg st fault := by
  unfold returnFromDram at stopped
  split at stopped
  · contradiction
  · rename_i mf rest front
    have here : mf ∈ st.held .dramReturn := by simp [held, front]
    dsimp only at stopped
    split at stopped
    · obtain ⟨rfl, full⟩ := push_then_error stopped
      exact .overflow _ mf .dramReturn full here trivial (by simp)
    · split at stopped
      · split at stopped <;> contradiction
      · split at stopped
        · contradiction
        · obtain ⟨rfl, full⟩ := push_then_error stopped
          exact .overflow _ mf .dramReturn full here trivial (by simp)

theorem completeDecompression_ok (done : completeDecompression input st = .ok (next, shown)) :
    shown = [] ∧ (next = st ∨ ∃ readyCycle mf rest, st.latency .decompressor = (readyCycle, mf) :: rest ∧
      next = ((st.popLatency .decompressor).modify mf restoreSize).append .decompressorToL2 mf) := by
  unfold completeDecompression at done
  split at done
  · cases done
    exact ⟨rfl, .inl rfl⟩
  · rename_i readyCycle mf rest front
    split at done
    · obtain ⟨rfl, rfl⟩ := push_then done
      exact ⟨rfl, .inr ⟨readyCycle, mf, rest, front, rfl⟩⟩
    · cases done
      exact ⟨rfl, .inl rfl⟩

theorem completeDecompression_error (stopped : completeDecompression input st = .error fault) :
    Stopped cfg st fault := by
  unfold completeDecompression at stopped
  split at stopped
  · contradiction
  · rename_i readyCycle mf rest front
    split at stopped
    · obtain ⟨rfl, full⟩ := push_then_error stopped
      exact .overflow _ mf (.latency .decompressor) full (by simp [held, front]) trivial (by simp)
    · contradiction

theorem returnCredit_ok {base : MemoryPartitionUnit} {spid : Nat} (done : base.returnCredit spid = .ok next) :
    ∃ arbitration, base.arbitration.returnCredit spid = .ok arbitration ∧
      next = { base with arbitration } := by
  obtain ⟨arbitration, returned, done⟩ := bind_ok.mp done
  cases done
  exact ⟨arbitration, returned, rfl⟩

theorem returnCredit_error {base : MemoryPartitionUnit} {spid : Nat}
    (stopped : base.returnCredit spid = .error fault) :
    base.arbitration.returnCredit spid = .error fault := by
  rcases bind_error.mp stopped with refused | ⟨_, _, done⟩
  · exact refused
  · contradiction

theorem returnToL2_ok (done : returnToL2 cfg st = .ok (next, shown)) :
    (shown = [] ∧ next = st) ∨ ∃ mf rest spid, st.fifo .decompressorToL2 = mf :: rest ∧
      localId cfg (st.request mf).subPartitionId = .ok spid ∧
      (((st.request mf).accessType = .l1WrbkAcc ∧ next = st.pop .decompressorToL2 ∧
          shown = [.retired mf]) ∨
        ∃ arbitration, st.arbitration.returnCredit spid = .ok arbitration ∧
          next = { st.pop .decompressorToL2 with
            dramL2 := Function.update st.dramL2 spid (st.dramL2 spid ++ [mf]), arbitration } ∧
          shown = [.delivered spid mf (st.request mf), .creditReturned spid mf]) := by
  unfold returnToL2 at done
  split at done
  · cases done
    exact .inl ⟨rfl, rfl⟩
  · rename_i mf rest front
    obtain ⟨spid, own, done⟩ := bind_ok.mp done
    split at done
    · cases done
      exact .inl ⟨rfl, rfl⟩
    · dsimp only at done
      split at done
      · rename_i type
        cases done
        exact .inr ⟨mf, rest, spid, front, own, .inl ⟨type, rfl, rfl⟩⟩
      · obtain ⟨credited, crediting, done⟩ := bind_ok.mp done
        obtain ⟨arbitration, returned, rfl⟩ := returnCredit_ok crediting
        cases done
        exact .inr ⟨mf, rest, spid, front, own, .inr ⟨arbitration, returned, rfl, rfl⟩⟩

theorem returnToL2_error (stopped : returnToL2 cfg st = .error fault) : Stopped cfg st fault := by
  unfold returnToL2 at stopped
  split at stopped
  · contradiction
  · rename_i mf rest front
    have here : mf ∈ st.held (.fifo .decompressorToL2) := by simp [held, front]
    rcases bind_error.mp stopped with outside | ⟨spid, own, stopped⟩
    · rw [localId_error outside]
      exact .assertion
    · split at stopped
      · contradiction
      · dsimp only at stopped
        split at stopped
        · contradiction
        · rcases bind_error.mp stopped with refused | ⟨_, _, done⟩
          · have cause := returnCredit_error refused
            exact .credit mf _ spid fault here trivial own cause
          · contradiction

theorem dramModelCycle_ok (done : dramModelCycle cfg input st = .ok (next, shown)) :
    (shown = [] ∧ next = st) ∨ ∃ mf, mf ∈ st.dramPending ∧
      (((st.request mf).isWriteBack = true ∧ ∃ spid arbitration,
          localId cfg (st.request mf).subPartitionId = .ok spid ∧
          st.arbitration.returnCredit spid = .ok arbitration ∧
          next = { st with dramPending := st.dramPending.erase mf, arbitration } ∧
          shown = [.retired mf, .creditReturned spid mf]) ∨
        ((st.request mf).isWriteBack = false ∧ shown = [] ∧
          next = { st with
            dramPending := st.dramPending.erase mf, dramReturn := st.dramReturn ++ [mf] })) := by
  unfold dramModelCycle at done
  split at done
  · cases done
    exact .inl ⟨rfl, rfl⟩
  · split at done
    · cases done
      exact .inl ⟨rfl, rfl⟩
    · rename_i mf _
      split at done
      · rename_i member
        dsimp only at done
        split at done
        · rename_i back
          unfold setDone at done
          obtain ⟨spid, own, done⟩ := bind_ok.mp done
          have back' : (request { st with dramPending := st.dramPending.erase mf } mf).isWriteBack = true :=
            back
          rw [if_pos back'] at done
          obtain ⟨credited, crediting, done⟩ := bind_ok.mp done
          obtain ⟨arbitration, returned, rfl⟩ := returnCredit_ok crediting
          cases done
          exact .inr ⟨mf, member, .inl ⟨back, spid, arbitration, own, returned, rfl, rfl⟩⟩
        · rename_i back
          rw [Bool.not_eq_true] at back
          cases done
          exact .inr ⟨mf, member, .inr ⟨back, rfl, rfl⟩⟩
      · cases done
        exact .inl ⟨rfl, rfl⟩

theorem dramModelCycle_error (stopped : dramModelCycle cfg input st = .error fault) :
    Stopped cfg st fault := by
  unfold dramModelCycle at stopped
  split at stopped
  · contradiction
  · split at stopped
    · contradiction
    · rename_i mf _
      split at stopped
      · rename_i member
        dsimp only at stopped
        split at stopped
        · unfold setDone at stopped
          rcases bind_error.mp stopped with outside | ⟨spid, own, stopped⟩
          · rw [localId_error outside]
            exact .assertion
          · split at stopped
            · rcases bind_error.mp stopped with refused | ⟨_, _, done⟩
              · have cause := returnCredit_error refused
                exact .credit mf .dramPending spid fault member trivial own cause
              · contradiction
            · contradiction
        · contradiction
      · contradiction

/-! ## Issue -/

theorem nextToIssue_some {spid : Nat} (found : st.nextToIssue cfg = some spid) :
    spid < cfg.nSubPartition ∧ st.arbitration.hasCredits cfg spid = true := by
  unfold nextToIssue at found
  have member := List.mem_of_find?_eq_some found
  have chosen := List.find?_some found
  simp only [Bool.and_eq_true, canIssueToDram] at chosen
  obtain ⟨p, -, rfl⟩ := List.mem_map.mp member
  exact ⟨Nat.mod_lt _ cfg.nSubPartition_pos, chosen.2.1⟩

theorem arbitrate_ok (done : arbitrate cfg input st = .ok (next, shown)) :
    (shown = [] ∧ next = { st with mfToBeClassified := none }) ∨
      ∃ spid mf rest arbitration, spid < cfg.nSubPartition ∧ st.l2Dram spid = mf :: rest ∧
        st.arbitration.borrowCredit cfg spid = .ok arbitration ∧
        next = { st with
          l2Dram := Function.update st.l2Dram spid rest, arbitration, mfToBeClassified := some mf } ∧
        shown = [.creditBorrowed spid mf, .issued spid mf (st.request mf)] := by
  unfold arbitrate at done
  split at done
  · cases done
    exact .inl ⟨rfl, rfl⟩
  · rename_i spid chosen
    split at done
    · cases done
      exact .inl ⟨rfl, rfl⟩
    · rename_i mf rest front
      split at done
      · cases done
        exact .inl ⟨rfl, rfl⟩
      · obtain ⟨arbitration, borrowed, done⟩ := bind_ok.mp done
        cases done
        exact .inr ⟨spid, mf, rest, arbitration, (nextToIssue_some chosen).1, front, borrowed, rfl, rfl⟩

/-- The arbitration never asks for a credit that is not there. -/
theorem arbitrate_error : arbitrate cfg input st ≠ .error fault := by
  intro stopped
  unfold arbitrate at stopped
  split at stopped
  · contradiction
  · rename_i spid chosen
    obtain ⟨arbitration, borrowed⟩ :=
      ArbitrationMetadata.borrow_of_hasCredits (nextToIssue_some chosen).2
    split at stopped
    · contradiction
    · split at stopped
      · contradiction
      · rcases bind_error.mp stopped with refused | ⟨_, _, done⟩
        · rw [borrowed] at refused
          contradiction
        · contradiction

theorem initialBuildStage_ok (done : initialBuildStage cfg input st = .ok (next, shown)) :
    ∃ codebookUnit, st.codebookUnit.initialBuild input.choices cfg.fp input.cycle = .ok codebookUnit ∧
      next = { st with codebookUnit } ∧ shown = [] := by
  unfold initialBuildStage at done
  split at done
  · contradiction
  · cases done
    exact ⟨_, ‹_›, rfl, rfl⟩

theorem initialBuildStage_error (stopped : initialBuildStage cfg input st = .error fault) :
    Stopped cfg st fault := by
  unfold initialBuildStage at stopped
  split at stopped
  · cases stopped
    exact .length _
  · contradiction

/-- The queue that the type of a request selects. -/
def queueOf (request : MemFetch) : FifoName :=
  if request.isLineRead then .l2ToMetadataTranslater
  else if request.accessType = .l2WrbkAcc then .l2ToCompressor
  else .huffmanToDram

theorem classify_ok (done : classify st = .ok (next, shown)) :
    shown = [] ∧ ((st.mfToBeClassified = none ∧ next = st) ∨ ∃ mf, st.mfToBeClassified = some mf ∧
      next = append { st with mfToBeClassified := none } (queueOf (st.request mf)) mf) := by
  unfold classify at done
  split at done
  · rename_i empty
    cases done
    exact ⟨rfl, .inl ⟨empty, rfl⟩⟩
  · rename_i mf taken
    obtain ⟨rfl, rfl⟩ := push_then done
    exact ⟨rfl, .inr ⟨mf, taken, rfl⟩⟩

theorem classify_error (stopped : classify st = .error fault) : Stopped cfg st fault := by
  unfold classify at stopped
  split at stopped
  · contradiction
  · rename_i mf taken
    obtain ⟨rfl, full⟩ := push_then_error stopped
    exact .overflow _ mf .classified full (by simp [held, taken]) trivial (by simp)

/-! ## Reads and write-backs -/

theorem translate_ok (done : translate st = .ok (next, shown)) :
    shown = [] ∧ (next = st ∨ ∃ mf rest, st.fifo .l2ToMetadataTranslater = mf :: rest ∧
      next = ((st.pop .l2ToMetadataTranslater).modify mf asMetaDataRequest).append .toMetadataCache mf) := by
  unfold translate at done
  split at done
  · cases done
    exact ⟨rfl, .inl rfl⟩
  · rename_i mf rest front
    obtain ⟨rfl, rfl⟩ := push_then done
    exact ⟨rfl, .inr ⟨mf, rest, front, rfl⟩⟩

theorem translate_error (stopped : translate st = .error fault) : Stopped cfg st fault := by
  unfold translate at stopped
  split at stopped
  · contradiction
  · rename_i mf rest front
    obtain ⟨rfl, full⟩ := push_then_error stopped
    exact .overflow .toMetadataCache mf (.fifo .l2ToMetadataTranslater) full (by simp [held, front])
      trivial (by simp)

theorem updateStats_ok {base : MemoryPartitionUnit} {outcome : CompressOutcome}
    (done : base.updateStats outcome = .ok next) :
    ∃ codebookUnit, base.codebookUnit.updateStats outcome = some codebookUnit ∧
      next = { base with codebookUnit } := by
  unfold updateStats at done
  split at done
  · contradiction
  · cases done
    exact ⟨_, ‹_›, rfl⟩

theorem updateStats_error {base : MemoryPartitionUnit} {outcome : CompressOutcome}
    (stopped : base.updateStats outcome = .error fault) :
    fault = .emptyIntervalStats ∧ base.codebookUnit.updateStats outcome = none := by
  unfold updateStats at stopped
  split at stopped
  · cases stopped
    exact ⟨rfl, ‹_›⟩
  · contradiction

/-- A request whose metadata has arrived, before its size is known. -/
def asDataRequest (request : MemFetch) : MemFetch := { request with isMetaDataRequest := false }

/-- The read of the line with the size of its compressed form. -/
def asSizedRequest (outcome : CompressOutcome) (request : MemFetch) : MemFetch :=
  (request.setAddr request.originalAddr).setDataSize (burstBytes outcome)

theorem recompress_ok (done : recompress cfg input st = .ok (next, shown)) :
    (shown = [] ∧ next = st) ∨ ∃ mf rest, st.fifo .fromMetadataCache = mf :: rest ∧
      (st.request mf).isMetaDataRequest = true ∧
      (((st.request mf).compressed = true ∧ (st.request mf).isLineRead = true ∧ shown = [] ∧
          ∃ outcome codebookUnit, st.codebookUnit.updateStats outcome = some codebookUnit ∧
            next = (({ (st.pop .fromMetadataCache).modify mf asDataRequest with codebookUnit }).modify mf
              (asSizedRequest outcome)).append .huffmanToDram mf) ∨
        (((st.request mf).compressed && (st.request mf).isLineRead) = false ∧
          shown = [.dropped mf] ∧ next = (st.pop .fromMetadataCache).modify mf asDataRequest)) := by
  unfold recompress at done
  split at done
  · cases done
    exact .inl ⟨rfl, rfl⟩
  · rename_i mf rest front
    split at done
    · contradiction
    · rename_i metadata
      rw [Bool.not_eq_true', Bool.not_eq_false] at metadata
      dsimp only at done
      split at done
      · rename_i routed
        obtain ⟨routed, read⟩ := Bool.and_eq_true_iff.mp routed
        obtain ⟨counted, counting, done⟩ := bind_ok.mp done
        obtain ⟨codebookUnit, updated, rfl⟩ := updateStats_ok counting
        obtain ⟨rfl, rfl⟩ := push_then done
        exact .inr ⟨mf, rest, front, metadata, .inl ⟨routed, read, rfl, _, codebookUnit, updated, rfl⟩⟩
      · rename_i other
        rw [Bool.not_eq_true] at other
        cases done
        exact .inr ⟨mf, rest, front, metadata, .inr ⟨other, rfl, rfl⟩⟩

theorem recompress_error (stopped : recompress cfg input st = .error fault) :
    Stopped cfg st fault ∨ (fault = .emptyIntervalStats ∧ st.fifo .fromMetadataCache ≠ [] ∧
      ∃ outcome, st.codebookUnit.updateStats outcome = none) := by
  unfold recompress at stopped
  split at stopped
  · contradiction
  · rename_i mf rest front
    split at stopped
    · cases stopped
      exact .inl .assertion
    · dsimp only at stopped
      split at stopped
      · rcases bind_error.mp stopped with empty | ⟨counted, counting, stopped⟩
        · obtain ⟨rfl, none⟩ := updateStats_error empty
          exact .inr ⟨rfl, by simp [front], _, none⟩
        · obtain ⟨codebookUnit, -, rfl⟩ := updateStats_ok counting
          obtain ⟨rfl, full⟩ := push_then_error stopped
          exact .inl (.overflow .huffmanToDram mf (.fifo .fromMetadataCache) full (by simp [held, front])
            trivial (by simp))
      · contradiction

theorem startCompression_ok (done : startCompression cfg input st = .ok (next, shown)) :
    shown = [] ∧ (next = st ∨ ∃ mf rest, st.fifo .l2ToCompressor = mf :: rest ∧
      (st.request mf).accessType = .l2WrbkAcc ∧
      next = (st.pop .l2ToCompressor).pushLatency .compressor (input.cycle + compressorLatency) mf) := by
  unfold startCompression at done
  split at done
  · cases done
    exact ⟨rfl, .inl rfl⟩
  · rename_i mf rest front
    split at done
    · split at done
      · rename_i back
        cases done
        exact ⟨rfl, .inr ⟨mf, rest, front, back, rfl⟩⟩
      · contradiction
    · cases done
      exact ⟨rfl, .inl rfl⟩

theorem startCompression_error (stopped : startCompression cfg input st = .error fault) :
    Stopped cfg st fault := by
  unfold startCompression at stopped
  split at stopped
  · contradiction
  · split at stopped
    · split at stopped
      · contradiction
      · cases stopped
        exact .assertion
    · contradiction

theorem completeCompression_ok (done : completeCompression cfg input st = .ok (next, shown)) :
    shown = [] ∧ ((next = st ∧ ∀ readyCycle mf rest, st.latency .compressor = (readyCycle, mf) :: rest →
        input.cycle < readyCycle) ∨
      ∃ readyCycle mf rest, st.latency .compressor = (readyCycle, mf) :: rest ∧
        ∃ outcome codebookUnit, st.codebookUnit.updateStats outcome = some codebookUnit ∧
          next = { (st.popLatency .compressor).append .huffmanToDram mf with codebookUnit }) := by
  unfold completeCompression at done
  split at done
  · rename_i empty
    cases done
    refine ⟨rfl, .inl ⟨rfl, fun readyCycle mf rest front => ?_⟩⟩
    rw [empty] at front
    contradiction
  · rename_i readyCycle mf rest front
    split at done
    · obtain ⟨sent, sending, done⟩ := bind_ok.mp done
      obtain ⟨counted, counting, done⟩ := bind_ok.mp done
      obtain ⟨codebookUnit, updated, rfl⟩ := updateStats_ok counting
      cases push_ok sending
      cases done
      exact ⟨rfl, .inr ⟨readyCycle, mf, rest, front, _, codebookUnit, updated, rfl⟩⟩
    · rename_i early
      cases done
      refine ⟨rfl, .inl ⟨rfl, fun readyCycle' mf' rest' front' => ?_⟩⟩
      rw [front] at front'
      cases front'
      exact not_le.mp early

theorem completeCompression_error (stopped : completeCompression cfg input st = .error fault) :
    Stopped cfg st fault ∨ (fault = .emptyIntervalStats ∧
      (∃ readyCycle mf rest, st.latency .compressor = (readyCycle, mf) :: rest ∧ readyCycle ≤ input.cycle) ∧
      ∃ outcome, st.codebookUnit.updateStats outcome = none) := by
  unfold completeCompression at stopped
  split at stopped
  · contradiction
  · rename_i readyCycle mf rest front
    split at stopped
    · rename_i due
      rcases bind_error.mp stopped with overflow | ⟨sent, sending, stopped⟩
      · obtain ⟨rfl, full⟩ := push_error overflow
        exact .inl (.overflow .huffmanToDram mf (.latency .compressor) full (by simp [held, front])
          trivial (by simp))
      · rcases bind_error.mp stopped with empty | ⟨_, _, done⟩
        · obtain ⟨rfl, none⟩ := updateStats_error empty
          cases push_ok sending
          exact .inr ⟨rfl, ⟨readyCycle, mf, rest, front, due⟩, _, none⟩
        · contradiction
    · contradiction

/-! ## The metadata cache -/

theorem metadataResponse_ok (done : metadataResponse st = .ok (next, shown)) :
    (shown = [] ∧ next = st) ∨ ∃ mf metadataCache,
      st.metadataCache.nextAccess = .ok (mf, metadataCache) ∧
      (((st.request mf).isLineRead = true ∧ shown = [] ∧
          next = append { st with metadataCache } .fromMetadataCache mf) ∨
        ((st.request mf).isLineRead = false ∧ shown = [.dropped mf] ∧
          next = { st with metadataCache })) := by
  unfold metadataResponse at done
  split at done
  · split at done
    · contradiction
    · rename_i mf metadataCache left
      dsimp only at done
      split at done
      · rename_i read
        obtain ⟨rfl, rfl⟩ := push_then done
        exact .inr ⟨mf, metadataCache, left, .inl ⟨read, rfl, rfl⟩⟩
      · rename_i other
        rw [Bool.not_eq_true] at other
        cases done
        exact .inr ⟨mf, metadataCache, left, .inr ⟨other, rfl, rfl⟩⟩
  · cases done
    exact .inl ⟨rfl, rfl⟩

/-- The stage has looked for room before it pushes. -/
theorem metadataResponse_error (stopped : metadataResponse st = .error fault) : Stopped cfg st fault := by
  unfold metadataResponse at stopped
  split at stopped
  · rename_i ready
    split at stopped
    · cases stopped
      exact .cache _
    · dsimp only at stopped
      split at stopped
      · obtain ⟨rfl, full⟩ := push_then_error stopped
        simp only [fifoFull, Bool.and_eq_true, Bool.not_eq_true', decide_eq_false_iff_not] at ready
        exact absurd full ready.2
      · contradiction
  · contradiction

theorem metadataFill_ok (done : metadataFill cfg input st = .ok (next, shown)) :
    (shown = [] ∧ next = st) ∨ ∃ mf rest, st.fifo .dramToMetadataCache = mf :: rest ∧
      ((shown = [] ∧ ∃ metadataCache pool, st.metadataCache.fill cfg.metadataConfig st.pool mf
            (input.cycle % 2 ^ 32) = .ok (metadataCache, pool) ∧
          next = { st.pop .dramToMetadataCache with metadataCache, pool }) ∨
        (st.metadataCache.waitingForFill mf = false ∧ shown = [.dropped mf] ∧
          next = st.pop .dramToMetadataCache)) := by
  unfold metadataFill at done
  split at done
  · cases done
    exact .inl ⟨rfl, rfl⟩
  · rename_i mf rest front
    dsimp only at done
    split at done
    · split at done
      · contradiction
      · rename_i metadataCache pool filled
        cases done
        exact .inr ⟨mf, rest, front, .inl ⟨rfl, metadataCache, pool, filled, rfl⟩⟩
    · rename_i unknown
      rw [Bool.not_eq_true] at unknown
      cases done
      exact .inr ⟨mf, rest, front, .inr ⟨unknown, rfl, rfl⟩⟩

theorem metadataFill_error (stopped : metadataFill cfg input st = .error fault) : Stopped cfg st fault := by
  unfold metadataFill at stopped
  split at stopped
  · contradiction
  · dsimp only at stopped
    split at stopped
    · split at stopped
      · cases stopped
        exact .cache _
      · contradiction
    · contradiction

/-- The cache with its ports one cycle on. -/
def replenished (st : MemoryPartitionUnit) : MemoryPartitionUnit :=
  { st with metadataCache := st.metadataCache.replenishPortBandwidth }

theorem metadataCycle_ok (done : metadataCycle st = .ok (next, shown)) :
    shown = [] ∧ (next = st.replenished ∨ ∃ mf rest, st.metadataCache.missQueue = mf :: rest ∧
      next = append { st.replenished with
        metadataCache := { st.replenished.metadataCache with missQueue := rest } } .huffmanToDram mf) := by
  unfold metadataCycle at done
  dsimp only at done
  split at done
  · cases done
    exact ⟨rfl, .inl rfl⟩
  · rename_i mf rest front
    split at done
    · cases done
      exact ⟨rfl, .inl rfl⟩
    · obtain ⟨rfl, rfl⟩ := push_then done
      exact ⟨rfl, .inr ⟨mf, rest, front, rfl⟩⟩

theorem metadataCycle_error : metadataCycle st ≠ .error fault := by
  intro stopped
  unfold metadataCycle at stopped
  dsimp only at stopped
  split at stopped
  · contradiction
  · split at stopped
    · contradiction
    · rename_i room
      obtain ⟨rfl, full⟩ := push_then_error stopped
      exact room (decide_eq_true full)

theorem metadataAccess_ok (done : metadataAccess cfg input st = .ok (next, shown)) :
    (shown = [] ∧ next = st) ∨ ∃ mf rest result, st.fifo .toMetadataCache = mf :: rest ∧
      st.metadataCache.access cfg.metadataConfig st.pool (st.request mf).addr mf
        (input.cycle % 2 ^ 32) = .ok result ∧
      ((result.status = .hit ∧ (st.request mf).isLineRead = true ∧ shown = [] ∧
          next = ({ st with metadataCache := result.cache, pool := result.pool }.pop
            .toMetadataCache).append .fromMetadataCache mf) ∨
        (result.status = .hit ∧ (wasWriteSent result.events = true ∨ (st.request mf).isLineRead = false) ∧
          shown = [.dropped mf] ∧
          next = { st with metadataCache := result.cache, pool := result.pool }.pop .toMetadataCache) ∨
        (result.status = .miss ∧ shown = st.allocatedBy result ∧
          next = { st with metadataCache := result.cache, pool := result.pool }.pop .toMetadataCache) ∨
        (result.status = .reservationFail ∧ shown = [] ∧
          next = { st with metadataCache := result.cache, pool := result.pool })) := by
  unfold metadataAccess at done
  split at done
  · cases done
    exact .inl ⟨rfl, rfl⟩
  · rename_i mf rest front
    split at done
    · split at done
      · contradiction
      · rename_i result accessed
        dsimp only at done
        split at done
        · rename_i hit
          split at done
          · rename_i forward
            obtain ⟨-, read⟩ := Bool.and_eq_true_iff.mp forward
            obtain ⟨rfl, rfl⟩ := push_then done
            exact .inr ⟨mf, rest, result, front, accessed, .inl ⟨hit, read, rfl, rfl⟩⟩
          · rename_i lost
            cases done
            refine .inr ⟨mf, rest, result, front, accessed, .inr (.inl ⟨hit, ?_, rfl, rfl⟩)⟩
            cases sent : wasWriteSent result.events
            · exact .inr (by simpa [sent] using lost)
            · exact .inl rfl
        · rename_i miss
          cases done
          exact .inr ⟨mf, rest, result, front, accessed, .inr (.inr (.inl ⟨miss, rfl, rfl⟩))⟩
        · rename_i refused
          cases done
          exact .inr ⟨mf, rest, result, front, accessed, .inr (.inr (.inr ⟨refused, rfl, rfl⟩))⟩
        · contradiction
    · cases done
      exact .inl ⟨rfl, rfl⟩

theorem metadataAccess_error (stopped : metadataAccess cfg input st = .error fault) :
    Stopped cfg st fault := by
  unfold metadataAccess at stopped
  split at stopped
  · contradiction
  · rename_i mf rest front
    split at stopped
    · rename_i ready
      split at stopped
      · cases stopped
        exact .cache _
      · dsimp only at stopped
        split at stopped
        · split at stopped
          · obtain ⟨rfl, full⟩ := push_then_error stopped
            exact .overflow .fromMetadataCache mf (.fifo .toMetadataCache) full (by simp [held, front])
              trivial (by simp)
          · contradiction
        · contradiction
        · contradiction
        · cases stopped
          exact .assertion
    · contradiction

/-! ## Towards the DRAM -/

theorem enterDramLatency_ok (done : enterDramLatency cfg input st = .ok (next, shown)) :
    shown = [] ∧ (next = st ∨ ∃ mf rest, st.fifo .huffmanToDram = mf :: rest ∧
      next = (st.pop .huffmanToDram).pushLatency .dram (input.cycle + cfg.dramLatency) mf) := by
  unfold enterDramLatency at done
  split at done
  · cases done
    exact ⟨rfl, .inl rfl⟩
  · rename_i mf rest front
    cases done
    exact ⟨rfl, .inr ⟨mf, rest, front, rfl⟩⟩

theorem enterDramLatency_error : enterDramLatency cfg input st ≠ .error fault := by
  unfold enterDramLatency
  split <;> simp

theorem samplingPhase_ok (done : samplingPhase cfg input st = .ok (next, shown)) :
    shown = [] ∧ (next = st ∨ ∃ mf, st.mfToBeClassified = some mf ∧
      next = pushLatency { st with mfToBeClassified := none } .dram (input.cycle + cfg.dramLatency) mf) := by
  unfold samplingPhase at done
  split at done
  · cases done
    exact ⟨rfl, .inl rfl⟩
  · rename_i mf taken
    cases done
    exact ⟨rfl, .inr ⟨mf, taken, rfl⟩⟩

theorem samplingPhase_error : samplingPhase cfg input st ≠ .error fault := by
  unfold samplingPhase
  split <;> simp

theorem leaveDramLatency_ok (done : leaveDramLatency cfg input st = .ok (next, shown)) :
    (shown = [] ∧ next = st) ∨ ∃ readyCycle mf rest, st.latency .dram = (readyCycle, mf) :: rest ∧
      (((st.request mf).isMetaDataRequest = true ∧ shown = [] ∧
          next = (st.popLatency .dram).append .dramToMetadataCache mf) ∨
        ((st.request mf).isMetaDataRequest = false ∧ shown = [.dramPush mf (st.request mf)] ∧
          next = { st.popLatency .dram with dramPending := st.dramPending ++ [mf] })) := by
  unfold leaveDramLatency at done
  split at done
  · cases done
    exact .inl ⟨rfl, rfl⟩
  · rename_i readyCycle mf rest front
    split at done
    · dsimp only at done
      split at done
      · rename_i metadata
        obtain ⟨rfl, rfl⟩ := push_then done
        exact .inr ⟨readyCycle, mf, rest, front, .inl ⟨metadata, rfl, rfl⟩⟩
      · rename_i data
        rw [Bool.not_eq_true] at data
        split at done
        · cases done
          exact .inr ⟨readyCycle, mf, rest, front, .inr ⟨data, rfl, rfl⟩⟩
        · contradiction
    · cases done
      exact .inl ⟨rfl, rfl⟩

theorem leaveDramLatency_error (stopped : leaveDramLatency cfg input st = .error fault) :
    Stopped cfg st fault := by
  unfold leaveDramLatency at stopped
  split at stopped
  · contradiction
  · rename_i readyCycle mf rest front
    split at stopped
    · dsimp only at stopped
      split at stopped
      · obtain ⟨rfl, full⟩ := push_then_error stopped
        exact .overflow .dramToMetadataCache mf (.latency .dram) full (by simp [held, front])
          trivial (by simp)
      · split at stopped
        · contradiction
        · cases stopped
          exact .assertion
    · contradiction

end MemoryPartitionUnit

end GpgpuSim.Partition
