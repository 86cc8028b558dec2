import GpgpuSim.Partition.Passing

/-! Every stage of a cycle keeps the invariant. -/
namespace GpgpuSim.Partition.MemoryPartitionUnit
open GpgpuSim.Huffman GpgpuSim.Memory GpgpuSim.Cache Transition

variable {cfg : MemoryConfig} {input : CycleInput} {plain : Prop} {trace shown : List Event}
  {st next : MemoryPartitionUnit} {place : MfId → Option Station} {mf : MfId}

/-! ## The codebook -/

theorem Accounted.codebookStage (accounted : Accounted cfg plain trace st)
    (done : codebookStage cfg input st = .ok (next, shown)) : Accounted cfg plain (trace ++ shown) next := by
  obtain ⟨unit, begun, ran, rfl, rfl⟩ := codebookStage_ok done
  obtain ⟨place, tracked, balances⟩ := accounted
  have cycled := CodebookUnit.codebookCycle_ok tracked.wellFormed ran
  refine Accounted.still ⟨place, tracked, balances⟩ rfl rfl (.refl _) id cycled.advances rfl ?_
  intro e member
  rcases List.mem_cons.mp member with rfl | member
  · rfl
  · split at member
    · rw [List.mem_singleton.mp member]
      rfl
    · contradiction

theorem Accounted.sampleStage (accounted : Accounted cfg plain trace st)
    (done : sampleStage cfg input st = .ok (next, shown)) :
    Accounted cfg plain (trace ++ shown) next := by
  cases done
  refine accounted.still rfl rfl (.refl _) id ?_ rfl (by simp)
  obtain ⟨sampled, eq, -⟩ := st.codebookUnit.enqueueSampledSymbols_eq cfg.blockAddr input.memory
    input.cycle (st.mfToBeClassified.map st.request)
  dsimp only
  rw [eq]
  constructor
  · exact fun well => ⟨well.finalTableSize, well.symbolLength, well.pending, well.begun⟩
  · exact id
  · rintro - (primed | waiting)
    · exact .inl primed
    · exact .inr (List.append_ne_nil_of_left_ne_nil waiting sampled)

theorem Accounted.initialBuildStage (accounted : Accounted cfg plain trace st)
    (done : initialBuildStage cfg input st = .ok (next, shown)) :
    Accounted cfg plain (trace ++ shown) next := by
  obtain ⟨unit, ran, rfl, rfl⟩ := initialBuildStage_ok done
  obtain ⟨place, tracked, balances⟩ := accounted
  have attempted := CodebookUnit.initialBuild_ok tracked.wellFormed ran
  exact Accounted.still ⟨place, tracked, balances⟩ rfl rfl (.refl _) id attempted.advances rfl (by simp)

/-! ## Returns -/

theorem Accounted.returnFromDram (accounted : Accounted cfg plain trace st)
    (done : returnFromDram cfg input st = .ok (next, shown)) :
    Accounted cfg plain (trace ++ shown) next := by
  obtain ⟨rfl, rfl | ⟨mf, rest, front, branches⟩⟩ := returnFromDram_ok done
  · exact accounted.idle
  obtain ⟨place, tracked, balances⟩ := accounted
  rcases branches with ⟨metadata, rfl⟩ | ⟨data, read, rfl⟩ | ⟨data, other, rfl⟩
  · -- a metadata request never enters the DRAM
    have here : place mf = some .dramReturn := tracked.custody.place_of_mem (by simp [held, front])
    obtain ⟨o, start, -, -, -, fits⟩ := tracked.carried here trivial
    rw [fits.1.1] at metadata
    contradiction
  · refine Accounted.forward (s := .dramReturn) (t := .latency .decompressor) tracked balances
      (.of_append (by simp) (.of_eq front) ?_) trivial rfl rfl rfl rfl (by simp) ?_
    · rw [held_pushLatency, held_dramReturn]
      rfl
    · exact fun o carries fits => ⟨fits.1, read⟩
  · refine Accounted.forward (s := .dramReturn) (t := .fifo .decompressorToL2) tracked balances
      (.of_append (by simp) (.of_eq front) ?_) trivial rfl rfl rfl rfl (by simp) ?_
    · rw [held_append, held_dramReturn]
      rfl
    · intro o carries fits
      refine ⟨fits.1, fits.2, fun compressed => ?_⟩
      -- once translated the request is a read of an enabled codebook
      have enabled := (carries.resized compressed data).2
      have read := carries.same.isLineRead.trans (carries.translated compressed).1
      rw [read, enabled] at other
      contradiction

theorem restoreSize_carries {unit : CodebookUnit} {o request : MemFetch} (carries : Carries unit o request) :
    Carries unit o (restoreSize request) := by
  unfold restoreSize
  split
  · rename_i compressed
    refine ⟨⟨carries.same.1, carries.same.2, carries.same.3⟩, fun plain => ?_, carries.translated,
      carries.resized⟩
    rw [show request.compressed = false from plain] at compressed
    contradiction
  · exact carries

theorem Accounted.completeDecompression (accounted : Accounted cfg plain trace st)
    (done : completeDecompression input st = .ok (next, shown)) :
    Accounted cfg plain (trace ++ shown) next := by
  obtain ⟨rfl, rfl | ⟨readyCycle, mf, rest, front, rfl⟩⟩ := completeDecompression_ok done
  · exact accounted.idle
  obtain ⟨place, tracked, balances⟩ := accounted
  have queue : st.held (.latency .decompressor) = mf :: rest.map Prod.snd := by simp [held, front]
  refine Accounted.pass (s := .latency .decompressor) (t := .fifo .decompressorToL2)
    tracked balances ?_ trivial
    (show _ = restoreSize (st.request mf) from MfPool.get_modify_self _ _ restoreSize)
    (show _ = st.extra mf from rfl) ?_
  · refine Passed.of_lists tracked (.of_append (by simp) (.of_eq queue) ?_) ?_ rfl rfl (.refl _) rfl (by simp)
    · rw [held_append, held_modify, held_popLatency, queue]
      rfl
    · exact fun other apart => MfPool.get_modify_of_ne _ _ apart
  · rintro o carries ⟨⟨data, free⟩, read⟩
    refine ⟨(restoreSize_carries carries), ⟨?_, free⟩, ?_, ?_⟩
    · rw [← data]
      unfold restoreSize
      split <;> rfl
    · rw [(restoreSize_carries carries).same.isWriteBack, ← carries.same.isWriteBack]
      exact MemAccessType.not_isWriteBack_of_isLineRead read
    · intro compressed
      unfold restoreSize at compressed ⊢
      split at compressed
      · rename_i yes
        rw [if_pos yes]
        rfl
      · contradiction

theorem Accounted.returnToL2 (accounted : Accounted cfg plain trace st)
    (done : returnToL2 cfg st = .ok (next, shown)) : Accounted cfg plain (trace ++ shown) next := by
  obtain ⟨rfl, rfl⟩ | ⟨mf, rest, spid, front, own, branches⟩ := returnToL2_ok done
  · exact accounted.idle
  obtain ⟨place, tracked, balances⟩ := accounted
  rcases branches with ⟨back, rfl, rfl⟩ | ⟨arbitration, returned, rfl, rfl⟩
  · -- write-backs have ended in the DRAM
    have here : place mf = some (.fifo .decompressorToL2) :=
      tracked.custody.place_of_mem (by simp [held, front])
    obtain ⟨o, start, -, -, -, fits⟩ := tracked.carried here trivial
    have none := fits.2.1
    rw [MemFetch.isWriteBack, back] at none
    contradiction
  · refine Accounted.finish (s := .fifo .decompressorToL2) tracked balances trivial
      (.of_eq front) ?_ rfl rfl rfl own returned (by simp [Event.subject]) ?_
    · have same : (st.pop .decompressorToL2).held =
          Function.update st.held (.fifo .decompressorToL2) rest := by
        rw [held_pop, front]
        rfl
      rw [← same]
      rfl
    · rintro o carries ⟨⟨data, free⟩, kept, restored⟩
      rw [carries.same.subPartitionId] at own
      rw [carries.same.isWriteBack] at kept
      refine ⟨free, .delivered spid _ own data ?_ ?_ kept⟩
      · cases compressed : (st.request mf).compressed with
        | false => exact (carries.untranslated compressed).2.1
        | true => exact (carries.resized compressed data).1
      · cases compressed : (st.request mf).compressed with
        | false => exact (carries.untranslated compressed).2.2
        | true => exact (restored compressed).trans (carries.translated compressed).2.2.1

theorem Accounted.dramModelCycle (accounted : Accounted cfg plain trace st)
    (done : dramModelCycle cfg input st = .ok (next, shown)) :
    Accounted cfg plain (trace ++ shown) next := by
  obtain ⟨rfl, rfl⟩ | ⟨mf, member, branches⟩ := dramModelCycle_ok done
  · exact accounted.idle
  obtain ⟨place, tracked, balances⟩ := accounted
  have queue : (st.held .dramPending).Perm (mf :: st.dramPending.erase mf) := List.perm_cons_erase member
  rcases branches with ⟨back, spid, arbitration, own, returned, rfl, rfl⟩ | ⟨kept, rfl, rfl⟩
  · refine Accounted.finish (s := .dramPending) tracked balances trivial queue ?_ rfl rfl rfl own
      returned (by simp [Event.subject]) ?_
    · rw [← held_dramPending]
      rfl
    · rintro o carries ⟨data, free⟩
      rw [carries.same.subPartitionId] at own
      rw [carries.same.isWriteBack] at back
      exact ⟨free, .retired spid own back⟩
  · refine Accounted.forward (s := .dramPending) (t := .dramReturn) tracked balances
      (.of_append (by simp) queue ?_) trivial rfl rfl rfl rfl (by simp) ?_
    · rw [← held_dramPending, show st.held .dramReturn = st.dramReturn from rfl, ← held_dramReturn]
    · exact fun o carries fits => ⟨fits, kept⟩

/-! ## Issue -/

theorem Accounted.arbitrate (accounted : Accounted cfg plain trace st) (idle : st.mfToBeClassified = none)
    (done : arbitrate cfg input st = .ok (next, shown)) : Accounted cfg plain (trace ++ shown) next := by
  obtain ⟨rfl, rfl⟩ | ⟨spid, mf, rest, arbitration, bound, front, borrowed, rfl, rfl⟩ := arbitrate_ok done
  · rw [← idle]
    exact accounted.idle
  obtain ⟨place, tracked, balances⟩ := accounted
  have here : place mf = some (.l2Dram spid) := tracked.custody.place_of_mem (by simp [held, front])
  have life := tracked.life mf
  generalize recorded : record mf trace = events at life
  rw [here] at life
  have events_about : ∀ e ∈ [Event.creditBorrowed spid mf, .issued spid mf (st.request mf)],
      e.subject = some mf := by
    simp [Event.subject]
  cases life with
  | carried _ _ _ _ fits => exact absurd fits id
  | queued _ _ owned fresh free =>
      have own : localId cfg (st.request mf).subPartitionId = .ok spid := owned ▸ localId_owned bound
      refine ⟨Function.update place mf (some .classified), ?_, fun without => ?_⟩
      · apply tracked.change here
        · have queue : st.held (.l2Dram spid) = mf :: rest := front
          refine tracked.custody.hands (by simp) (.of_eq queue) fun u => .of_eq ?_
          have empty : st.held .classified = [] := by simp [held, idle]
          rw [empty, show [mf] = (some mf).toList from rfl, ← held_l2Dram, ← held_classified]
          rfl
        · rfl
        · constructor
          · exact fun _ _ => rfl
          · exact fun _ _ => rfl
          · exact fun other apart => record_other events_about apart
          · exact .refl _
          · exact tracked.coherent
        · rw [recorded, List.nil_append, record_own events_about]
          exact .carried _ (st.request mf) (.issued spid own) (.start _ fresh) ⟨fresh, free⟩
      · obtain ⟨live, balanced⟩ := balances without
        refine ⟨insert mf live, balanced.enter ?_ trivial bound ?_ rfl balanced.clean borrowed⟩
        · intro s at_s
          rw [here] at at_s
          cases at_s
          exact id
        · unfold owner
          omega

/-- A read to be classified has been sampled. -/
def ReadSampled (st : MemoryPartitionUnit) : Prop :=
  ∀ mf, st.mfToBeClassified = some mf → (st.request mf).isLineRead = true → st.codebookUnit.Sampled

theorem Accounted.classify (accounted : Accounted cfg plain trace st) (sampled : ReadSampled st)
    (done : classify st = .ok (next, shown)) : Accounted cfg plain (trace ++ shown) next := by
  obtain ⟨rfl, ⟨-, rfl⟩ | ⟨mf, taken, rfl⟩⟩ := classify_ok done
  · exact accounted.idle
  obtain ⟨place, tracked, balances⟩ := accounted
  have queue : st.held .classified = mf :: [] := by simp [held, taken]
  refine Accounted.forward (s := .classified) (t := .fifo (queueOf (st.request mf))) tracked balances
    (.of_append (by simp) (.of_eq queue) ?_) trivial rfl rfl rfl rfl (by simp) ?_
  · rw [held_append, held_classified]
    rfl
  · rintro o carries ⟨fresh, free⟩
    unfold queueOf
    split
    · rename_i read
      exact ⟨fresh, free, read, sampled mf taken read⟩
    · split
      · rename_i back
        exact ⟨fresh, free, back⟩
      · exact ⟨by simp [fresh.2, free], fun compressed => by simp [fresh.1] at compressed⟩

/-! ## Reads and write-backs -/

theorem Accounted.translate (accounted : Accounted cfg plain trace st)
    (done : translate st = .ok (next, shown)) : Accounted cfg plain (trace ++ shown) next := by
  obtain ⟨rfl, rfl | ⟨mf, rest, front, rfl⟩⟩ := translate_ok done
  · exact accounted.idle
  obtain ⟨place, tracked, balances⟩ := accounted
  refine Accounted.pass (s := .fifo .l2ToMetadataTranslater) (t := .fifo .toMetadataCache)
    tracked balances ?_ trivial
    (show _ = asMetaDataRequest (st.request mf) from MfPool.get_modify_self _ _ asMetaDataRequest)
    (show _ = st.extra mf from rfl) ?_
  · refine Passed.of_lists tracked (.of_append (by simp) (.of_eq front) ?_) ?_ rfl rfl (.refl _) rfl (by simp)
    · rw [held_append, held_modify, held_pop, front]
      rfl
    · exact fun other apart => MfPool.get_modify_of_ne _ _ apart
  · rintro o carries ⟨fresh, free, read, sampled⟩
    obtain ⟨-, addr, dataSize⟩ := carries.untranslated fresh.1
    refine ⟨⟨⟨carries.same.1, carries.same.2, carries.same.3⟩, ?_, ?_, ?_⟩, rfl, free, read⟩
    · exact fun plain => by contradiction
    · exact fun _ => ⟨carries.same.isLineRead.symm.trans read, addr, dataSize, sampled⟩
    · exact fun _ data => by contradiction

theorem burstBytes_le (outcome : CompressOutcome) : burstBytes outcome ≤ memoryRequestSize :=
  Nat.min_le_right _ _

theorem Accounted.recompress (accounted : Accounted cfg plain trace st)
    (enabled : st.fifo .fromMetadataCache ≠ [] → st.codebookUnit.huffmanEnabled = true)
    (done : recompress cfg input st = .ok (next, shown)) :
    Accounted cfg plain (trace ++ shown) next := by
  obtain ⟨rfl, rfl⟩ | ⟨mf, rest, front, metadata, branches⟩ := recompress_ok done
  · exact accounted.idle
  obtain ⟨place, tracked, balances⟩ := accounted
  rcases branches with ⟨compressed, read, rfl, outcome, unit, updated, rfl⟩ | ⟨other, rfl, rfl⟩
  · have on := enabled (by simp [front])
    have same := CodebookUnit.updateStats_some updated
    refine Accounted.pass (s := .fifo .fromMetadataCache) (t := .fifo .huffmanToDram)
      tracked balances ?_ trivial
      (show _ = asSizedRequest outcome (asDataRequest (st.request mf)) from
        (MfPool.get_modify_self _ _ (asSizedRequest outcome)).trans
          (congrArg _ (MfPool.get_modify_self _ _ asDataRequest)))
      (show _ = st.extra mf from rfl) ?_
    · refine Passed.of_lists tracked (.of_append (by simp) (.of_eq front) ?_) ?_ rfl rfl same.advances rfl (by simp)
      · rw [held_append, held_modify]
        have popped : (st.pop .fromMetadataCache).held =
            Function.update st.held (.fifo .fromMetadataCache) rest := by
          rw [held_pop, front]
          rfl
        rw [← popped]
        rfl
      · intro other apart
        exact (MfPool.get_modify_of_ne _ _ apart).trans (MfPool.get_modify_of_ne _ _ apart)
    · rintro o carries ⟨-, free, -⟩
      obtain ⟨oread, addr, size, sampled⟩ := carries.translated compressed
      refine ⟨⟨⟨carries.same.1, carries.same.2, carries.same.3⟩, fun plain => ?_, fun _ => ?_, fun _ _ => ?_⟩,
        ?_, fun _ _ => burstBytes_le outcome⟩
      · rw [show (st.request mf).compressed = false from plain] at compressed
        contradiction
      · exact ⟨oread, addr, size, same.advances.sampled tracked.wellFormed sampled⟩
      · exact ⟨addr, same.huffmanEnabled.trans on⟩
      · rw [free]
        exact ⟨fun yes => by contradiction, fun some => by contradiction⟩
  · -- whatever comes out of the metadata cache is a translated read
    have here : place mf = some (.fifo .fromMetadataCache) :=
      tracked.custody.place_of_mem (by simp [held, front])
    obtain ⟨o, start, -, -, carries, fits⟩ := tracked.carried here trivial
    rw [carries.compressed_of_metadata metadata, fits.2.2] at other
    contradiction

theorem Accounted.startCompression (accounted : Accounted cfg plain trace st)
    (done : startCompression cfg input st = .ok (next, shown)) :
    Accounted cfg plain (trace ++ shown) next := by
  obtain ⟨rfl, rfl | ⟨mf, rest, front, -, rfl⟩⟩ := startCompression_ok done
  · exact accounted.idle
  obtain ⟨place, tracked, balances⟩ := accounted
  refine Accounted.forward (s := .fifo .l2ToCompressor) (t := .latency .compressor) tracked balances
    (.of_append (by simp) (.of_eq front) ?_) trivial rfl rfl rfl rfl (by simp) fun o carries fits => fits
  rw [held_pushLatency, held_pop, front]
  rfl

theorem Accounted.completeCompression (accounted : Accounted cfg plain trace st)
    (done : completeCompression cfg input st = .ok (next, shown)) :
    Accounted cfg plain (trace ++ shown) next := by
  obtain ⟨rfl, ⟨rfl, -⟩ | ⟨readyCycle, mf, rest, front, outcome, unit, updated, rfl⟩⟩ :=
    completeCompression_ok done
  · exact accounted.idle
  obtain ⟨place, tracked, balances⟩ := accounted
  have queue : st.held (.latency .compressor) = mf :: rest.map Prod.snd := by simp [held, front]
  have same := CodebookUnit.updateStats_some updated
  refine Accounted.pass (s := .latency .compressor) (t := .fifo .huffmanToDram)
    tracked balances ?_ trivial (show _ = st.request mf from rfl) (show _ = st.extra mf from rfl) ?_
  · refine Passed.of_lists tracked (.of_append (by simp) (.of_eq queue) ?_) (fun _ _ => rfl) rfl rfl
      same.advances rfl (by simp)
    have moved : ((st.popLatency .compressor).append .huffmanToDram mf).held =
        Function.update (Function.update st.held (.latency .compressor) (rest.map Prod.snd))
          (.fifo .huffmanToDram) (st.held (.fifo .huffmanToDram) ++ [mf]) := by
      rw [held_append, held_popLatency, queue]
      rfl
    rw [← moved]
    rfl
  · rintro o carries ⟨fresh, free, -⟩
    refine ⟨carries.mono tracked.wellFormed same.advances, ?_⟩
    exact ⟨by simp [fresh.2, free], fun compressed => by simp [fresh.1] at compressed⟩

end GpgpuSim.Partition.MemoryPartitionUnit
