import GpgpuSim.Shader.FrontEndState

/-! Fetch and decode keep what holds of the front end, and the assertion on the instructions that come back from
a miss fails for the PCs only whose address does not fit in 32 bits. -/
namespace GpgpuSim.Shader
open Cache Functional Memory Simt Transition

variable {w : Nat} {μ : Type}

namespace FrontEnd

variable {cfg : FrontEndConfig} {model : ThreadModel w μ} {program : InstructionMemory} {core next : FrontEnd w μ}
  {i : Nat} {flight : Nat → Nat} {running : Nat}

/-! ## Decode -/

/-- The warp after its instructions have been decoded. -/
def decoded (program : InstructionMemory) (pc : AddressType) (warp : ShdWarp w) : ShdWarp w :=
  let first := program.fetch pc
  let filled := (warp.ibufferFill 0 first).incInstInPipeline
  match first with
  | none => filled
  | some inst =>
      match program.fetch (pc + inst.isize) with
      | none => filled
      | some second => (filled.ibufferFill 1 (some second)).incInstInPipeline

theorem decode_eq {buffer : IfetchBuffer} (found : core.instFetchBuffer = some buffer) :
    core.decode program =
      { core.setWarp buffer.warpId (decoded program buffer.pc (core.warp buffer.warpId)) with
        instFetchBuffer := none } := by
  rw [decode, found]
  rfl

/-- Decoding fills the buffer. -/
theorem decoded_frame (program : InstructionMemory) (pc : AddressType) (warp : ShdWarp w) :
    decoded program pc warp = { warp with
      ibuffer := (decoded program pc warp).ibuffer, next := (decoded program pc warp).next
      instInPipeline := (decoded program pc warp).instInPipeline } := by
  unfold decoded
  dsimp only
  split
  · rfl
  · split
    · rfl
    · rfl

theorem quiet_decode : Quiet core (core.decode program) [] := by
  cases found : core.instFetchBuffer with
  | none =>
      rw [decode, found]
      exact .refl core
  | some buffer =>
      rw [decode_eq found]
      have frame := decoded_frame program buffer.pc (core.warp buffer.warpId)
      exact .of_setWarp rfl rfl (by rw [frame]) (by rw [frame]; rfl)

theorem fetch_self {pc : AddressType} {inst : DecodedInst} (found : program.fetch pc = some inst) :
    program.fetch inst.pc = some inst := by
  rw [InstructionMemory.fetch_pc found, found]

/-- What decoding brings about. -/
structure Decoded (model : ThreadModel w μ) (program : InstructionMemory) (m : μ) (i running : Nat) (warp : ShdWarp w) :
    Prop where
  books : ShdWarp.Books model program m i running warp
  first : (warp.ibuffer 0).valid = true
  next : warp.next = 0

theorem decoded_of_books {m : μ} {warp : ShdWarp w} (books : ShdWarp.Books model program m i running warp)
    (empty : warp.ibufferEmpty = true) (pc : AddressType) :
      Decoded model program m i running (decoded program pc warp) := by
  obtain ⟨first, second⟩ := ShdWarp.ibufferEmpty_iff.mp empty
  have filled : ∀ inst, program.fetch pc = inst →
      Decoded model program m i running (warp.ibufferFill 0 inst).incInstInPipeline := fun inst found =>
    ⟨books.fill Nat.zero_lt_two first fun _ same => fetch_self (found.trans same), by
      simp [ShdWarp.incInstInPipeline, ShdWarp.ibufferFill], rfl⟩
  unfold decoded
  dsimp only
  split
  next found => exact filled _ rfl
  next inst found =>
    have filled := filled _ rfl
    split
    · exact filled
    next other following =>
      refine ⟨filled.books.fill Nat.one_lt_two ?_ ?_, ?_, rfl⟩
      · simpa [ShdWarp.incInstInPipeline, ShdWarp.ibufferFill] using second
      · rintro _ ⟨⟩
        exact fetch_self following
      · simp [ShdWarp.incInstInPipeline, ShdWarp.ibufferFill]

theorem Sound.decode (sound : Sound cfg model program flight core) :
    Sound cfg model program flight (core.decode program) := by
  cases found : core.instFetchBuffer with
  | none =>
      have same : core.decode program = core := by rw [FrontEnd.decode, found]
      rwa [same]
  | some buffer =>
      obtain ⟨noMiss, -⟩ := sound.fetching.buffer buffer found
      obtain ⟨empty, live⟩ := sound.fetching.empty buffer.warpId (.inr ⟨buffer, found, rfl⟩)
      have own := sound.warps buffer.warpId
      have decoded := decoded_of_books own.toBooks empty buffer.pc
      rw [decode_eq found]
      have warp := setWarp_warp_self core buffer.warpId (FrontEnd.decoded program buffer.pc (core.warp buffer.warpId))
      have others := fun j => setWarp_warp_of_ne core (FrontEnd.decoded program buffer.pc (core.warp buffer.warpId))
        (i := buffer.warpId) (j := j)
      have frame := decoded_frame program buffer.pc (core.warp buffer.warpId)
      refine ⟨sound.warps_of (i := buffer.warpId) ?_ (fun _ _ => rfl) fun j apart => ⟨others j apart, rfl,
        fun _ => rfl⟩, ?_,
        sound.counted.congr (setWarp_same ShdWarp.doneExit (by rw [frame])) rfl rfl rfl⟩
      · dsimp only
        rw [warp]
        refine ⟨decoded.books, by rw [decoded.next]; exact Nat.zero_lt_two, fun _ => ?_, fun _ => live, ?_, ?_, ?_⟩
        · rw [ShdWarp.ibufferNextValid, decoded.next, decoded.first]
        · rw [frame]; exact own.cdp
        · intro finished
          exact absurd live (own.idle (by rw [← finished, frame])).2.2.2
        · rw [frame]; exact own.busy
      · refine sound.fetching.apart (i := buffer.warpId) rfl rfl rfl noMiss ?_ (fun _ found => by contradiction)
          fun j apart => ⟨others j apart, id⟩
        dsimp only
        rw [warp, frame]
        exact noMiss

/-! ## Fetch -/

/-- A warp that is given back has no thread left, and those that were its own are given back with it. -/
theorem Sound.reclaim (sound : Sound cfg model program flight core) :
    Ends (core.reclaim i) (fun r => Sound cfg model program flight r.1 ∧ r.1.instFetchBuffer = core.instFetchBuffer ∧
      Quiet core r.1 r.2) fun _ => False := by
  have own := sound.warps i
  have counted := sound.counted
  rw [FrontEnd.reclaim]
  dsimp only
  split
  next ready =>
    simp only [Bool.and_eq_true, Bool.not_eq_true', ShdWarp.hardwareDone, beq_iff_eq, decide_eq_false_iff_not] at ready
    obtain ⟨⟨⟨⟨done, stores⟩, issued⟩, -⟩, resident⟩ := ready
    have some := own.busy resident
    have finished := (own.functionalDone).mp done
    have inside : i < cfg.maxWarpsPerShader := by
      by_contra beyond
      rw [counted.outside i (by omega)] at resident
      contradiction
    have positive : 0 < core.activeWarps := by
      rw [counted.activeWarps]
      exact_mod_cast Finset.card_pos.mpr ⟨i, Finset.mem_filter.mpr ⟨Finset.mem_range.mpr inside, resident⟩⟩
    rw [if_pos (by omega)]
    have warp := setWarp_warp_self core i { core.warp i with doneExit := decide (core.threadActive i).Nonempty }
    have others := fun j => setWarp_warp_of_ne core
      { core.warp i with doneExit := decide (core.threadActive i).Nonempty }
      (i := i) (j := j)
    have noMiss : (core.warp i).imissPending = false := by
      by_contra miss
      exact finished (sound.fetching.empty i (.inl (by simpa using miss))).2
    refine ⟨⟨sound.warps_of (i := i) ?_ (fun _ _ => rfl) fun j apart => ⟨others j apart,
      Function.update_of_ne apart _ _, fun _ => rfl⟩,
      ?_, counted.update inside (fun j apart => congrArg ShdWarp.doneExit (others j apart)) rfl ?_ ?_⟩, rfl,
        rfl, ?_, ?_,
      setWarp_same outstanding rfl⟩
    · dsimp only
      rw [warp, Function.update_self]
      refine ⟨own.toBooks.congr rfl rfl rfl (fun _ => rfl) own.counted, own.next_lt, own.aligned, own.live,
        own.cdp, ?_, ?_⟩
      · exact fun _ => ⟨stores, by simpa using issued, rfl, finished⟩
      · exact fun absent => absurd some (by simpa using absent)
    · refine sound.fetching.apart (i := i) rfl rfl rfl noMiss (by dsimp only; rw [warp]; exact noMiss) ?_
        fun j apart => ⟨others j apart, id⟩
      intro b found
      refine ⟨found, ?_⟩
      rintro rfl
      exact finished (sound.fetching.empty _ (.inr ⟨b, found, rfl⟩)).2
    · have bounded : (core.threadActive i).card ≤ core.notCompleted := by
        rw [counted.notCompleted]
        exact Finset.single_le_sum (f := fun j => (core.threadActive j).card) (fun _ _ => Nat.zero_le _)
          (Finset.mem_range.mpr inside)
      dsimp only
      rw [Finset.card_empty]
      omega
    · dsimp only
      rw [warp, resident]
      simp [some]
    · intro event member
      rw [if_pos (by simpa using some)] at member
      exact ⟨i, _, List.mem_singleton.mp member⟩
    · intro j
      rw [if_pos (by simpa using some), List.countP_singleton, FrontEnd.resident, FrontEnd.resident]
      dsimp only
      by_cases here : j = i
      · rw [here, warp, resident]
        simp [some, FrontEndEvent.isExit]
      · have differs : i ≠ j := fun same => here same.symm
        rw [others j here]
        simp [FrontEndEvent.isExit, differs]
  next idle => exact ⟨sound, rfl, .refl core⟩

theorem accessL1I_outcome {l1i : DataCache} {pool : MfPool} {serial time : Nat} {result : AccessResult}
    (serving : l1i.Serving pool) (absent : ¬ l1i.Held (.request serial)) (in_use : serial < pool.nextSerial)
    (done : accessL1I cfg l1i pool (.request serial) time = .ok result) :
    DataCache.Outcome l1i pool (.request serial) result ∧ result.cache.Serving result.pool := by
  rw [accessL1I] at done
  split at done
  · cases done
    exact ⟨.done (.inl rfl) (.of_same ⟨rfl, rfl⟩ fun _ _ _ => rfl), serving⟩
  · exact DataCache.readOnlyAccess_outcome serving absent ⟨serial, rfl, in_use⟩ done

theorem origin_alloc (l1i : DataCache) {pool : MfPool} (fields : MemFetch) {mf : MfId}
    (apart : mf ≠ .request pool.nextSerial) :
    l1i.origin (pool.alloc fields).2 mf = l1i.origin pool mf := by
  rw [DataCache.origin, DataCache.origin, pool.get_alloc_of_ne fields apart]

/-- A miss is one more request that is under way, for a warp that has no other. -/
theorem Fetching.missed {result : AccessResult} {mf : MfId} (fetching : Fetching model core)
    (absent : ¬ core.l1i.Held mf) (served : result.cache.Serving result.pool) (free : core.instFetchBuffer = none)
    (noMiss : (core.warp i).imissPending = false) (empty : (core.warp i).ibufferEmpty = true)
    (live : Machine.Live model core.machine.threads i)
    (held : ∀ other, result.cache.Held other ↔ core.l1i.Held other ∨ other = mf)
    (origin : ∀ other, core.l1i.Held other → result.cache.origin result.pool other = core.l1i.origin core.pool other)
    (own : result.cache.origin result.pool mf = fetchAddr (core.warp i).nextPc) :
    Fetching model { core.setWarp i { core.warp i with imissPending := true } with
      lastWarpFetched := i, l1i := result.cache, pool := result.pool, wid := Function.update core.wid mf i } := by
  have warp := setWarp_warp_self core i { core.warp i with imissPending := true }
  have others := fun j => setWarp_warp_of_ne core { core.warp i with imissPending := true } (i := i) (j := j)
  have wid : ∀ other, core.l1i.Held other → Function.update core.wid mf i other = core.wid other ∧
    core.wid other ≠ i := by
    intro other before
    have apart : other ≠ mf := by
      rintro rfl
      exact absent before
    refine ⟨Function.update_of_ne apart _ _, ?_⟩
    intro same
    have miss := (fetching.held other before).1
    rw [same, noMiss] at miss
    contradiction
  refine ⟨served, ?_, ?_, ?_, ?_, ?_⟩
  · intro other member
    dsimp only at member ⊢
    rcases (held other).mp member with before | rfl
    · obtain ⟨same, apart⟩ := wid other before
      rw [same, others _ apart, origin other before]
      exact fetching.held other before
    · rw [Function.update_self, warp]
      exact ⟨rfl, own⟩
  · intro one other member member' same
    dsimp only at member member' same
    rcases (held one).mp member with before | rfl <;> rcases (held other).mp member' with before' | rfl
    · rw [(wid one before).1, (wid other before').1] at same
      exact fetching.single one other before before' same
    · rw [(wid one before).1, Function.update_self] at same
      exact absurd same (wid one before).2
    · rw [(wid other before').1, Function.update_self] at same
      exact absurd same.symm (wid other before').2
    · rfl
  · intro j miss
    by_cases here : j = i
    · exact ⟨mf, (held mf).mpr (.inr rfl), by rw [here]; exact Function.update_self _ _ _⟩
    · dsimp only at miss
      rw [others j here] at miss
      obtain ⟨other, before, same⟩ := fetching.pending j miss
      exact ⟨other, (held other).mpr (.inl before), (wid other before).1.trans same⟩
  · intro b found
    exact absurd (free.symm.trans found) nofun
  · intro j waits
    by_cases here : j = i
    · rw [here]
      dsimp only
      rw [warp]
      exact ⟨empty, live⟩
    · dsimp only
      rw [others j here]
      refine fetching.empty j ?_
      rcases waits with miss | found
      · exact .inl ((others j here) ▸ miss)
      · exact .inr found

theorem fetchOutcome_miss {result : AccessResult} {mf : MfId} (status : result.status = .miss) :
    core.fetchOutcome i mf result = .ok { core.setWarp i { core.warp i with imissPending := true } with
      lastWarpFetched := i, l1i := result.cache, pool := result.pool, wid := Function.update core.wid mf i } := by
  rw [fetchOutcome, status]
  rfl

theorem Sound.missed {result : AccessResult} {mf : MfId} (sound : Sound cfg model program flight core)
    (fetching : Fetching model { core.setWarp i { core.warp i with imissPending := true } with
      lastWarpFetched := i, l1i := result.cache, pool := result.pool, wid := Function.update core.wid mf i }) :
    Sound cfg model program flight { core.setWarp i { core.warp i with imissPending := true } with
      lastWarpFetched := i, l1i := result.cache, pool := result.pool, wid := Function.update core.wid mf i } := by
  have warp := setWarp_warp_self core i { core.warp i with imissPending := true }
  have others := fun j => setWarp_warp_of_ne core { core.warp i with imissPending := true } (i := i) (j := j)
  have own := sound.warps i
  refine ⟨sound.warps_of (i := i) ?_ (fun _ _ => rfl) fun j apart => ⟨others j apart, rfl, fun _ => rfl⟩, fetching,
    sound.counted.congr (setWarp_same ShdWarp.doneExit rfl) rfl rfl rfl⟩
  dsimp only
  rw [warp]
  exact ⟨own.toBooks.congr rfl rfl rfl (fun _ => rfl) own.counted, own.next_lt, own.aligned, own.live, own.cdp,
    own.idle, own.busy⟩

/-- A hit goes to the decoder. -/
theorem Fetching.buffered (fetching : Fetching model core) (noMiss : (core.warp i).imissPending = false)
    (empty : (core.warp i).ibufferEmpty = true) (live : Machine.Live model core.machine.threads i) :
    Fetching model { core with instFetchBuffer := some ⟨(core.warp i).nextPc, i⟩ } where
  serving := fetching.serving
  held := fetching.held
  single := fetching.single
  pending := fetching.pending
  buffer := by
    rintro b ⟨⟩
    exact ⟨noMiss, rfl⟩
  empty := by
    rintro j (miss | ⟨b, found, same⟩)
    · exact fetching.empty j (.inl miss)
    · obtain rfl := Option.some.inj found
      obtain rfl := same
      exact ⟨empty, live⟩

theorem Sound.fetchWarp {time : Nat} (sound : Sound cfg model program flight core) (free : core.instFetchBuffer = none)
    (needs : core.needsFetch i = true) :
    Ends (FrontEnd.fetchWarp cfg time core i) (fun next => Sound cfg model program flight next ∧ Quiet core next [])
      fun fault => fault ≠ .assertion := by
  have fetching := sound.fetching
  simp only [needsFetch, Bool.and_eq_true, Bool.not_eq_true'] at needs
  obtain ⟨⟨unfinished, noMiss⟩, empty⟩ := needs
  have live : Machine.Live model core.machine.threads i := by
    by_contra gone
    rw [(sound.warps i).functionalDone.mpr gone] at unfinished
    contradiction
  have absent : ¬ core.l1i.Held (.request core.pool.nextSerial) := fun held =>
    Nat.lt_irrefl _ (fetching.serving.in_use _ held)
  rw [FrontEnd.fetchWarp]
  dsimp only
  refine Ends.bind (Q := fun result => DataCache.Outcome core.l1i
    (core.pool.alloc (instRequest cfg (core.warp i).nextPc)).2
    (.request core.pool.nextSerial) result ∧ result.cache.Serving result.pool) ?_ fun result ⟨outcome, served⟩ => ?_
  · have serving : core.l1i.Serving (core.pool.alloc (instRequest cfg (core.warp i).nextPc)).2 :=
      fetching.serving.of_same ⟨rfl, rfl⟩ (Nat.le_succ _)
    exact ends_liftCache fun result accessed => accessL1I_outcome serving absent (Nat.lt_succ_self _) accessed
  · have apart : ∀ other, core.l1i.Held other → other ≠ .request core.pool.nextSerial := by
      rintro _ before rfl
      exact absent before
    have origins := fun other before => origin_alloc core.l1i (instRequest cfg (core.warp i).nextPc)
      (apart other before)
    cases outcome with
    | done status same =>
        have kept : Fetching model { core with
            lastWarpFetched := i, l1i := result.cache, pool := result.pool
            wid := Function.update core.wid (.request core.pool.nextSerial) i } := fetching.same_held served
          ⟨same.held, fun mf member => (same.origin mf member).trans (origins mf member)⟩
          (fun mf member => Function.update_of_ne (apart mf member) _ _) rfl rfl fun _ => id
        rcases status with hit | refused
        · rw [fetchOutcome, hit]
          exact ⟨⟨sound.warps, kept.buffered noMiss empty live, sound.counted.congr (fun _ => rfl) rfl rfl rfl⟩,
            .of_same rfl fun _ => ⟨rfl, rfl⟩⟩
        · rw [fetchOutcome, refused]
          exact ⟨⟨sound.warps, kept, sound.counted.congr (fun _ => rfl) rfl rfl rfl⟩,
            .of_same rfl fun _ => ⟨rfl, rfl⟩⟩
    | missed status held origin own =>
        rw [fetchOutcome_miss status]
        have address : result.cache.origin result.pool (.request core.pool.nextSerial) = fetchAddr
          (core.warp i).nextPc := by
          rw [own, ← MfPool.fst_alloc core.pool (instRequest cfg (core.warp i).nextPc), MfPool.get_alloc_self,
            instRequest]
        exact ⟨sound.missed (fetching.missed absent served free noMiss empty live held
          (fun other before => (origin other before).trans (origins other before)) address),
            .of_setWarp rfl rfl rfl rfl⟩

/-- The address that a request has brought back tells its PC as long as it has not been taken round. -/
theorem fetchAddr_back (pc : AddressType) :
    pc.toNat = (fetchAddr pc + 2 ^ 64 - programMemStart.toNat) % 2 ^ 64 ↔ pc.toNat < 2 ^ 28 := by
  have bound := pc.isLt
  have start : programMemStart.toNat = 2 ^ 32 - 2 ^ 28 := by decide
  rw [fetchAddr, BitVec.toNat_add, start]
  omega

/-- A request that has come back is no longer under way, and its instructions go to the decoder. -/
theorem Fetching.answered {mf : MfId} {l1i : DataCache} (fetching : Fetching model core) (member : core.l1i.Held mf)
    (held : ∀ other, l1i.Held other ↔ core.l1i.Held other ∧ other ≠ mf)
    (origin : ∀ other, l1i.origin core.pool other = core.l1i.origin core.pool other) (served : l1i.Serving core.pool) :
    Fetching model { core.setWarp (core.wid mf) { core.warp (core.wid mf) with imissPending := false } with
      l1i, instFetchBuffer := some ⟨(core.warp (core.wid mf)).nextPc, core.wid mf⟩ } := by
  have warp := setWarp_warp_self core (core.wid mf) { core.warp (core.wid mf) with imissPending := false }
  have others := fun j => setWarp_warp_of_ne core { core.warp (core.wid mf) with imissPending := false }
    (i := core.wid mf) (j := j)
  have apart : ∀ other, l1i.Held other → core.wid other ≠ core.wid mf := by
    intro other still same
    obtain ⟨before, differs⟩ := (held other).mp still
    exact differs (fetching.single other mf before member same)
  refine ⟨served, ?_, ?_, ?_, ?_, ?_⟩
  · intro other still
    dsimp only [setWarp_wid, setWarp_pool] at still ⊢
    rw [others _ (apart other still), origin]
    exact fetching.held other ((held other).mp still).1
  · exact fun one other still still' => fetching.single one other ((held one).mp still).1 ((held other).mp still').1
  · intro j miss
    have differs : j ≠ core.wid mf := by
      rintro rfl
      rw [warp] at miss
      contradiction
    dsimp only at miss
    rw [others j differs] at miss
    obtain ⟨other, before, same⟩ := fetching.pending j miss
    refine ⟨other, (held other).mpr ⟨before, ?_⟩, same⟩
    rintro rfl
    exact differs same.symm
  · rintro b ⟨⟩
    dsimp only
    rw [warp]
    exact ⟨rfl, rfl⟩
  · intro j waits
    by_cases here : j = core.wid mf
    · rw [here]
      dsimp only
      rw [warp]
      exact fetching.empty _ (.inl (fetching.held mf member).1)
    · dsimp only
      rw [others j here]
      refine fetching.empty j ?_
      rcases waits with miss | ⟨b, found, same⟩
      · exact .inl ((others j here) ▸ miss)
      · obtain rfl := Option.some.inj found
        exact absurd same.symm here

/-- A miss has come back for a warp whose PC is that of the miss. -/
theorem Sound.acceptMiss (sound : Sound cfg model program flight core) {mf : MfId} {l1i : DataCache}
    (left : core.l1i.nextAccess = .ok (mf, l1i)) :
    if (core.warp (core.wid mf)).nextPc.toNat < 2 ^ 28 then
      ∃ next, core.acceptMiss = .ok next ∧ Sound cfg model program flight next ∧ Quiet core next []
    else core.acceptMiss = .error .assertion := by
  have fetching := sound.fetching
  obtain ⟨member, back, held, origin, served⟩ := DataCache.nextAccess_held fetching.serving left
  obtain ⟨miss, address⟩ := fetching.held mf member
  obtain ⟨empty, live⟩ := fetching.empty _ (.inl miss)
  have accept : core.acceptMiss = if (core.warp (core.wid mf)).nextPc.toNat =
      ((core.pool.get mf).addr + 2 ^ 64 - programMemStart.toNat) % 2 ^ 64 then
        .ok { core.setWarp (core.wid mf) { core.warp (core.wid mf) with imissPending := false } with
          l1i, instFetchBuffer := some ⟨(core.warp (core.wid mf)).nextPc, core.wid mf⟩ }
      else .error .assertion := by
    rw [FrontEnd.acceptMiss, left]
    rfl
  rw [accept, back, address]
  simp only [fetchAddr_back]
  split
  next low =>
    have warp := setWarp_warp_self core (core.wid mf) { core.warp (core.wid mf) with imissPending := false }
    have others := fun j => setWarp_warp_of_ne core { core.warp (core.wid mf) with imissPending := false }
      (i := core.wid mf) (j := j)
    have own := sound.warps (core.wid mf)
    refine ⟨_, rfl, ⟨sound.warps_of (i := core.wid mf) ?_ (fun _ _ => rfl) fun j apart => ⟨others j apart, rfl,
      fun _ => rfl⟩,
      fetching.answered member held origin served, sound.counted.congr (setWarp_same ShdWarp.doneExit rfl) rfl rfl rfl⟩,
      .of_setWarp rfl rfl rfl rfl⟩
    dsimp only
    rw [warp]
    exact ⟨own.toBooks.congr rfl rfl rfl (fun _ => rfl) own.counted, own.next_lt, own.aligned, own.live, own.cdp,
      own.idle, own.busy⟩
  next high => rfl

theorem Sound.fetchLoop {time : Nat} {order : List Nat} (sound : Sound cfg model program flight core)
    (free : core.instFetchBuffer = none) :
    Ends (FrontEnd.fetchLoop cfg time order core) (fun r => Sound cfg model program flight r.1 ∧ Quiet core r.1 r.2)
      fun fault => fault ≠ .assertion := by
  induction order generalizing core with
  | nil => exact ⟨sound, .refl core⟩
  | cons i rest ih =>
      rw [FrontEnd.fetchLoop]
      refine (sound.reclaim.mono (fun _ => id) fun _ => False.elim).bind fun r ⟨sound, buffer, quiet⟩ => ?_
      dsimp only
      split
      next needs =>
        refine (sound.fetchWarp (buffer.trans free) needs).bind fun next ⟨sound, more⟩ => ⟨sound, ?_⟩
        simpa using quiet.trans more
      next idle =>
        refine (ih sound (buffer.trans free)).bind fun last ⟨sound, more⟩ => ⟨sound, quiet.trans more⟩

theorem Sound.cycle_l1i (sound : Sound cfg model program flight core) (memportFull : Bool) :
    Sound cfg model program flight { core with l1i := core.l1i.cycle memportFull } := by
  obtain ⟨same, serving⟩ := DataCache.cycle_sameHeld sound.fetching.serving memportFull
  exact ⟨sound.warps, sound.fetching.same_held serving same (fun _ _ => rfl) rfl rfl fun _ => id,
    sound.counted.congr (fun _ => rfl) rfl rfl rfl⟩

/-- A miss comes back for a warp whose PC is taken round in the address space. -/
def Wraps (core : FrontEnd w μ) : Prop :=
  core.instFetchBuffer = none ∧ ∃ mf l1i, core.l1i.accessReady = true ∧ core.l1i.nextAccess = .ok (mf, l1i) ∧
    2 ^ 28 ≤ (core.warp (core.wid mf)).nextPc.toNat

theorem Sound.fetchNext {time : Nat} (sound : Sound cfg model program flight core) :
    Ends (core.fetchNext cfg time) (fun r => Sound cfg model program flight r.1 ∧ Quiet core r.1 r.2)
      fun fault => fault = .assertion → core.Wraps := by
  rw [FrontEnd.fetchNext]
  split
  next full => exact ⟨sound, .refl core⟩
  next free =>
    rw [Option.not_isSome_iff_eq_none] at free
    split
    next ready =>
      cases left : core.l1i.nextAccess with
      | error fault =>
          rw [FrontEnd.acceptMiss, left]
          exact ExecFault.noConfusion
      | ok answer =>
          obtain ⟨mf, l1i⟩ := answer
          have accepted := sound.acceptMiss left
          split at accepted
          next low =>
            obtain ⟨next, done, sound, quiet⟩ := accepted
            rw [done]
            exact ⟨sound, quiet⟩
          next high =>
            rw [accepted]
            exact fun _ => ⟨free, mf, l1i, ready, left, by omega⟩
    next waits => exact (sound.fetchLoop free).mono (fun _ => id) fun _ other same => absurd same other

/-- What fetch does; none of its assertions fails but the one. -/
theorem Sound.fetch {time : Nat} {memportFull : Bool} (sound : Sound cfg model program flight core) :
    Ends (core.fetch cfg time memportFull) (fun r => Sound cfg model program flight r.1 ∧ Quiet core r.1 r.2)
      fun fault => fault = .assertion → core.Wraps := by
  rw [FrontEnd.fetch]
  refine sound.fetchNext.bind fun r ⟨sound, quiet⟩ => ⟨sound.cycle_l1i memportFull, quiet.congr rfl rfl⟩

end FrontEnd

end GpgpuSim.Shader
