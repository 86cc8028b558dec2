import GpgpuSim.Cache.Accesses
import GpgpuSim.Cache.TexTags
import GpgpuSim.Transition.Replay

/-! The queues of a texture cache between two operations. The misses of the fragment FIFO are the entries of the reorder
buffer, and the data array lags behind the tags by what the fragment FIFO will still do to it. -/
namespace GpgpuSim.Cache
open Containers Memory Transition

@[simp] theorem asserted_some {α : Type*} (a : α) : asserted (some a) = .ok a := rfl

/-- The request that an answer is for. -/
def TexCacheConfig.credited (cfg : TexCacheConfig) (pool : MfPool) (mf : MfId) : Option MfId :=
  match cfg.texMshrType with
  | .texFifo => some mf
  | .sectorTexFifo => (pool.get mf).originalMf.map .original

/-- What is left to come after one more answer. -/
def oneLess : Option Nat → Option Nat
  | some (n + 2) => some (n + 1)
  | _ => none

/-- The answers that bring a line. -/
def TexCacheConfig.answers (cfg : TexCacheConfig) : Nat :=
  match cfg.texMshrType with
  | .texFifo => 1
  | .sectorTexFifo => cfg.lineSize / sectorSize

namespace TexCache

variable {cfg : TexCacheConfig}

/-- What the head of the fragment FIFO does to the data array. -/
def store (block : MfId → Nat) (data : Nat → DataBlock) (e : FragmentEntry) : Nat → DataBlock :=
  if e.miss then Function.update data e.cacheIndex ⟨true, block e.request⟩ else data

/-- A hit needs its block. -/
def Finds (block : MfId → Nat) (data : Nat → DataBlock) (e : FragmentEntry) : Prop :=
  e.miss = false → data e.cacheIndex = ⟨true, block e.request⟩

/-- The data of every block that the tags hold. -/
def Agrees (tags : TagArray) (data : Nat → DataBlock) : Prop :=
  ∀ i b, tags.resident i = some b → data i = ⟨true, b⟩

/-- The accepted requests that have not left, oldest first. -/
def inside (c : TexCache cfg) : List MfId := c.resultFifo.toList ++ c.fragmentFifo.toList.map FragmentEntry.request

/-- What a miss and its entry of the reorder buffer have in common. -/
def missKey (block : MfId → Nat) (e : FragmentEntry) : MfId × Nat × Nat := (e.request, e.cacheIndex, block e.request)

def robKey (r : RobEntry) : MfId × Nat × Nat := (r.request, r.index, r.blockAddr)

/-- An unfilled entry of the reorder buffer, with the answers that are still to come. -/
structure Pending (cfg : TexCacheConfig) (extra : TexExtraMfFields) (i n : Nat) : Prop where
  valid : extra.valid = true
  robIndex : extra.robIndex = i
  counts : cfg.texMshrType = .texFifo ∧ n = 1 ∨ cfg.texMshrType = .sectorTexFifo ∧ extra.pendingRead = n

/-- Between two operations; `due` is the number of answers that the line of a request still needs. -/
structure Sound (c : TexCache cfg) (block : MfId → Nat) (due : MfId → Option Nat) : Prop where
  settled : c.tags.Settled
  matched : (c.fragmentFifo.toList.filter FragmentEntry.miss).map (missKey block) = c.rob.toList.map robKey
  replays : Replays (store block) (Finds block) (Agrees c.tags) c.data c.fragmentFifo.toList
  distinct : c.inside.Nodup
  pending : ∀ i r, (i, r) ∈ c.rob.cells → r.ready = false →
    ∃ n extra, due r.request = some n ∧ c.extraMfFields r.request = some extra ∧ Pending cfg extra i n
  waiting : ∀ mf n, due mf = some n → ∃ i r, (i, r) ∈ c.rob.cells ∧ r.request = mf ∧ r.ready = false

variable {c next : TexCache cfg} {block : MfId → Nat} {due : MfId → Option Nat} {pool : MfPool} {mf : MfId} {time : Nat}

theorem Sound.create (accepted : cfg.Accepted) : (create cfg accepted).Sound block fun _ => none where
  settled := TagArray.Settled.create accepted.normal
  matched := rfl
  replays i b there := by
    have absent : (TagArray.create cfg.toCacheConfig).resident i = none := by
      simp [TagArray.resident, TagArray.create, CacheBlock.create, accepted.normal, CacheBlock.resident,
        CacheBlock.isValidLine]
    have there : (TagArray.create cfg.toCacheConfig).resident i = some b := there
    rw [absent] at there
    cases there
  distinct := List.nodup_nil
  pending := nofun
  waiting := nofun

/-- The request of an entry of the reorder buffer is a miss in the fragment FIFO, for the block of the entry. -/
theorem Sound.exists_miss (sound : c.Sound block due) {r : RobEntry} (member : r ∈ c.rob.toList) :
    ∃ e ∈ c.fragmentFifo.toList, e.miss = true ∧ e.request = r.request ∧ r.blockAddr = block r.request := by
  have key : robKey r ∈ (c.fragmentFifo.toList.filter FragmentEntry.miss).map (missKey block) := by
    rw [sound.matched]
    exact List.mem_map_of_mem member
  obtain ⟨e, inside, same⟩ := List.mem_map.mp key
  obtain ⟨member, miss⟩ := List.mem_filter.mp inside
  simp only [missKey, robKey, Prod.mk.injEq] at same
  exact ⟨e, member, miss, same.1, by rw [← same.2.2, same.1]⟩

theorem Sound.request_inside (sound : c.Sound block due) {r : RobEntry} (member : r ∈ c.rob.toList) :
    r.request ∈ c.fragmentFifo.toList.map FragmentEntry.request := by
  obtain ⟨e, inside, -, same, -⟩ := sound.exists_miss member
  exact List.mem_map.mpr ⟨e, inside, same⟩

/-- No two entries of the reorder buffer are for one request. -/
theorem Sound.nodup_rob (sound : c.Sound block due) : (c.rob.toList.map RobEntry.request).Nodup := by
  have requests : c.rob.toList.map RobEntry.request =
      (c.fragmentFifo.toList.filter FragmentEntry.miss).map FragmentEntry.request := by
    have firsts := congrArg (List.map Prod.fst) sound.matched
    rw [List.map_map, List.map_map] at firsts
    exact firsts.symm
  rw [requests]
  exact (List.Nodup.of_append_right sound.distinct).sublist (List.filter_sublist.map _)

theorem mem_inside {e : FragmentEntry} (member : e ∈ c.fragmentFifo.toList) : e.request ∈ c.inside :=
  List.mem_append_right _ (List.mem_map.mpr ⟨e, member, rfl⟩)

/-- Only the blocks of the requests inside matter. -/
theorem Sound.congr {block' : MfId → Nat} (sound : c.Sound block due) (same : ∀ mf ∈ c.inside, block' mf = block mf) :
    c.Sound block' due where
  settled := sound.settled
  matched := by
    rw [← sound.matched]
    refine List.map_congr_left fun e member => ?_
    rw [missKey, missKey, same _ (mem_inside (List.mem_filter.mp member).1)]
  replays := by
    refine sound.replays.congr (fun e member data => ?_) fun e member data finds => ?_
    · rw [store, store, same _ (mem_inside member)]
    · rw [Finds, same _ (mem_inside member)]
      exact finds
  distinct := sound.distinct
  pending := sound.pending
  waiting := sound.waiting

/-- A result is not waiting for its line. -/
theorem Sound.due_of_result (sound : c.Sound block due) (member : mf ∈ c.resultFifo.toList) : due mf = none := by
  cases wait : due mf with
  | none => rfl
  | some n =>
    obtain ⟨i, r, entry, rfl, -⟩ := sound.waiting mf n wait
    have later := sound.request_inside (List.mem_map.mpr ⟨(i, r), entry, rfl⟩)
    exact (List.disjoint_of_nodup_append sound.distinct member later).elim

/-- The head of the fragment FIFO has become the last result. -/
structure Moved (c next : TexCache cfg) (e : FragmentEntry) (rest : List FragmentEntry) : Prop where
  fragments : c.fragmentFifo.toList = e :: rest
  left : next.fragmentFifo.toList = rest
  results : next.resultFifo.toList = c.resultFifo.toList ++ [e.request]

theorem Moved.inside {e : FragmentEntry} {rest : List FragmentEntry} (moved : Moved c next e rest) :
    next.inside = c.inside := by
  rw [TexCache.inside, TexCache.inside, moved.results, moved.left, moved.fragments, List.map_cons, List.append_assoc,
    List.singleton_append]

/-- A hit at the head finds its block. -/
theorem Sound.readHit (sound : c.Sound block due) {e : FragmentEntry} {rest : List FragmentEntry}
    (fragments : c.fragmentFifo.toList = e :: rest) (hit : e.miss = false) :
    c.data e.cacheIndex = ⟨true, block e.request⟩ := by
  have replays := sound.replays
  rw [fragments] at replays
  exact replays.1 hit

theorem Sound.move_hit (sound : c.Sound block due) {e : FragmentEntry} {rest : List FragmentEntry}
    (hit : e.miss = false) (moved : Moved c next e rest) (tags : next.tags = c.tags) (rob : next.rob = c.rob)
    (data : next.data = c.data) (extras : next.extraMfFields = c.extraMfFields) : next.Sound block due where
  settled := tags ▸ sound.settled
  matched := by
    have matched := sound.matched
    rw [moved.fragments, List.filter_cons_of_neg (by simp [hit])] at matched
    rw [moved.left, rob, matched]
  replays := by
    have replays := sound.replays
    rw [moved.fragments] at replays
    have later := replays.2
    rw [store, if_neg (by simp [hit])] at later
    rw [moved.left, tags, data]
    exact later
  distinct := moved.inside ▸ sound.distinct
  pending := by
    rw [rob, extras]
    exact sound.pending
  waiting := by
    rw [rob]
    exact sound.waiting

theorem Sound.move_miss (sound : c.Sound block due) {e : FragmentEntry} {rest : List FragmentEntry} {r : RobEntry}
    (miss : e.miss = true) (moved : Moved c next e rest) (ready : r.ready = true) (tags : next.tags = c.tags)
    {i : Nat} (rob : c.rob.cells = (i, r) :: next.rob.cells)
    (data : next.data = Function.update c.data r.index ⟨true, r.blockAddr⟩)
    (extras : next.extraMfFields = c.extraMfFields) : next.Sound block due := by
  have heads := sound.matched
  rw [moved.fragments, List.filter_cons_of_pos miss, RingBuffer.toList, rob, List.map_cons, List.map_cons,
    List.map_cons] at heads
  obtain ⟨head, tail⟩ := List.cons.inj heads
  simp only [missKey, robKey, Prod.mk.injEq] at head
  refine ⟨tags ▸ sound.settled, ?_, ?_, moved.inside ▸ sound.distinct, ?_, ?_⟩
  · rw [moved.left, tail]
    rfl
  · have replays := sound.replays
    rw [moved.fragments] at replays
    have later := replays.2
    rw [store, if_pos miss, head.2.1, head.2.2] at later
    rw [moved.left, tags, data]
    exact later
  · intro j r' member unready
    rw [extras]
    exact sound.pending j r' (rob ▸ List.mem_cons_of_mem _ member) unready
  · intro mf n wait
    obtain ⟨j, r', member, same, unready⟩ := sound.waiting mf n wait
    rw [rob] at member
    rcases List.mem_cons.mp member with first | later
    · obtain ⟨-, rfl⟩ := Prod.mk.inj first
      rw [ready] at unready
      cases unready
    · exact ⟨j, r', later, same, unready⟩

/-- A miss at the head has the first entry of the reorder buffer. -/
theorem Sound.rob_head (sound : c.Sound block due) {e : FragmentEntry} {rest : List FragmentEntry}
    (fragments : c.fragmentFifo.toList = e :: rest) (miss : e.miss = true) :
    ∃ r rob, c.rob.pop = some (r, rob) ∧ r.request = e.request ∧ r.index = e.cacheIndex := by
  have matched := sound.matched
  rw [fragments, List.filter_cons_of_pos miss, List.map_cons] at matched
  have some_left : c.rob.empty = false := by
    rw [← Bool.not_eq_true, RingBuffer.empty_iff]
    intro nothing
    rw [nothing] at matched
    cases matched
  obtain ⟨r, rob, taken⟩ := RingBuffer.exists_pop some_left
  rw [RingBuffer.toList_pop taken, List.map_cons] at matched
  have heads := (List.cons.inj matched).1
  simp only [missKey, robKey, Prod.mk.injEq] at heads
  exact ⟨r, rob, taken, heads.1.symm, heads.2.1.symm⟩

/-- One turn of the head of the fragment FIFO, which moves unless its line is still awaited. -/
theorem Sound.readLine (sound : c.Sound block due) (blocks : ∀ mf, block mf = cfg.blockAddr (pool.get mf).addr) :
    ∃ next, readLine cfg c pool = .ok next ∧ next.Sound block due ∧ next.inside = c.inside ∧
      (c.resultFifo.full = false → (∀ e ∈ c.fragmentFifo.toList.head?, due e.request = none) →
        next.fragmentFifo.toList = c.fragmentFifo.toList.tail) := by
  unfold TexCache.readLine
  cases idle : c.fragmentFifo.empty with
  | true =>
    refine ⟨c, rfl, sound, rfl, fun _ _ => ?_⟩
    rw [RingBuffer.empty_iff.mp idle]
    rfl
  | false =>
    cases blocked : c.resultFifo.full with
    | true => exact ⟨c, rfl, sound, rfl, nofun⟩
    | false =>
      obtain ⟨e, fragmentFifo, popped⟩ := RingBuffer.exists_pop idle
      obtain ⟨place, resultFifo, pushed⟩ := RingBuffer.exists_push blocked e.request
      have fragments := RingBuffer.toList_pop popped
      have results := RingBuffer.toList_push pushed
      simp only [Bool.or_self, Bool.false_eq_true, if_false, RingBuffer.peek_of_pop popped]
      cases missed : e.miss with
      | false =>
        have found := sound.readHit fragments missed
        have moved : Moved c { c with resultFifo, fragmentFifo } e fragmentFifo.toList := ⟨fragments, rfl, results⟩
        refine ⟨{ c with resultFifo, fragmentFifo }, ?_, sound.move_hit missed moved rfl rfl rfl rfl, moved.inside, ?_⟩
        · simp [found, blocks, pushed, popped, bind, Except.bind, pure, Except.pure]
        · intro _ _
          rw [fragments, List.tail_cons]
      | true =>
        obtain ⟨r, rob, taken, same_request, same_index⟩ := sound.rob_head fragments missed
        have cells := RingBuffer.cells_pop taken
        have first : (c.rob.tail, r) ∈ c.rob.cells := by
          rw [cells]
          exact List.mem_cons_self
        simp only [if_true, RingBuffer.peekAt_of_mem first, asserted_some, same_request, ne_eq, not_true_eq_false,
          if_false, same_index, bind, Except.bind]
        cases ready : r.ready with
        | false =>
          obtain ⟨n, extra, wait, -⟩ := sound.pending _ r first ready
          refine ⟨c, rfl, sound, rfl, fun _ filled => ?_⟩
          have filled := filled e (by rw [fragments, List.head?_cons]; rfl)
          rw [← same_request, wait] at filled
          cases filled
        | true =>
          have moved : Moved c { c with
              data := Function.update c.data r.index ⟨true, r.blockAddr⟩, resultFifo, rob, fragmentFifo } e
                fragmentFifo.toList := ⟨fragments, rfl, results⟩
          refine ⟨{ c with
            data := Function.update c.data r.index ⟨true, r.blockAddr⟩, resultFifo, rob, fragmentFifo }, ?_,
            sound.move_miss missed moved ready rfl cells rfl rfl, moved.inside, ?_⟩
          · simp [pushed, taken, popped, same_index, pure, Except.pure]
          · intro _ _
            rw [fragments, List.tail_cons]

/-- The requests on their way to memory matter to no one else. -/
theorem Sound.sendRequest (sound : c.Sound block due) (memportFull : Bool) :
    ∃ next sent, c.sendRequest memportFull = .ok (next, sent) ∧ next.Sound block due ∧ next.inside = c.inside ∧
      next.fragmentFifo = c.fragmentFifo ∧ next.resultFifo = c.resultFifo := by
  unfold TexCache.sendRequest
  split
  next => exact ⟨c, none, rfl, sound, rfl, rfl, rfl⟩
  next sends =>
    simp only [Bool.or_eq_true, not_or, Bool.not_eq_true] at sends
    obtain ⟨mf, requestFifo, popped⟩ := RingBuffer.exists_pop sends.1
    refine ⟨{ c with requestFifo }, some mf, ?_, ?_, rfl, rfl, rfl⟩
    · rw [popped]
      rfl
    · exact ⟨sound.settled, sound.matched, sound.replays, sound.distinct, sound.pending, sound.waiting⟩

theorem Sound.cycle (sound : c.Sound block due) (blocks : ∀ mf, block mf = cfg.blockAddr (pool.get mf).addr)
    (memportFull : Bool) :
    ∃ next sent, cycle cfg c pool memportFull = .ok (next, sent) ∧ next.Sound block due ∧ next.inside = c.inside ∧
      (c.resultFifo.full = false → (∀ e ∈ c.fragmentFifo.toList.head?, due e.request = none) →
        next.fragmentFifo.toList = c.fragmentFifo.toList.tail) := by
  obtain ⟨middle, sent, sending, middle_sound, same, fragments, results⟩ := sound.sendRequest memportFull
  obtain ⟨next, reading, next_sound, inside, moves⟩ := middle_sound.readLine blocks
  refine ⟨next, sent, ?_, next_sound, inside.trans same, ?_⟩
  · simp only [TexCache.cycle, sending, reading, bind, Except.bind, pure, Except.pure]
  · rw [← fragments, ← results]
    exact moves

theorem Sound.nextAccess (sound : c.Sound block due) (ready : c.accessReady = true) :
    ∃ mf next, c.nextAccess = .ok (mf, next) ∧ next.Sound block due ∧ c.inside = mf :: next.inside ∧ due mf = none ∧
      next.fragmentFifo = c.fragmentFifo ∧ next.resultFifo.full = false := by
  have some_left : c.resultFifo.empty = false := by simpa [accessReady] using ready
  obtain ⟨mf, resultFifo, popped⟩ := RingBuffer.exists_pop some_left
  have results := RingBuffer.toList_pop popped
  have leaves : c.inside = mf :: inside { c with resultFifo } := by
    rw [inside, results]
    rfl
  have distinct := sound.distinct
  rw [leaves] at distinct
  refine ⟨mf, { c with resultFifo }, ?_, ?_, leaves, sound.due_of_result (results ▸ List.mem_cons_self), rfl, ?_⟩
  · rw [TexCache.nextAccess, popped]
    rfl
  · exact ⟨sound.settled, sound.matched, sound.replays, (List.nodup_cons.mp distinct).2, sound.pending, sound.waiting⟩
  · rw [← Bool.not_eq_true, RingBuffer.full_iff]
    intro full
    have before := c.resultFifo.num_le
    rw [← RingBuffer.length_toList, results, List.length_cons, full] at before
    exact Nat.lt_irrefl _ before

/-! ## Fills -/

variable {i j n : Nat} {r r' : RobEntry} {extra : TexExtraMfFields}

theorem Sound.entry_unique (sound : c.Sound block due) (entry : (i, r) ∈ c.rob.cells) (entry' : (j, r') ∈ c.rob.cells)
    (same : r.request = r'.request) : (i, r) = (j, r') := by
  have distinct := sound.nodup_rob
  rw [RingBuffer.toList, List.map_map] at distinct
  exact List.inj_on_of_nodup_map distinct entry entry' same

/-- One more part of the line of a request, but not the last. -/
theorem Sound.count (sound : c.Sound block due) (entry : (i, r) ∈ c.rob.cells) (unready : r.ready = false)
    (pending : Pending cfg extra i n) :
    Sound { c with extraMfFields := Function.update c.extraMfFields r.request (some extra) } block
      (Function.update due r.request (some n)) where
  settled := sound.settled
  matched := sound.matched
  replays := sound.replays
  distinct := sound.distinct
  pending := by
    intro j r' entry' unready'
    by_cases same : r'.request = r.request
    · obtain ⟨rfl, rfl⟩ := Prod.mk.inj (sound.entry_unique entry' entry same)
      exact ⟨n, extra, Function.update_self .., Function.update_self .., pending⟩
    · rw [Function.update_of_ne same]
      simp only [Function.update_of_ne same]
      exact sound.pending j r' entry' unready'
  waiting := by
    intro mf m wait
    by_cases same : mf = r.request
    · exact ⟨i, r, entry, same.symm, unready⟩
    · rw [Function.update_of_ne same] at wait
      exact sound.waiting mf m wait

/-- The last part of the line of a request. -/
theorem Sound.setReady (sound : c.Sound block due) (entry : (i, r) ∈ c.rob.cells) (time : Nat) :
    Sound { c with rob := c.rob.setAt i { r with ready := true, time } } block
      (Function.update due r.request none) := by
  have cells := RingBuffer.cells_setAt c.rob i { r with ready := true, time }
  have same_entry : ∀ cell ∈ c.rob.cells, cell.1 = i → cell = (i, r) := by
    rintro ⟨j, r'⟩ member rfl
    rw [← (RingBuffer.of_mem_cells member).2, ← (RingBuffer.of_mem_cells entry).2]
  -- the other entries stay, and they are for other requests
  have other : ∀ {j r'}, (j, r') ∈ (c.rob.setAt i { r with ready := true, time }).cells → r'.ready = false →
      (j, r') ∈ c.rob.cells ∧ r'.request ≠ r.request := by
    intro j r' member unready
    rw [cells] at member
    obtain ⟨cell, member, is_cell⟩ := List.mem_map.mp member
    by_cases here : cell.1 = i
    · rw [if_pos here] at is_cell
      obtain ⟨-, rfl⟩ := Prod.mk.inj is_cell
      cases unready
    · rw [if_neg here] at is_cell
      subst is_cell
      refine ⟨member, fun same => here ?_⟩
      exact congrArg Prod.fst (sound.entry_unique member entry same)
  refine ⟨sound.settled, ?_, sound.replays, sound.distinct, ?_, ?_⟩
  · rw [sound.matched, RingBuffer.toList, RingBuffer.toList, cells, List.map_map, List.map_map, List.map_map]
    refine List.map_congr_left fun cell member => ?_
    by_cases here : cell.1 = i
    · rw [same_entry cell member here]
      simp [robKey]
    · simp [here]
  · intro j r' member unready
    obtain ⟨member, apart⟩ := other member unready
    rw [Function.update_of_ne apart]
    exact sound.pending j r' member unready
  · intro mf n wait
    have apart : mf ≠ r.request := by
      rintro rfl
      rw [Function.update_self] at wait
      cases wait
    rw [Function.update_of_ne apart] at wait
    obtain ⟨j, r', member, same, unready⟩ := sound.waiting mf n wait
    refine ⟨j, r', ?_, same, unready⟩
    have elsewhere : j ≠ i := by
      rintro rfl
      have is_entry := same_entry (j, r') member rfl
      obtain ⟨-, rfl⟩ := Prod.mk.inj is_entry
      exact apart same.symm
    rw [cells]
    exact List.mem_map.mpr ⟨(j, r'), member, if_neg elsewhere⟩

theorem Sound.markReady (sound : c.Sound block due) (blocks : ∀ mf, block mf = cfg.blockAddr (pool.get mf).addr)
    (entry : (i, r) ∈ c.rob.cells) (unready : r.ready = false) (known : c.extraMfFields r.request = some extra)
    (valid : extra.valid = true) (robIndex : extra.robIndex = i) (time : Nat) :
    markReady cfg c pool r.request time = .ok { c with rob := c.rob.setAt i { r with ready := true, time } } := by
  obtain ⟨-, -, -, -, is_block⟩ := sound.exists_miss (List.mem_map.mpr ⟨(i, r), entry, rfl⟩)
  have blockAddr : r.blockAddr = cfg.blockAddr (pool.get r.request).addr := is_block.trans (blocks r.request)
  have some_left : c.rob.empty = false := by
    rw [← Bool.not_eq_true, RingBuffer.empty_iff, RingBuffer.toList, List.map_eq_nil_iff]
    exact List.ne_nil_of_mem entry
  simp [TexCache.markReady, known, valid, some_left, robIndex, RingBuffer.peekAt_of_mem entry, unready, blockAddr,
    bind, Except.bind, pure, Except.pure]

/-- An answer that a line still needs. -/
theorem Sound.fill (sound : c.Sound block due) (blocks : ∀ mf, block mf = cfg.blockAddr (pool.get mf).addr)
    {target : MfId} (credited : cfg.credited pool mf = some target) (wait : due target = some (n + 1)) (time : Nat) :
    ∃ next, c.fill cfg pool mf time = .ok next ∧ next.inside = c.inside ∧
      next.Sound block (Function.update due target (oneLess (due target))) := by
  obtain ⟨i, r, entry, rfl, unready⟩ := sound.waiting _ _ wait
  obtain ⟨m, extra, wait', known, valid, robIndex, counts⟩ := sound.pending i r entry unready
  rw [wait] at wait' ⊢
  obtain rfl := Option.some.inj wait'
  rcases counts with ⟨type, last⟩ | ⟨type, counted⟩
  · simp only [TexCacheConfig.credited, type] at credited
    obtain rfl := Option.some.inj credited
    obtain rfl : n = 0 := Nat.succ.inj last
    refine ⟨{ c with rob := c.rob.setAt i { r with ready := true, time } }, ?_, rfl, sound.setReady entry time⟩
    simp only [TexCache.fill, type]
    exact sound.markReady blocks entry unready known valid robIndex time
  · simp only [TexCacheConfig.credited, type] at credited
    obtain ⟨original, is_original, named⟩ := Option.map_eq_some_iff.mp credited
    have fewer : decrement extra.pendingRead = n := by
      rw [counted]
      rfl
    have pending : Pending cfg { extra with pendingRead := n } i n := ⟨valid, robIndex, .inr ⟨type, rfl⟩⟩
    have still := sound.count entry unready pending
    simp only [TexCache.fill, type, is_original, named, known, fewer]
    cases n with
    | zero =>
      have marked := still.markReady blocks entry unready (Function.update_self ..) valid robIndex time
      have ready := still.setReady entry time
      rw [Function.update_idem] at ready
      exact ⟨_, marked, rfl, ready⟩
    | succ n => exact ⟨_, if_pos (Nat.succ_pos n), rfl, still⟩

/-! ## Accesses -/

/-- A new entry of the fragment FIFO. -/
theorem inside_push {e : FragmentEntry} {place : Nat}
    (pushed : c.fragmentFifo.push e = some (place, next.fragmentFifo)) (results : next.resultFifo = c.resultFifo) :
    next.inside = c.inside ++ [e.request] := by
  rw [inside, results, RingBuffer.toList_push pushed, List.map_append, ← List.append_assoc]
  rfl

theorem nodup_inside_push {e : FragmentEntry} (sound : c.Sound block due) (fresh : e.request ∉ c.inside)
    (entered : next.inside = c.inside ++ [e.request]) : next.inside.Nodup := by
  rw [entered, List.nodup_append]
  refine ⟨sound.distinct, List.nodup_singleton _, fun a member b single => ?_⟩
  rw [List.mem_singleton.mp single]
  exact fun same => fresh (same ▸ member)

theorem Sound.accept_hit (sound : c.Sound block due) {e : FragmentEntry} {place : Nat} (hit : e.miss = false)
    (there : c.tags.resident e.cacheIndex = some (block e.request)) (fresh : e.request ∉ c.inside)
    (pushed : c.fragmentFifo.push e = some (place, next.fragmentFifo)) (settled : next.tags.Settled)
    (resident : next.tags.resident = c.tags.resident) (results : next.resultFifo = c.resultFifo)
    (rob : next.rob = c.rob) (data : next.data = c.data) (extras : next.extraMfFields = c.extraMfFields) :
    next.Sound block due where
  settled := settled
  matched := by
    rw [RingBuffer.toList_push pushed, List.filter_append, List.filter_cons_of_neg (by simp [hit]), List.filter_nil,
      List.append_nil, sound.matched, rob]
  replays := by
    rw [RingBuffer.toList_push pushed, data]
    refine sound.replays.push fun state agrees => ⟨fun _ => agrees _ _ there, ?_⟩
    rw [store, if_neg (by simp [hit]), Agrees, resident]
    exact agrees
  distinct := nodup_inside_push sound fresh (inside_push pushed results)
  pending := by
    rw [rob, extras]
    exact sound.pending
  waiting := by
    rw [rob]
    exact sound.waiting

theorem Sound.accept_miss (sound : c.Sound block due) {e : FragmentEntry} {place robIndex n : Nat} {r : RobEntry}
    {extra : TexExtraMfFields} (miss : e.miss = true) (key : missKey block e = robKey r) (unready : r.ready = false)
    (fresh : e.request ∉ c.inside) (pushed : c.fragmentFifo.push e = some (place, next.fragmentFifo))
    (entered : c.rob.push r = some (robIndex, next.rob)) (settled : next.tags.Settled)
    (resident : next.tags.resident = Function.update c.tags.resident e.cacheIndex (some (block e.request)))
    (results : next.resultFifo = c.resultFifo) (data : next.data = c.data)
    (extras : next.extraMfFields = Function.update c.extraMfFields e.request (some extra))
    (pending : Pending cfg extra robIndex n) :
    next.Sound block (Function.update due e.request (some n)) := by
  have same_request : r.request = e.request := (congrArg Prod.fst key).symm
  have apart : ∀ {j r'}, (j, r') ∈ c.rob.cells → r'.request ≠ e.request := by
    intro j r' member same
    have inside := sound.request_inside (List.mem_map.mpr ⟨(j, r'), member, rfl⟩)
    rw [same] at inside
    exact fresh (List.mem_append_right _ inside)
  refine ⟨settled, ?_, ?_, nodup_inside_push sound fresh (inside_push pushed results), ?_, ?_⟩
  · rw [RingBuffer.toList_push pushed, RingBuffer.toList_push entered, List.filter_append,
      List.filter_cons_of_pos miss, List.filter_nil, List.map_append, List.map_append, sound.matched,
      List.map_singleton, List.map_singleton, key]
  · rw [RingBuffer.toList_push pushed, data]
    refine sound.replays.push fun state agrees => ⟨fun hit => ?_, ?_⟩
    · rw [miss] at hit
      cases hit
    · rw [store, if_pos miss]
      intro i b there
      rw [resident] at there
      by_cases here : i = e.cacheIndex
      · rw [here, Function.update_self] at there
        rw [here, Function.update_self, Option.some.inj there]
      · rw [Function.update_of_ne here] at there ⊢
        exact agrees i b there
  · intro j r' member waits
    rw [RingBuffer.cells_push entered, List.mem_append, List.mem_singleton] at member
    rw [extras]
    rcases member with before | last
    · rw [Function.update_of_ne (apart before)]
      simp only [Function.update_of_ne (apart before)]
      exact sound.pending j r' before waits
    · obtain ⟨rfl, rfl⟩ := Prod.mk.inj last
      rw [same_request]
      exact ⟨n, extra, Function.update_self .., Function.update_self .., pending⟩
  · intro mf m wait
    rw [RingBuffer.cells_push entered]
    by_cases here : mf = e.request
    · exact ⟨robIndex, r, List.mem_append_right _ (List.mem_singleton_self _), same_request.trans here.symm, unready⟩
    · rw [Function.update_of_ne here] at wait
      obtain ⟨j, r', member, same, waits⟩ := sound.waiting mf m wait
      exact ⟨j, r', List.mem_append_left _ member, same, waits⟩

theorem pending_extraFields (robIndex : Nat) : Pending cfg (extraFields cfg robIndex) robIndex cfg.answers where
  valid := rfl
  robIndex := rfl
  counts := by
    unfold extraFields TexCacheConfig.answers
    cases type : cfg.texMshrType with
    | texFifo => exact .inl ⟨rfl, rfl⟩
    | sectorTexFifo => exact .inr ⟨rfl, rfl⟩

/-- What an access does. -/
inductive Answered (c : TexCache cfg) (block : MfId → Nat) (due : MfId → Option Nat) (mf : MfId)
    (result : TexAccess cfg) : Prop
  | refused (status : result.status = .reservationFail) (same : result.cache = c)
  | hit (status : result.status = .hitReserved) (entered : result.cache.inside = c.inside ++ [mf])
      (sound : result.cache.Sound block due)
  | missed (status : result.status = .miss) (entered : result.cache.inside = c.inside ++ [mf])
      (sound : result.cache.Sound block (Function.update due mf (some cfg.answers)))

theorem Sound.access (accepted : cfg.Accepted) (sound : c.Sound block due)
    (blocks : ∀ mf, block mf = cfg.blockAddr (pool.get mf).addr) (early : time < noTimestamp)
    (fits : (pool.get mf).dataSize ≤ cfg.lineSize) (fresh : mf ∉ c.inside) :
    ∃ result, c.access pool (pool.get mf).addr mf time = .ok result ∧
      (∀ other, (result.pool.get other).addr = (pool.get other).addr) ∧ Answered c block due mf result := by
  unfold TexCache.access
  by_cases refused : (c.fragmentFifo.full || c.requestFifo.full || c.rob.full) = true
  · exact ⟨_, if_pos refused, fun _ => rfl, .refused rfl rfl⟩
  rw [if_neg refused]
  simp only [Bool.or_eq_true, not_or, Bool.not_eq_true] at refused
  obtain ⟨⟨fragment_room, request_room⟩, rob_room⟩ := refused
  have is_block : cfg.tag (cfg.blockAddr (pool.get mf).addr) = block mf :=
    (cfg.toCacheConfig.tag_blockAddr _).trans (blocks mf).symm
  obtain ⟨i, tags, ⟨accessed, there, settled, resident⟩ | ⟨accessed, fills⟩⟩ :=
    TagArray.access_settled accepted sound.settled early (cfg.blockAddr (pool.get mf).addr) (pool.get mf)
  · obtain ⟨place, fragmentFifo, pushed⟩ :=
      RingBuffer.exists_push fragment_room ⟨mf, i, false, (pool.get mf).dataSize⟩
    have hit : Sound { c with tags, fragmentFifo } block due :=
      sound.accept_hit rfl (there.trans (congrArg some is_block)) fresh pushed settled resident rfl rfl rfl rfl
    have entered : inside { c with tags, fragmentFifo } = c.inside ++ [mf] :=
      @inside_push cfg c { c with tags, fragmentFifo } _ _ pushed rfl
    refine ⟨⟨.hitReserved, [], { c with tags, fragmentFifo }, pool⟩, ?_, fun _ => rfl, .hit rfl entered hit⟩
    have no_miss : (CacheRequestStatus.hit == .miss) = false := rfl
    simp [Nat.not_lt_of_le fits, accessed, no_miss, pushed, bind, Except.bind, pure, Except.pure]
  · obtain ⟨place, fragmentFifo, pushed⟩ :=
      RingBuffer.exists_push fragment_room ⟨mf, i, true, (pool.get mf).dataSize⟩
    obtain ⟨robIndex, rob, queued⟩ := RingBuffer.exists_push rob_room
      { index := i, request := mf, blockAddr := cfg.blockAddr (pool.get mf).addr }
    obtain ⟨requestPlace, requestFifo, sent⟩ := RingBuffer.exists_push request_room mf
    obtain ⟨filled, filling, settled, resident⟩ := fills (MemFetch.setDataSize cfg.lineSize (pool.get mf))
    let next : TexCache cfg := { c with
      tags := filled, fragmentFifo, rob, requestFifo
      extraMfFields := Function.update c.extraMfFields mf (some (extraFields cfg robIndex)) }
    have entered : next.inside = c.inside ++ [mf] := @inside_push cfg c next _ _ pushed rfl
    have missed : next.Sound block (Function.update due mf (some cfg.answers)) := by
      refine @Sound.accept_miss cfg c next block due sound ⟨mf, i, true, (pool.get mf).dataSize⟩ place robIndex _ _ _
        rfl ?_ rfl fresh pushed queued settled ?_ rfl rfl rfl (pending_extraFields robIndex)
      · simp only [missKey, robKey, blocks]
      · rw [resident, is_block]
    refine ⟨⟨.miss, [{ type := .readRequestSent }], next, pool.modify mf (MemFetch.setDataSize cfg.lineSize)⟩, ?_, ?_,
      .missed rfl entered missed⟩
    · simp [Nat.not_lt_of_le fits, accessed, pushed, queued, filling, sent, bind, Except.bind, pure,
        Except.pure, next]
    · intro other
      by_cases same : other = mf
      · rw [same, MfPool.get_modify_self]
        rfl
      · rw [MfPool.get_modify_of_ne pool _ same]

end TexCache

end GpgpuSim.Cache
