import GpgpuSim.Cache.AccessRuns
import GpgpuSim.Cache.Cells
import GpgpuSim.Cache.Readability

/-! The flush of a tag array, which a flag can make it skip. Only accesses set the flag, and fills can
make a line modified too. -/
namespace GpgpuSim.Cache
open GpgpuSim.Memory Transition

def CacheConfig.numLines (cfg : CacheConfig) : Nat := cfg.nset * cfg.assoc

/-- Every sector of a modified line is made invalid. -/
def CacheBlock.flush (block : CacheBlock) : Except CacheFault CacheBlock :=
  if block.isModifiedLine then
    (List.range sectorChunckSize).foldlM (fun block j => block.setStatus .invalid (1#4 <<< j)) block
  else .ok block

namespace TagArray

def flushLine (tags : TagArray) (i : Nat) : Except CacheFault TagArray := do
  let block ← (tags.lines i).flush
  return tags.setLine i block

/-- `tag_array::flush`, with `is_used`, which it clears. -/
def flush (cfg : CacheConfig) (tags : TagArray) (isUsed : Bool) : Except CacheFault TagArray :=
  if isUsed then (List.range cfg.numLines).foldlM flushLine tags else .ok tags

end TagArray

/-- The kinds of a write hit that go through `tag_array::access`. -/
def DataCache.hitTouches (cfg : DataCacheConfig) (cache : DataCache) (request : MemFetch) : Bool :=
  match cfg.writePolicy with
  | .readOnly | .writeEvict => false
  | .writeBack => true
  | .writeThrough => !cache.missQueueFull cfg.toCacheConfig 0
  | .localWbGlobalWt => decide (request.accessType ≠ .globalAccW)

/-- Whether the access of a request calls `tag_array::access`, which sets `is_used`. -/
def DataCache.touches (cfg : DataCacheConfig) (cache : DataCache) (pool : MfPool) (mf : MfId) : Bool :=
  let request := pool.get mf
  match cache.tagArray.probe cfg.toCacheConfig (cfg.blockAddr request.addr) request true with
  | .error _ => false
  | .ok (status, _) =>
      if request.isWrite then
        if status = .hit then cache.hitTouches cfg request
        else if status ≠ .reservationFail ∨ cfg.writeAllocPolicy = .noWriteAllocate then
          storesOnMiss cfg request && !cache.missQueueFull cfg.toCacheConfig 0 || sendsRead .data cfg cache pool mf
        else false
      else if status = .hit then true
      else if status ≠ .reservationFail then
        sendsRead .data cfg cache pool mf && !cache.mshrs.full cfg.toCacheConfig (cfg.mshrAddr request.addr)
      else false

/-! ## What a flush does -/

variable {cfg : CacheConfig}

theorem CacheBlock.flush_ok {block : CacheBlock} (typed : block.Typed cfg) :
    ∃ next, block.flush = .ok next ∧ next.Typed cfg ∧ ¬ next.view.Modified := by
  unfold CacheBlock.flush
  split_ifs with modified
  · cases block with
    | line block =>
        refine ⟨.line { block with status := .invalid }, rfl, typed, ?_⟩
        rintro ⟨c, -, still⟩
        by_cases zero : c = 0
        · subst zero
          contradiction
        · simp only [CacheBlock.view, Function.update_of_ne zero] at still
          contradiction
    | sector block =>
        refine ⟨_, rfl, typed, ?_⟩
        rintro ⟨c, small, still⟩
        have inside : c < 4 := small
        obtain rfl | rfl | rfl | rfl : c = 0 ∨ c = 1 ∨ c = 2 ∨ c = 3 := by omega
        all_goals contradiction
  · exact ⟨block, rfl, typed, fun still => modified (CacheBlock.isModifiedLine_iff.mpr still)⟩

namespace TagArray

variable {tags next : TagArray} {i : Nat}

theorem flushLines_ok (typed : tags.Typed cfg) (lines : List Nat) :
    ∃ next, lines.foldlM flushLine tags = .ok next ∧ next.Typed cfg ∧ (∀ i ∈ lines, ¬ (next.view i).Modified) ∧
      ∀ i, i ∉ lines → next.lines i = tags.lines i := by
  induction lines generalizing tags with
  | nil => exact ⟨tags, rfl, typed, by simp, fun _ _ => rfl⟩
  | cons i rest ih =>
      obtain ⟨block, flushed, is_typed, clean⟩ := CacheBlock.flush_ok (typed i)
      obtain ⟨next, done, next_typed, cleared, kept⟩ := ih (typed.setLine (i := i) is_typed)
      refine ⟨next, ?_, next_typed, ?_, ?_⟩
      · rw [List.foldlM_cons]
        exact bind_ok.mpr ⟨tags.setLine i block, bind_ok.mpr ⟨block, flushed, rfl⟩, done⟩
      · intro j within
        by_cases later : j ∈ rest
        · exact cleared j later
        · obtain rfl : j = i := (List.mem_cons.mp within).resolve_right later
          have same : next.lines j = block := (kept j later).trans (Function.update_self ..)
          rwa [view, same]
      · intro j without
        obtain ⟨apart, later⟩ := not_or.mp (fun within => without (List.mem_cons.mpr within))
        exact (kept j later).trans (Function.update_of_ne apart ..)

/-- An array that is used is cleared of modified lines as far as the configuration counts its lines. -/
theorem flush_ok (typed : tags.Typed cfg) (isUsed : Bool) :
    ∃ next, tags.flush cfg isUsed = .ok next ∧ next.Typed cfg ∧ (isUsed = false → next = tags) ∧
      (isUsed = true → ∀ i < cfg.numLines, ¬ (next.view i).Modified) ∧
      ∀ i, cfg.numLines ≤ i → next.lines i = tags.lines i := by
  cases isUsed with
  | false => exact ⟨tags, rfl, typed, fun _ => rfl, by simp, fun _ _ => rfl⟩
  | true =>
      obtain ⟨next, done, is_typed, cleared, kept⟩ := flushLines_ok typed (List.range cfg.numLines)
      exact ⟨next, done, is_typed, by simp, fun _ i inside => cleared i (List.mem_range.mpr inside),
        fun i beyond => kept i fun within => absurd (List.mem_range.mp within) (Nat.not_lt.mpr beyond)⟩

/-! ## The lines that are in use -/

theorem line_lt {addr c : Nat} {mf : MemFetch} {status : CacheRequestStatus} (typed : tags.Typed cfg)
    (cell : cfg.cell mf.sectorMask = .ok c) (probed : tags.probe cfg addr mf false = .ok (status, some i)) :
    i < cfg.numLines := by
  obtain ⟨inside, located⟩ := probe_located typed cell probed
  have member : i ∈ ways cfg (cfg.setIndex addr) := by
    cases located with
    | matched member => exact member
    | replaced member => exact member
  obtain ⟨positive, set⟩ := mem_ways.mp member
  exact (Nat.div_lt_iff_lt_mul positive).mp (set ▸ inside)

theorem Touched.elsewhere {addr c j : Nat} {status : CacheRequestStatus} {lines : Nat → Sectors}
    {evicted : Option EvictedBlockInfo} (touched : Touched cfg tags addr c status (some i) lines evicted)
    (apart : j ≠ i) :
    lines j = tags.view j := by
  cases touched with
  | present => rfl
  | allocated => exact Function.update_of_ne apart ..
  | sectorAdded => exact Function.update_of_ne apart ..
  | unallocated => rfl
  | refused => rfl

end TagArray

namespace CacheSystem

variable {kind : CacheKind} {cfg : DataCacheConfig} {s t : CacheSystem} {action : CacheAction}

/-- What lies beyond the lines of the configuration is not modified, and no fill is awaited there. -/
structure Arrayed (cfg : DataCacheConfig) (s : CacheSystem) : Prop where
  outside : ∀ i, cfg.numLines ≤ i → ¬ (s.cache.tagArray.view i).Modified
  indices : ∀ mf extra i, s.cache.extraMfFields mf = some extra → extra.cacheIndex = some i → i < cfg.numLines

namespace Arrayed

theorem create (cfg : DataCacheConfig) (pool : MfPool) : Arrayed cfg (CacheSystem.create cfg pool) where
  outside := by
    rintro i - ⟨c, -, modified⟩
    have invalid := ReservedAwaited.view_create cfg.toCacheConfig i c
    change ((TagArray.create cfg.toCacheConfig).view i).status c = .modified at modified
    rw [invalid] at modified
    contradiction
  indices := by
    intro mf extra i found
    contradiction

/-- One line of the array changes. -/
theorem outside_update {before after : Nat → Sectors} {i : Nat}
    (outside : ∀ j, cfg.numLines ≤ j → ¬ (before j).Modified) (inside : i < cfg.numLines)
    (elsewhere : ∀ j, j ≠ i → after j = before j) : ∀ j, cfg.numLines ≤ j → ¬ (after j).Modified := by
  intro j beyond
  have apart : j ≠ i := by
    rintro rfl
    omega
  rw [elsewhere j apart]
  exact outside j beyond

theorem access {mf : MfId} {time c : Nat} {result : AccessResult} (arrayed : Arrayed cfg s)
    (outstanding : Outstanding cfg s)
    (presented : Presented cfg s mf) (cell : cfg.cell (s.pool.get mf).sectorMask = .ok c)
    (done : kind.access cfg s.cache s.pool mf time = .ok result) : Arrayed cfg ⟨result.cache, result.pool⟩ := by
  obtain ⟨-, -, effect⟩ := CacheKind.access_handled outstanding.typed cell presented.in_use done
  have same : SameRegisters result.cache s.cache →
      ∀ mf extra i, result.cache.extraMfFields mf = some extra → extra.cacheIndex = some i → i < cfg.numLines := by
    intro regs mf extra i found
    rw [regs.extraMfFields] at found
    exact arrayed.indices mf extra i found
  cases effect with
  | unchanged view regs still sent =>
      refine ⟨?_, same regs⟩
      dsimp only
      rw [view]
      exact arrayed.outside
  | written i found probed view regs =>
      refine ⟨outside_update arrayed.outside (TagArray.line_lt outstanding.typed cell found) ?_, same regs⟩
      intro j apart
      dsimp only
      rw [view, Function.update_of_ne apart]
  | writeEvicted i found probed policy sent view regs =>
      refine ⟨outside_update arrayed.outside (TagArray.line_lt outstanding.typed cell found) ?_, same regs⟩
      intro j apart
      dsimp only
      rw [view, Function.update_of_ne apart]
  | stored i status middle evicted write stores queue_room found no_hit room touched view regs disposed =>
      refine ⟨outside_update arrayed.outside (TagArray.line_lt outstanding.typed cell found) ?_, same regs⟩
      intro j apart
      dsimp only
      rcases view with view | view
      · rw [view, Function.update_of_ne apart, touched.elsewhere apart]
      · rw [view, Function.update_of_ne apart, touched.elsewhere apart]
  | fetched r i status middle evicted reader sends found no_hit room touched view registered sectorMask disposed =>
      have inside := TagArray.line_lt outstanding.typed cell found
      refine ⟨outside_update arrayed.outside inside ?_, ?_⟩
      · intro j apart
        dsimp only
        rcases view with ⟨view, -⟩ | ⟨-, view⟩
        · rw [view, touched.elsewhere apart]
        · rw [view, Function.update_of_ne apart, touched.elsewhere apart]
      · intro mf' extra j here at_index
        dsimp only at here
        cases registered with
        | merged isAtomic known room added extras =>
            rw [extras] at here
            exact arrayed.indices mf' extra j here at_index
        | primary isAtomic extra' unknown added extras blockAddr at_addr cacheIndex =>
            rw [extras] at here
            by_cases is_r : mf' = r
            · subst is_r
              rw [Function.update_self] at here
              cases here
              obtain rfl := Option.some.inj (cacheIndex.symm.trans at_index)
              exact inside
            · rw [Function.update_of_ne is_r] at here
              exact arrayed.indices mf' extra j here at_index

theorem completed {r : MfId} {extra : ExtraMfFields} {time : Nat} (arrayed : Arrayed cfg s)
    (outstanding : Outstanding cfg s)
    (completed : DataCache.Completed cfg.toCacheConfig s.cache s.pool r extra time t.cache t.pool) : Arrayed cfg t := by
  obtain ⟨c, cell, -⟩ := outstanding.named completed.pending
  constructor
  · cases policy : cfg.allocPolicy with
    | onMiss =>
        obtain ⟨i, at_index, -, line, -, view⟩ := completed.onMiss outstanding.typed cell policy
        refine outside_update arrayed.outside (arrayed.indices r extra i completed.pending at_index) ?_
        intro j apart
        rw [view, Function.update_of_ne apart]
    | onFill =>
        obtain ⟨i, status, probed, -, -, view⟩ := completed.onFill outstanding.typed cell policy
        refine outside_update arrayed.outside (TagArray.line_lt outstanding.typed cell probed) ?_
        intro j apart
        rw [view, Function.update_of_ne apart]
  · intro mf found i here
    rw [completed.extraMfFields] at here
    by_cases same : mf = r
    · rw [same, Function.update_self] at here
      contradiction
    · rw [Function.update_of_ne same] at here
      exact arrayed.indices mf found i here

theorem step (arrayed : Arrayed cfg s) (outstanding : Outstanding cfg s) (step : Step kind cfg s action t) :
    Arrayed cfg t := by
  cases step with
  | access presented done =>
      obtain ⟨c, cell, -⟩ := Outstanding.cell_of_presented presented
      exact arrayed.access outstanding presented cell done
  | fill done =>
      obtain ⟨r, extra, counted | completed⟩ := DataCache.fill_cases done
      · refine ⟨?_, ?_⟩
        · obtain ⟨pendingRead, rest⟩ := counted.rest
          rw [rest]
          exact arrayed.outside
        · intro mf found i here at_index
          obtain ⟨earlier, before, -, -, index⟩ := counted.before here
          exact arrayed.indices mf earlier i before (index ▸ at_index)
      · exact arrayed.completed outstanding completed
  | nextAccess done =>
      obtain ⟨⟨mf, mshrs⟩, popped, done⟩ := bind_ok.mp done
      cases done
      exact ⟨arrayed.outside, arrayed.indices⟩
  | cycle memportFull =>
      obtain ⟨same, tags⟩ := Outstanding.cycle_same memportFull s.cache
      refine ⟨?_, ?_⟩
      · dsimp only
        rw [tags]
        exact arrayed.outside
      · dsimp only
        rw [same.extraMfFields]
        exact arrayed.indices
  | elsewhere serial kept => exact ⟨arrayed.outside, arrayed.indices⟩

end Arrayed

end CacheSystem

end GpgpuSim.Cache
