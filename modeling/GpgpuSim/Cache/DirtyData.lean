import GpgpuSim.Cache.Reservations

/-! Dirty data. A sector that holds a write nobody else has seen stays modified, or
reserved with its flag set, until its line is replaced and written back. -/
namespace GpgpuSim.Cache
open GpgpuSim.Memory Transition

/-- A sector of a line of block `b` is dirty. -/
def DirtyAt (s : CacheSystem) (i c b : Nat) : Prop :=
  (s.cache.tagArray.lines i).blockAddr = b ∧ (s.cache.tagArray.view i).Dirty c

/-- An access takes the line for another block, or for its own once more. -/
def Replaces (cfg : DataCacheConfig) (move : CacheMove) (i : Nat) : Prop :=
  ∃ mf time result, move.action = .access mf time result ∧ cfg.allocPolicy = .onMiss ∧
    move.before.cache.tagArray.probe cfg.toCacheConfig (cfg.blockAddr (move.before.pool.get mf).addr)
      (move.before.pool.get mf) false = .ok (.miss, some i) ∧
    move.after.cache.tagArray.lines i ≠ move.before.cache.tagArray.lines i

/-- A new write-back of block `b` ends the miss queue. -/
def WritesBack (cfg : DataCacheConfig) (move : CacheMove) (b : Nat) : Prop :=
  ∃ wb front, move.after.cache.missQueue = move.before.cache.missQueue ++ front ++ [wb] ∧
    move.before.pool.nextSerial ≤ wb.serial ∧ (move.after.pool.get wb).accessType = cfg.wrbkType ∧
    (move.after.pool.get wb).addr = b

/-- A global write hits the sector, takes it out and goes on by itself. -/
def GlobalWriteEvicts (cfg : DataCacheConfig) (move : CacheMove) (i c : Nat) : Prop :=
  ∃ mf time result, move.action = .access mf time result ∧ cfg.writePolicy = .localWbGlobalWt ∧
    (move.before.pool.get mf).accessType = .globalAccW ∧
    move.before.cache.tagArray.probe cfg.toCacheConfig (cfg.blockAddr (move.before.pool.get mf).addr)
      (move.before.pool.get mf) false = .ok (.hit, some i) ∧
    cfg.cell (move.before.pool.get mf).sectorMask = .ok c ∧ wasWriteSent result.events

/-- A fill by address that replaces a modified line, or puts its data over a modified sector. -/
def OverwritesModified (cfg : DataCacheConfig) (move : CacheMove) : Prop :=
  ∃ r extra i, cfg.allocPolicy = .onFill ∧ move.before.cache.extraMfFields r = some extra ∧
    move.after.cache.extraMfFields r = none ∧
    (move.before.cache.tagArray.probe cfg.toCacheConfig extra.blockAddr (move.before.pool.get r) false =
        .ok (.miss, some i) ∧ (move.before.cache.tagArray.lines i).isModifiedLine ∨
      move.before.cache.tagArray.probe cfg.toCacheConfig extra.blockAddr (move.before.pool.get r) false =
        .ok (.hit, some i) ∧
        (move.before.cache.tagArray.lines i).getStatus (move.before.pool.get r).sectorMask = .ok .modified)

open CacheSystem

variable {kind : CacheKind} {cfg : DataCacheConfig} {s t : CacheSystem} {action : CacheAction}

/-! ## Tags and block addresses -/

/-- Every line carries the tag and the address of one block. -/
def Tagged (cfg : CacheConfig) (lines : Nat → Sectors) : Prop :=
  ∀ i, ∃ addr, (lines i).tag = cfg.blockAddr addr ∧ (lines i).blockAddr = cfg.blockAddr addr

namespace Tagged

variable {lines : Nat → Sectors} {i : Nat}

theorem update {cfg : CacheConfig} {sectors : Sectors} (tagged : Tagged cfg lines)
    (here : ∃ addr, sectors.tag = cfg.blockAddr addr ∧ sectors.blockAddr = cfg.blockAddr addr) :
    Tagged cfg (Function.update lines i sectors) := by
  intro j
  by_cases same : j = i
  · subst same
    rwa [Function.update_self]
  · rw [Function.update_of_ne same]
    exact tagged j

theorem tag_eq {cfg : CacheConfig} (tagged : Tagged cfg lines) (i : Nat) : (lines i).tag = (lines i).blockAddr := by
  obtain ⟨addr, tag, block⟩ := tagged i
  rw [tag, block]

theorem touched {cfg : CacheConfig} {tags : TagArray} {addr c : Nat} {status : CacheRequestStatus}
    {found : Option Nat} {evicted : Option EvictedBlockInfo} (tagged : Tagged cfg tags.view)
    (touched : TagArray.Touched cfg tags addr c status found lines evicted) : Tagged cfg lines := by
  cases touched with
  | present probed is_hit => exact tagged
  | allocated onMiss free => exact tagged.update ⟨addr, rfl, rfl⟩
  | @sectorAdded i onMiss at_tag absent => exact tagged.update (tagged i)
  | unallocated onFill is_miss => exact tagged
  | refused => exact tagged

theorem create (cfg : CacheConfig) : Tagged cfg (TagArray.create cfg).view := by
  intro i
  have zero : cfg.blockAddr 0 = 0 := Nat.zero_and _
  refine ⟨0, ?_⟩
  unfold TagArray.view TagArray.create CacheBlock.create
  rw [zero]
  cases cfg.cacheType <;> exact ⟨rfl, rfl⟩

theorem effect {cache : DataCache} {pool : MfPool} {mf : MfId} {c : Nat} {result : AccessResult}
    (tagged : Tagged cfg.toCacheConfig cache.tagArray.view) (effect : Effect kind cfg cache pool mf c result) :
    Tagged cfg.toCacheConfig result.cache.tagArray.view := by
  cases effect with
  | unchanged view same still sent => rwa [view]
  | written i found probed view same =>
      rw [view]
      exact tagged.update (tagged i)
  | writeEvicted i found probed policy sent view same =>
      rw [view]
      exact tagged.update (tagged i)
  | fetched r i status middle evicted reader sends probed no_hit room touched view registered sectorMask disposed =>
      have in_middle := tagged.touched touched
      rcases view with ⟨view, -⟩ | ⟨-, view⟩
      · rwa [view]
      · rw [view]
        exact in_middle.update (in_middle i)
  | stored i status middle evicted write stores queue_room probed no_hit room touched view same disposed =>
      have in_middle := tagged.touched touched
      rcases view with view | view
      · rw [view]
        exact in_middle.update (in_middle i)
      · rw [view]
        exact in_middle.update (in_middle i)

theorem completed {r : MfId} {extra : ExtraMfFields} {time : Nat}
    (tagged : Tagged cfg.toCacheConfig s.cache.tagArray.view) (outstanding : Outstanding cfg s)
    (completed : DataCache.Completed cfg.toCacheConfig s.cache s.pool r extra time t.cache t.pool) :
    Tagged cfg.toCacheConfig t.cache.tagArray.view := by
  obtain ⟨c, cell, -⟩ := outstanding.named completed.pending
  cases policy : cfg.allocPolicy with
  | onMiss =>
      obtain ⟨i, -, -, line, is_line, view⟩ := completed.onMiss outstanding.typed cell policy
      rw [view]
      rcases is_line with rfl | rfl
      · exact tagged.update (tagged i)
      · exact tagged.update (tagged i)
  | onFill =>
      obtain ⟨i, status, -, -, -, view⟩ := completed.onFill outstanding.typed cell policy
      rw [view]
      refine tagged.update ?_
      cases status with
      | miss => exact ⟨extra.blockAddr, rfl, rfl⟩
      | hit => exact tagged i
      | hitReserved => exact tagged i
      | reservationFail => exact tagged i
      | sectorMiss => exact tagged i

theorem step (tagged : Tagged cfg.toCacheConfig s.cache.tagArray.view) (outstanding : Outstanding cfg s)
    (step : Step kind cfg s action t) : Tagged cfg.toCacheConfig t.cache.tagArray.view := by
  cases step with
  | access presented done =>
      obtain ⟨c, cell, -⟩ := Outstanding.cell_of_presented presented
      exact tagged.effect (CacheKind.access_handled outstanding.typed cell presented.in_use done).effect
  | fill done =>
      obtain ⟨r, extra, counted | completed⟩ := DataCache.fill_cases done
      · obtain ⟨pendingRead, rest⟩ := counted.rest
        dsimp only
        rw [rest]
        exact tagged
      · exact tagged.completed outstanding completed
  | nextAccess done =>
      obtain ⟨⟨first, mshrs⟩, -, done⟩ := bind_ok.mp done
      cases done
      exact tagged
  | cycle memportFull =>
      dsimp only
      rw [(Outstanding.cycle_same memportFull s.cache).2]
      exact tagged
  | elsewhere serial masks => exact tagged

theorem run {pool : MfPool} {history : List CacheMove} (run : Run kind cfg pool history s) :
    Tagged cfg.toCacheConfig s.cache.tagArray.view := by
  induction run with
  | refl => exact create cfg.toCacheConfig
  | next earlier stepped ih =>
      obtain ⟨action, -, step⟩ := stepped
      exact ih.step (Outstanding.run earlier) step

end Tagged


/-! ## One step -/

namespace Sectors

variable {sectors : Sectors} {c d : Nat}

theorem Dirty.setModified (dirty : sectors.Dirty d) : (sectors.setStatus c .modified).Dirty d := by
  by_cases same : d = c
  · exact .inl (by simp [setStatus, same])
  · simpa [Dirty, setStatus, same] using dirty

theorem Dirty.setOnFill (dirty : sectors.Dirty d) : (sectors.setOnFill c true).Dirty d := by
  rcases dirty with modified | ⟨reserved, flag⟩
  · exact .inl modified
  · refine .inr ⟨reserved, ?_⟩
    by_cases same : d = c
    · simp [Sectors.setOnFill, same]
    · simpa [Sectors.setOnFill, same] using flag

/-- A modified sector that is asked for again is modified when its data arrives. -/
theorem Dirty.addSector (dirty : sectors.Dirty d)
    (absent : sectors.status c = .invalid ∨ sectors.status c = .modified) :
    (sectors.addSector c).Dirty d := by
  by_cases same : d = c
  · subst same
    refine .inr ⟨by simp [Sectors.addSector], ?_⟩
    rcases dirty with modified | ⟨reserved, -⟩
    · simp [Sectors.addSector, modified]
    · rw [reserved] at absent
      rcases absent with absurd | absurd <;> cases absurd
  · simpa [Dirty, Sectors.addSector, same] using dirty

theorem Dirty.fill (dirty : sectors.Dirty d) (pending : sectors.status c ≠ .modified) : (sectors.fill c).Dirty d := by
  by_cases same : d = c
  · subst same
    rcases dirty with modified | ⟨-, flag⟩
    · exact absurd modified pending
    · exact .inl (by simp [Sectors.fill, setStatus, flag])
  · simpa [Dirty, Sectors.fill, setStatus, same] using dirty

end Sectors

/-- Dirty sectors of line `i` stay dirty, and the line keeps its block. -/
def KeepsDirty (before after : Nat → Sectors) (i c b : Nat) : Prop :=
  (before i).blockAddr = b → (before i).Dirty c → (after i).blockAddr = b ∧ (after i).Dirty c

namespace KeepsDirty

variable {before middle after : Nat → Sectors} {i j c b : Nat}

theorem refl (lines : Nat → Sectors) : KeepsDirty lines lines i c b := fun block dirty => ⟨block, dirty⟩

theorem trans (first : KeepsDirty before middle i c b) (second : KeepsDirty middle after i c b) :
    KeepsDirty before after i c b := by
  intro block dirty
  obtain ⟨block', dirty'⟩ := first block dirty
  exact second block' dirty'

theorem update {sectors : Sectors} (block : sectors.blockAddr = (before j).blockAddr)
    (here : (before j).Dirty c → sectors.Dirty c) : KeepsDirty before (Function.update before j sectors) i c b := by
  intro at_block dirty
  by_cases same : i = j
  · subst same
    rw [Function.update_self]
    exact ⟨block.trans at_block, here dirty⟩
  · rw [Function.update_of_ne same]
    exact ⟨at_block, dirty⟩

end KeepsDirty

namespace TagArray

variable {cfg : CacheConfig} {tags : TagArray} {addr c d i b : Nat} {found : Option Nat} {status : CacheRequestStatus}
  {lines : Nat → Sectors} {evicted : Option EvictedBlockInfo}

/-- A dirty sector survives an access, or the access takes its line and evicts its block. -/
theorem Touched.keepsDirty (touched : Touched cfg tags addr c status found lines evicted) :
    KeepsDirty tags.view lines i d b ∨ status = .miss ∧ found = some i ∧ cfg.allocPolicy = .onMiss ∧
      ¬ (tags.view i).Reserved ∧ evicted = tags.evictedFrom i := by
  cases touched with
  | present probed is_hit => exact .inl (.refl _)
  | @allocated j onMiss free =>
      by_cases same : i = j
      · subst same
        exact .inr ⟨rfl, rfl, onMiss, free, rfl⟩
      · refine .inl fun block dirty => ?_
        rw [Function.update_of_ne same]
        exact ⟨block, dirty⟩
  | sectorAdded onMiss at_tag absent => exact .inl (.update rfl fun dirty => dirty.addSector absent)
  | unallocated onFill is_miss => exact .inl (.refl _)
  | refused => exact .inl (.refl _)

/-- A line with a dirty sector and no reserved one is modified. -/
theorem isModifiedLine_of_dirty (free : ¬ (tags.view i).Reserved) (small : d < sectorChunckSize)
    (dirty : (tags.view i).Dirty d) : (tags.lines i).isModifiedLine = true := by
  rw [CacheBlock.isModifiedLine_iff]
  rcases dirty with modified | ⟨reserved, -⟩
  · exact ⟨d, small, modified⟩
  · exact absurd ⟨d, small, reserved⟩ free

end TagArray

theorem DirtyAt.of_keeps {i c b : Nat} (dirty : DirtyAt s i c b)
    (keeps : KeepsDirty s.cache.tagArray.view t.cache.tagArray.view i c b) : DirtyAt t i c b := by
  have before := keeps ((CacheBlock.view_blockAddr).trans dirty.1) dirty.2
  exact ⟨CacheBlock.view_blockAddr.symm.trans before.1, before.2⟩

/-- What happens to a dirty sector in one step. -/
def DirtyStep (cfg : DataCacheConfig) (move : CacheMove) (i c b : Nat) : Prop :=
  DirtyAt move.after i c b ∧ ¬ Replaces cfg move i ∨ Replaces cfg move i ∧ WritesBack cfg move b ∨
    GlobalWriteEvicts cfg move i c

/-- An access that replaces a modified line queues the write-back of its block, unless
writes go through. -/
theorem Replaces.queues {mf : MfId} {time i : Nat} {result : AccessResult} (outstanding : Outstanding cfg s)
    (through : cfg.writePolicy ≠ .writeThrough) (presented : Presented cfg s mf)
    (done : kind.access cfg s.cache s.pool mf time = .ok result)
    (replaced : Replaces cfg ⟨s, .access mf time result, ⟨result.cache, result.pool⟩⟩ i)
    (modified : (s.cache.tagArray.lines i).isModifiedLine = true) :
    ∃ wb, WroteBack cfg s.cache s.pool (s.pool.get mf)
      ⟨(s.cache.tagArray.lines i).blockAddr,
        (s.cache.tagArray.lines i).getModifiedSize⟩ result.cache result.pool wb := by
  obtain ⟨c, cell, -⟩ := Outstanding.cell_of_presented presented
  obtain ⟨-, -, effect⟩ := CacheKind.access_handled outstanding.typed cell presented.in_use done
  obtain ⟨_, _, _, ⟨⟩, onMiss, miss, changed⟩ := replaced
  dsimp only at miss changed
  have evicts : ∀ {status j middle evicted},
      s.cache.tagArray.probe cfg.toCacheConfig (cfg.blockAddr (s.pool.get mf).addr) (s.pool.get mf) false =
        .ok (status, some j) →
      TagArray.Touched cfg.toCacheConfig s.cache.tagArray (cfg.blockAddr (s.pool.get mf).addr) c status (some j)
        middle evicted →
      Disposed cfg s.cache s.pool (s.pool.get mf) result evicted →
      ∃ wb, WroteBack cfg s.cache s.pool (s.pool.get mf)
        ⟨(s.cache.tagArray.lines i).blockAddr,
          (s.cache.tagArray.lines i).getModifiedSize⟩ result.cache result.pool wb := by
    intro status j middle evicted probed touched disposed
    rw [probed] at miss
    cases miss
    cases touched with
    | present _ is_hit => rcases is_hit with absurd | absurd <;> cases absurd
    | allocated onMiss free =>
        rw [TagArray.evictedFrom, if_pos modified] at disposed
        exact disposed through
    | unallocated onFill _ =>
        rw [onMiss] at onFill
        cases onFill
  cases effect with
  | unchanged view same still sent =>
      rcases still with still | ⟨line, hit⟩
      · exact absurd (by rw [still]) changed
      · rw [hit] at miss
        cases miss
  | written j found probed view same =>
      rw [found] at miss
      cases miss
  | writeEvicted j found probed evict sent view same =>
      rw [found] at miss
      cases miss
  | fetched r j status middle evicted reader sends probed no_hit room touched view registered sectorMask disposed =>
      exact evicts probed touched disposed
  | stored j status middle evicted write stores queue_room probed no_hit room touched view same disposed =>
      exact evicts probed touched disposed

/-- A replaced line has no sector that is reserved. -/
theorem Replaces.free {mf : MfId} {time i c : Nat} {result : AccessResult} (outstanding : Outstanding cfg s)
    (cell : cfg.cell (s.pool.get mf).sectorMask = .ok c)
    (replaced : Replaces cfg ⟨s, .access mf time result, ⟨result.cache, result.pool⟩⟩ i) :
    ¬ (s.cache.tagArray.view i).Reserved := by
  obtain ⟨_, _, _, ⟨⟩, -, miss, -⟩ := replaced
  obtain ⟨scanned, sound, rfl | ⟨-, -, not_mode, -⟩⟩ := TagArray.probe_ok outstanding.typed cell miss
  · cases sound with
    | miss i free => exact free
  · cases not_mode

theorem DirtyAt.access {mf : MfId} {time i d b : Nat} {result : AccessResult} (dirty : DirtyAt s i d b)
    (small : d < sectorChunckSize) (outstanding : Outstanding cfg s)
    (policy : cfg.writePolicy = .writeBack ∨ cfg.writePolicy = .localWbGlobalWt) (presented : Presented cfg s mf)
    (done : kind.access cfg s.cache s.pool mf time = .ok result) :
    DirtyStep cfg ⟨s, .access mf time result, ⟨result.cache, result.pool⟩⟩ i d b := by
  obtain ⟨c, cell, -⟩ := Outstanding.cell_of_presented presented
  obtain ⟨typed, extends_pool, effect⟩ := CacheKind.access_handled outstanding.typed cell presented.in_use done
  have through : cfg.writePolicy ≠ .writeThrough := by
    rcases policy with same | same <;> rw [same] <;> decide
  -- an access that hits takes no line
  have hit_stays : ∀ {line}, s.cache.tagArray.probe cfg.toCacheConfig (cfg.blockAddr (s.pool.get mf).addr)
    (s.pool.get mf)
      false = .ok (.hit, line) → ¬ Replaces cfg ⟨s, .access mf time result, ⟨result.cache, result.pool⟩⟩ i := by
    rintro line hit ⟨_, _, _, ⟨⟩, -, miss, -⟩
    rw [hit] at miss
    cases miss
  have written_back : Replaces cfg ⟨s, .access mf time result, ⟨result.cache, result.pool⟩⟩ i →
      WritesBack cfg ⟨s, .access mf time result, ⟨result.cache, result.pool⟩⟩ b := by
    intro replaced
    have modified := TagArray.isModifiedLine_of_dirty (replaced.free outstanding cell) small dirty.2
    obtain ⟨wb, ⟨front, queued⟩, fresh, fields⟩ := replaced.queues outstanding through presented done modified
    refine ⟨wb, front, queued, fresh, ?_, ?_⟩
    · dsimp only
      rw [fields]
      rfl
    · dsimp only
      rw [fields]
      exact dirty.1
  have missed : ∀ {status j middle evicted},
      s.cache.tagArray.probe cfg.toCacheConfig (cfg.blockAddr (s.pool.get mf).addr) (s.pool.get mf) false =
        .ok (status, some j) →
      TagArray.Touched cfg.toCacheConfig s.cache.tagArray (cfg.blockAddr (s.pool.get mf).addr) c status (some j)
        middle evicted →
      KeepsDirty middle result.cache.tagArray.view i d b →
      DirtyStep cfg ⟨s, .access mf time result, ⟨result.cache, result.pool⟩⟩ i d b := by
    intro status j middle evicted probed touched keeps
    by_cases replaced : Replaces cfg ⟨s, .access mf time result, ⟨result.cache, result.pool⟩⟩ i
    · exact .inr (.inl ⟨replaced, written_back replaced⟩)
    · refine .inl ⟨?_, replaced⟩
      rcases @TagArray.Touched.keepsDirty _ _ _ _ d i b _ _ _ _ touched with kept | ⟨rfl, same, onMiss, -, -⟩
      · exact dirty.of_keeps (kept.trans keeps)
      · cases same
        have same_line : result.cache.tagArray.lines i = s.cache.tagArray.lines i := by
          by_contra changed
          exact replaced ⟨mf, time, result, rfl, onMiss, probed, changed⟩
        refine ⟨?_, ?_⟩
        · dsimp only
          rw [same_line]
          exact dirty.1
        · dsimp only [TagArray.view]
          rw [same_line]
          exact dirty.2
  cases effect with
  | unchanged view same still sent =>
      refine .inl ⟨dirty.of_keeps (by dsimp only; rw [view]; exact .refl _), ?_⟩
      rcases still with still | ⟨line, hit⟩
      · rintro ⟨_, _, _, ⟨⟩, -, -, changed⟩
        exact changed (by dsimp only; rw [still])
      · exact hit_stays hit
  | written j found probed view same =>
      refine .inl ⟨dirty.of_keeps ?_, hit_stays found⟩
      dsimp only
      rw [view]
      exact .update rfl fun dirty => dirty.setModified
  | writeEvicted j found probed evict sent view same =>
      by_cases here : i = j ∧ d = c
      · obtain ⟨rfl, rfl⟩ := here
        rcases evict with evict | ⟨mixed, global⟩
        · rw [evict] at policy
          rcases policy with absurd | absurd <;> cases absurd
        · exact .inr (.inr ⟨mf, time, result, rfl, mixed, global, found, cell, sent⟩)
      · refine .inl ⟨dirty.of_keeps ?_, hit_stays found⟩
        intro block was
        dsimp only
        rw [view]
        by_cases same : i = j
        · subst same
          rw [Function.update_self]
          have apart : d ≠ c := fun h => here ⟨rfl, h⟩
          exact ⟨block, by simpa [Sectors.Dirty, Sectors.setStatus, apart] using was⟩
        · rw [Function.update_of_ne same]
          exact ⟨block, was⟩
  | fetched r j status middle evicted reader sends probed no_hit room touched view registered sectorMask disposed =>
      refine missed probed touched ?_
      rcases view with ⟨view, -⟩ | ⟨-, view⟩
      · rw [view]
        exact .refl _
      · rw [view]
        exact .update rfl fun dirty => dirty.setOnFill
  | stored j status middle evicted write stores queue_room probed no_hit room touched view same disposed =>
      refine missed probed touched ?_
      rcases view with view | view
      · rw [view]
        exact .update rfl fun dirty => dirty.setModified
      · rw [view]
        exact .update rfl fun dirty => dirty.setModified.setOnFill


theorem not_replaces {i : Nat} (other : ∀ mf time result, action ≠ .access mf time result) :
    ¬ Replaces cfg ⟨s, action, t⟩ i := by
  rintro ⟨mf, time, result, is_access, -⟩
  exact other mf time result is_access

theorem DirtyAt.completed {r : MfId} {extra : ExtraMfFields} {time i d b : Nat} {mf : MfId} (dirty : DirtyAt s i d b)
    (small : d < sectorChunckSize) (outstanding : Outstanding cfg s)
    (pinned : cfg.allocPolicy = .onMiss → Pinned cfg s) (spares : ¬ OverwritesModified cfg ⟨s, .fill mf time, t⟩)
    (completed : DataCache.Completed cfg.toCacheConfig s.cache s.pool r extra time t.cache t.pool) :
    DirtyAt t i d b := by
  obtain ⟨c, cell, -⟩ := outstanding.named completed.pending
  cases policy : cfg.allocPolicy with
  | onMiss =>
      obtain ⟨j, index, -, line, is_line, view⟩ := completed.onMiss outstanding.typed cell policy
      obtain ⟨j', c', index', cell', -, reserved⟩ := pinned policy r extra completed.pending
      rw [index] at index'
      cases index'
      rw [cell] at cell'
      cases cell'
      refine dirty.of_keeps ?_
      rw [view]
      have pending : (s.cache.tagArray.view j).status c ≠ .modified := by
        rw [reserved]
        decide
      rcases is_line with rfl | rfl
      · exact .update rfl fun dirty => dirty.fill pending
      · exact .update rfl fun dirty => (dirty.fill pending).setModified
  | onFill =>
      obtain ⟨j, status, probed, sound, -, view⟩ := completed.onFill outstanding.typed cell policy
      have answered : t.cache.extraMfFields r = none := by
        rw [completed.extraMfFields, Function.update_self]
      refine dirty.of_keeps ?_
      rw [view]
      cases sound with
      | hitReserved j at_tag reserved =>
          refine .update rfl fun dirty => dirty.fill ?_
          intro modified
          cases reserved.symm.trans modified
      | hit j at_tag present =>
          refine .update rfl fun dirty => dirty.fill ?_
          intro modified
          refine spares ⟨r, extra, j, policy, completed.pending, answered, .inr ⟨probed, ?_⟩⟩
          rw [CacheBlock.getStatus_ok (outstanding.typed j) cell]
          exact congrArg _ modified
      | sectorMiss j at_tag absent =>
          refine .update rfl fun dirty => (dirty.addSector absent).fill ?_
          simp [Sectors.addSector]
      | miss j free =>
          intro block was
          by_cases same : i = j
          · subst same
            have modified := TagArray.isModifiedLine_of_dirty free small was
            exact absurd ⟨r, extra, i, policy, completed.pending, answered, .inl ⟨probed, modified⟩⟩ spares
          · rw [Function.update_of_ne same]
            exact ⟨block, was⟩

/-- One step keeps a dirty sector, or its line is replaced and its block written back. -/
theorem DirtyAt.step {i d b : Nat} (dirty : DirtyAt s i d b) (small : d < sectorChunckSize)
    (outstanding : Outstanding cfg s) (pinned : cfg.allocPolicy = .onMiss → Pinned cfg s)
    (policy : cfg.writePolicy = .writeBack ∨ cfg.writePolicy = .localWbGlobalWt) (step : Step kind cfg s action t)
    (spares : ¬ OverwritesModified cfg ⟨s, action, t⟩) : DirtyStep cfg ⟨s, action, t⟩ i d b := by
  cases step with
  | access presented done => exact dirty.access small outstanding policy presented done
  | fill done =>
      refine .inl ⟨?_, not_replaces (by rintro _ _ _ ⟨⟩)⟩
      obtain ⟨r, extra, counted | completed⟩ := DataCache.fill_cases done
      · obtain ⟨pendingRead, rest⟩ := counted.rest
        refine dirty.of_keeps ?_
        dsimp only
        rw [rest]
        exact .refl _
      · exact dirty.completed small outstanding pinned spares completed
  | nextAccess done =>
      obtain ⟨⟨first, mshrs⟩, -, done⟩ := bind_ok.mp done
      cases done
      exact .inl ⟨dirty, not_replaces (by rintro _ _ _ ⟨⟩)⟩
  | cycle memportFull =>
      refine .inl ⟨dirty.of_keeps ?_, not_replaces (by rintro _ _ _ ⟨⟩)⟩
      dsimp only
      rw [(Outstanding.cycle_same memportFull s.cache).2]
      exact .refl _
  | elsewhere serial masks => exact .inl ⟨dirty, not_replaces (by rintro _ _ _ ⟨⟩)⟩

/-- A write that is taken and sends nothing leaves its sector dirty. -/
theorem dirty_of_write {mf : MfId} {time : Nat} {result : AccessResult} (accepted : cfg.Accepted)
    (outstanding : Outstanding cfg s) (tagged : Tagged cfg.toCacheConfig s.cache.tagArray.view)
    (presented : Presented cfg s mf)
    (done : kind.access cfg s.cache s.pool mf time = .ok result) (write : (s.pool.get mf).isWrite)
    (taken : result.status ≠ .reservationFail) (unsent : wasWriteSent result.events = false) :
    ∃ status i c, s.cache.tagArray.probe cfg.toCacheConfig (cfg.blockAddr (s.pool.get mf).addr) (s.pool.get mf) false =
        .ok (status, some i) ∧ cfg.cell (s.pool.get mf).sectorMask = .ok c ∧
      DirtyAt ⟨result.cache, result.pool⟩ i c (cfg.blockAddr (s.pool.get mf).addr) := by
  obtain ⟨c, cell, -⟩ := Outstanding.cell_of_presented presented
  obtain ⟨typed, extends_pool, effect⟩ := CacheKind.access_handled outstanding.typed cell presented.in_use done
  have after := tagged.effect effect
  have dirty_of : ∀ {i}, (result.cache.tagArray.view i).tag = cfg.blockAddr (s.pool.get mf).addr →
      (result.cache.tagArray.view i).Dirty c →
      DirtyAt ⟨result.cache, result.pool⟩ i c (cfg.blockAddr (s.pool.get mf).addr) := by
    intro i at_tag dirty
    exact ⟨CacheBlock.view_blockAddr.symm.trans ((after.tag_eq i).symm.trans at_tag), dirty⟩
  cases effect with
  | unchanged view same still sent =>
      rw [sent write taken] at unsent
      contradiction
  | written i found probed view same =>
      refine ⟨.hit, i, c, found, cell, dirty_of ?_ ?_⟩
      · rw [view, Function.update_self]
        cases probed with
        | hit i at_tag present => exact at_tag
      · rw [view, Function.update_self]
        exact .inl (by simp [Sectors.setStatus])
  | writeEvicted i found probed policy sent view same =>
      rw [sent] at unsent
      contradiction
  | fetched r i status middle evicted reader sends probed no_hit room touched view registered sectorMask disposed =>
      rcases view with ⟨-, sent⟩ | ⟨fetches, view⟩
      · rw [sent write] at unsent
        contradiction
      · obtain ⟨reserved, tag⟩ := touched.reserves (accepted.fetch (.inl fetches)) no_hit room
        rw [CacheConfig.tag_blockAddr] at tag
        refine ⟨status, i, c, probed, cell, dirty_of ?_ ?_⟩
        · rw [view, Function.update_self]
          exact tag
        · rw [view, Function.update_self]
          exact .inr ⟨reserved, by simp [Sectors.setOnFill]⟩
  | stored i status middle evicted write' stores queue_room probed no_hit room touched view same disposed =>
      have onMiss : cfg.allocPolicy = .onMiss := by
        refine accepted.fetch ?_
        unfold storesOnMiss at stores
        split at stores
        next policy => exact .inr policy
        next policy => exact .inl policy
        next => cases stores
        next => cases stores
      obtain ⟨reserved, tag⟩ := touched.reserves onMiss no_hit room
      rw [CacheConfig.tag_blockAddr] at tag
      refine ⟨status, i, c, probed, cell, dirty_of ?_ ?_⟩
      · rcases view with view | view <;> rw [view, Function.update_self] <;> exact tag
      · rcases view with view | view <;> rw [view, Function.update_self] <;>
          exact .inl (by simp [Sectors.setStatus, Sectors.setOnFill])

/-! ## Runs -/

/-- What the amended statement leaves out: a store on a pending sector, and a fill by
address over modified data. -/
def SparesDirty (cfg : DataCacheConfig) (move : CacheMove) : Prop :=
  storesOnPending cfg move = false ∧ ¬ OverwritesModified cfg move

theorem DirtyAt.run {i d b : Nat} {u : CacheSystem} {pool : MfPool} {history later : List CacheMove}
    (dirty : DirtyAt t i d b) (small : d < sectorChunckSize) (accepted : cfg.Accepted)
    (policy : cfg.writePolicy = .writeBack ∨ cfg.writePolicy = .localWbGlobalWt) (earlier : Run kind cfg pool history t)
    (more : Reaches (Moves kind cfg) t later u) (spares : ∀ move ∈ history ++ later, SparesDirty cfg move) :
    DirtyAt u i d b ∧ (∀ move ∈ later, ¬ Replaces cfg move i) ∨
      ∃ move ∈ later, Replaces cfg move i ∧ WritesBack cfg move b ∨ GlobalWriteEvicts cfg move i d := by
  induction more with
  | refl => exact .inl ⟨dirty, fun move member => absurd member List.not_mem_nil⟩
  | @next trace moves v w before stepped ih =>
      obtain ⟨action, rfl, step⟩ := stepped
      have there := earlier.append before
      rcases ih fun move member => spares move (by
        rw [← List.append_assoc]
        exact List.mem_append_left _ member) with ⟨still, unreplaced⟩ | ⟨move, member, ended⟩
      · have pinned : cfg.allocPolicy = .onMiss → Pinned cfg v := fun onMiss =>
          Pinned.run accepted onMiss there fun move member => (spares move (by
            rw [← List.append_assoc]
            exact List.mem_append_left _ member)).1
        rcases still.step small (Outstanding.run there) pinned policy step (spares _ (by simp)).2 with
          ⟨again, stays⟩ | ended | ended
        · refine .inl ⟨again, ?_⟩
          intro move member
          rcases List.mem_append.mp member with early | last
          · exact unreplaced move early
          · rw [List.mem_singleton.mp last]
            exact stays
        · exact .inr ⟨_, by simp, .inl ended⟩
        · exact .inr ⟨_, by simp, .inr ended⟩
      · exact .inr ⟨move, List.mem_append_left _ member, ended⟩

/-- A write that sends nothing of its own makes a sector dirty, and the sector stays dirty
until its line is replaced and its block written back, or a global write evicts it. -/
theorem dirty_until_written_back {pool : MfPool} {history : List CacheMove} {mf : MfId} {time : Nat}
    {result : AccessResult} (accepted : cfg.Accepted)
    (policy : cfg.writePolicy = .writeBack ∨ cfg.writePolicy = .localWbGlobalWt) (run : Run .data cfg pool history s)
    (step : Step .data cfg s (.access mf time result) t) (write : (s.pool.get mf).isWrite)
    (taken : result.status ≠ .reservationFail) (unsent : wasWriteSent result.events = false) :
    ∃ status i c, s.cache.tagArray.probe cfg.toCacheConfig (cfg.blockAddr (s.pool.get mf).addr) (s.pool.get mf) false =
        .ok (status, some i) ∧ cfg.cell (s.pool.get mf).sectorMask = .ok c ∧
      DirtyAt t i c (cfg.blockAddr (s.pool.get mf).addr) ∧
      ∀ later u, Reaches (Moves .data cfg) t later u →
        (∀ move ∈ history ++ [⟨s, .access mf time result, t⟩] ++ later, SparesDirty cfg move) →
        DirtyAt u i c (cfg.blockAddr (s.pool.get mf).addr) ∧ (∀ move ∈ later, ¬ Replaces cfg move i) ∨
          ∃ move ∈ later, Replaces cfg move i ∧ WritesBack cfg move (cfg.blockAddr (s.pool.get mf).addr) ∨
            GlobalWriteEvicts cfg move i c := by
  have there : Run .data cfg pool (history ++ [⟨s, .access mf time result, t⟩]) t := run.next ⟨_, rfl, step⟩
  cases step with
  | access presented done =>
      obtain ⟨status, i, c, probed, cell, dirty⟩ :=
        dirty_of_write accepted (Outstanding.run run) (Tagged.run run) presented done write taken unsent
      refine ⟨status, i, c, probed, cell, dirty, ?_⟩
      intro later u more spares
      exact dirty.run (CacheConfig.cell_lt cell) accepted policy there more spares


/-- A write of a whole line of the small cache. -/
def lineWrite (accessType : MemAccessType) (addr : Nat) : MemFetch :=
  { requestTo accessType addr with dataSize := 128, byteMask := BitVec.allOnes 128 }

/-- The status and the line of the tag probe of a request. -/
def tagProbe (cfg : DataCacheConfig) (s : CacheSystem) (mf : MfId) : Option (CacheRequestStatus × Option Nat) :=
  (s.cache.tagArray.probe cfg.toCacheConfig (cfg.blockAddr (s.pool.get mf).addr) (s.pool.get mf) false).toOption

/-- Two local writes of different blocks. The second one takes the only line, and the block of the first one is
written back. -/
theorem dirty_until_written_back_local_writes : ∃ s t u first second i c,
    Step .data (oneLine .localWbGlobalWt .fetchOnWrite) s (.access (.request 0) 0 first) t ∧
    Step .data (oneLine .localWbGlobalWt .fetchOnWrite) t (.access (.request 1) 1 second) u ∧
    DirtyAt t i c ((oneLine .localWbGlobalWt .fetchOnWrite).blockAddr (s.pool.get (.request 0)).addr) ∧
    Replaces (oneLine .localWbGlobalWt .fetchOnWrite) ⟨t, .access (.request 1) 1 second, u⟩ i ∧
    WritesBack (oneLine .localWbGlobalWt .fetchOnWrite) ⟨t, .access (.request 1) 1 second, u⟩
      ((oneLine .localWbGlobalWt .fetchOnWrite).blockAddr (s.pool.get (.request 0)).addr) := by
  have passed : succeedsWith (CacheKind.access .data (oneLine .localWbGlobalWt .fetchOnWrite)
      (.create (oneLine .localWbGlobalWt .fetchOnWrite).toCacheConfig)
      (poolOf [lineWrite .localAccW 0, lineWrite .localAccW 128]) (.request 0) 0) (fun first =>
        decide (first.status ≠ .reservationFail) && !wasWriteSent first.events &&
          isPresented (oneLine .localWbGlobalWt .fetchOnWrite) ⟨first.cache, first.pool⟩ (.request 1) &&
          (first.pool.get (.request 1)).accessType == .localAccW &&
          !storesOnPending (oneLine .localWbGlobalWt .fetchOnWrite) ⟨create (oneLine .localWbGlobalWt .fetchOnWrite)
            (poolOf [lineWrite .localAccW 0, lineWrite .localAccW 128]), .access (.request 0) 0 first,
            ⟨first.cache, first.pool⟩⟩ &&
          succeedsWith (CacheKind.access .data (oneLine .localWbGlobalWt .fetchOnWrite) first.cache first.pool
            (.request 1) 1)
            fun second => (second.cache.tagArray.lines 0).blockAddr == 128 &&
              !storesOnPending (oneLine .localWbGlobalWt .fetchOnWrite) ⟨⟨first.cache, first.pool⟩,
                .access (.request 1) 1 second, ⟨second.cache, second.pool⟩⟩) = true := by decide +kernel
  have at_zero : tagProbe (oneLine .localWbGlobalWt .fetchOnWrite) (create (oneLine .localWbGlobalWt .fetchOnWrite)
      (poolOf [lineWrite .localAccW 0, lineWrite .localAccW 128])) (.request 0) = some (.miss, some 0) := rfl
  obtain ⟨first, done, passed⟩ := exists_of_succeedsWith passed
  simp only [Bool.and_eq_true, decide_eq_true_eq, Bool.not_eq_true', beq_iff_eq] at passed
  obtain ⟨⟨⟨⟨⟨taken, unsent⟩, presented⟩, is_local⟩, calm⟩, takes⟩ := passed
  obtain ⟨second, done', takes⟩ := exists_of_succeedsWith takes
  simp only [Bool.and_eq_true, Bool.not_eq_true', beq_iff_eq] at takes
  obtain ⟨other, calm'⟩ := takes
  have step : Step .data (oneLine .localWbGlobalWt .fetchOnWrite)
      (create (oneLine .localWbGlobalWt .fetchOnWrite) (poolOf [lineWrite .localAccW 0, lineWrite .localAccW 128]))
      (.access (.request 0) 0 first) ⟨first.cache, first.pool⟩ :=
    .access (presented_of_isPresented rfl) done
  have next_step : Step .data (oneLine .localWbGlobalWt .fetchOnWrite) ⟨first.cache, first.pool⟩
      (.access (.request 1) 1 second) ⟨second.cache, second.pool⟩ :=
    .access (presented_of_isPresented presented) done'
  obtain ⟨status, i, c, probed, -, dirty, stays⟩ := dirty_until_written_back (oneLine_accepted _ _) (.inr rfl) .refl
    step rfl taken unsent
  rw [tagProbe, probed] at at_zero
  cases at_zero
  -- the cache allocates on a miss, so no fill overwrites anything
  have spares : ∀ move, storesOnPending (oneLine .localWbGlobalWt .fetchOnWrite) move = false →
      SparesDirty (oneLine .localWbGlobalWt .fetchOnWrite) move := by
    refine fun move calm => ⟨calm, ?_⟩
    rintro ⟨r, extra, i, ⟨⟩, -⟩
  refine ⟨_, _, _, first, second, 0, c, step, next_step, dirty, ?_⟩
  rcases stays _ _ (Reaches.refl.next ⟨_, rfl, next_step⟩) (by simp [spares _ calm, spares _ calm']) with
    ⟨still, -⟩ | ⟨move, member, written | gone⟩
  · have same := still.1.symm.trans other
    exact absurd same (by decide)
  · obtain rfl := List.mem_singleton.mp member
    exact written
  · obtain rfl := List.mem_singleton.mp member
    obtain ⟨_, _, _, ⟨⟩, -, is_global, -⟩ := gone
    rw [is_local] at is_global
    cases is_global

/-- A local write and then a global write to one sector: the second takes the sector out and
goes on alone. -/
theorem global_write_drops_local_write :
    ¬ ∀ (cfg : DataCacheConfig) (pool : MfPool) (history : List CacheMove) (s t : CacheSystem) (mf : MfId) (time : Nat)
      (result : AccessResult), cfg.Accepted → cfg.writePolicy = .writeBack ∨ cfg.writePolicy = .localWbGlobalWt →
      Run .data cfg pool history s → Step .data cfg s (.access mf time result) t → (s.pool.get mf).isWrite →
      result.status ≠ .reservationFail → wasWriteSent result.events = false →
      ∃ status i c, s.cache.tagArray.probe cfg.toCacheConfig (cfg.blockAddr (s.pool.get mf).addr)
        (s.pool.get mf) false =
          .ok (status, some i) ∧ cfg.cell (s.pool.get mf).sectorMask = .ok c ∧
        DirtyAt t i c (cfg.blockAddr (s.pool.get mf).addr) ∧
        ∀ later u, Reaches (Moves .data cfg) t later u →
          DirtyAt u i c (cfg.blockAddr (s.pool.get mf).addr) ∧ (∀ move ∈ later, ¬ Replaces cfg move i) ∨
            ∃ move ∈ later, Replaces cfg move i ∧ WritesBack cfg move (cfg.blockAddr (s.pool.get mf).addr) := by
  intro claim
  have passed : succeedsWith (CacheKind.access .data (oneLine .localWbGlobalWt .fetchOnWrite)
      (.create (oneLine .localWbGlobalWt .fetchOnWrite).toCacheConfig)
      (poolOf [lineWrite .localAccW 0, lineWrite .globalAccW 0]) (.request 0) 0) (fun first =>
        decide (first.status ≠ .reservationFail) && !wasWriteSent first.events &&
          isPresented (oneLine .localWbGlobalWt .fetchOnWrite) ⟨first.cache, first.pool⟩ (.request 1) &&
          tagProbe (oneLine .localWbGlobalWt .fetchOnWrite) ⟨first.cache, first.pool⟩ (.request 1) ==
            some (.hit, some 0) &&
          succeedsWith (CacheKind.access .data (oneLine .localWbGlobalWt .fetchOnWrite) first.cache first.pool
            (.request 1) 1)
            fun second => (second.cache.tagArray.view 0).status 0 == .invalid) = true := by decide +kernel
  have at_zero : tagProbe (oneLine .localWbGlobalWt .fetchOnWrite) (create (oneLine .localWbGlobalWt .fetchOnWrite)
      (poolOf [lineWrite .localAccW 0, lineWrite .globalAccW 0])) (.request 0) = some (.miss, some 0) := rfl
  obtain ⟨first, done, passed⟩ := exists_of_succeedsWith passed
  simp only [Bool.and_eq_true, decide_eq_true_eq, Bool.not_eq_true', beq_iff_eq] at passed
  obtain ⟨⟨⟨⟨taken, unsent⟩, presented⟩, hits⟩, evicts⟩ := passed
  obtain ⟨second, done', evicts⟩ := exists_of_succeedsWith evicts
  have step : Step .data (oneLine .localWbGlobalWt .fetchOnWrite)
      (create (oneLine .localWbGlobalWt .fetchOnWrite) (poolOf [lineWrite .localAccW 0, lineWrite .globalAccW 0]))
      (.access (.request 0) 0 first) ⟨first.cache, first.pool⟩ :=
    .access (presented_of_isPresented rfl) done
  have next_step : Step .data (oneLine .localWbGlobalWt .fetchOnWrite) ⟨first.cache, first.pool⟩
      (.access (.request 1) 1 second) ⟨second.cache, second.pool⟩ :=
    .access (presented_of_isPresented presented) done'
  obtain ⟨status, i, c, probed, cell, -, stays⟩ :=
    claim _ _ [] _ _ _ _ _ (oneLine_accepted _ _) (.inr rfl) .refl step rfl taken unsent
  rw [tagProbe, probed] at at_zero
  cases at_zero
  cases cell
  rcases stays _ _ (Reaches.refl.next ⟨_, rfl, next_step⟩) with ⟨dirty, -⟩ | ⟨move, member, replaced, -⟩
  · rw [beq_iff_eq] at evicts
    have status := dirty.2
    simp only [Sectors.Dirty, evicts] at status
    rcases status with absurd | ⟨absurd, -⟩ <;> cases absurd
  · obtain rfl := List.mem_singleton.mp member
    obtain ⟨_, _, _, ⟨⟩, -, miss, -⟩ := replaced
    rw [tagProbe, miss] at hits
    cases hits

end GpgpuSim.Cache
