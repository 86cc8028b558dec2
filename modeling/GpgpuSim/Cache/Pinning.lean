import GpgpuSim.Cache.AccessRuns

/-! Lines that wait for data. A request remembers the index of its line, and the line
keeps its tag because reserved sectors are not replaced, as long as no write stores into a
sector that is still reserved. -/
namespace GpgpuSim.Cache
open GpgpuSim.Memory Transition

/-- Reserved sectors stay reserved, and their lines keep their tags. -/
def KeepsReserved (before after : Nat → Sectors) : Prop :=
  ∀ i c, c < sectorChunckSize → (before i).status c = .reserved →
    (after i).status c = .reserved ∧ (after i).tag = (before i).tag

namespace KeepsReserved

variable {a b d : Nat → Sectors} {i c : Nat}

theorem refl (a : Nat → Sectors) : KeepsReserved a a := fun _ _ _ reserved => ⟨reserved, rfl⟩

theorem trans (ab : KeepsReserved a b) (bd : KeepsReserved b d) : KeepsReserved a d := by
  intro i c small reserved
  obtain ⟨still, tag⟩ := ab i c small reserved
  obtain ⟨again, tag'⟩ := bd i c small still
  exact ⟨again, tag'.trans tag⟩

theorem update {sectors : Sectors}
    (here : ∀ c < sectorChunckSize, (a i).status c = .reserved → sectors.status c = .reserved ∧
      sectors.tag = (a i).tag) :
    KeepsReserved a (Function.update a i sectors) := by
  intro j c small reserved
  by_cases same : j = i
  · subst same
    rw [Function.update_self]
    exact here c small reserved
  · rw [Function.update_of_ne same]
    exact ⟨reserved, rfl⟩

theorem setStatus {status : CacheBlockState} (present : (a i).status c ≠ .reserved) :
    KeepsReserved a (Function.update a i ((a i).setStatus c status)) := by
  refine update ?_
  intro c' _ reserved
  refine ⟨?_, rfl⟩
  have apart : c' ≠ c := by
    rintro rfl
    exact present reserved
  simpa [Sectors.setStatus, apart] using reserved

theorem setOnFill (modified : Bool) : KeepsReserved a (Function.update a i ((a i).setOnFill c modified)) :=
  update fun _ _ reserved => ⟨reserved, rfl⟩

end KeepsReserved

namespace TagArray

variable {cfg : CacheConfig} {tags : TagArray} {addr c i : Nat} {found : Option Nat} {status : CacheRequestStatus}
  {lines : Nat → Sectors} {evicted : Option EvictedBlockInfo}

theorem Touched.keepsReserved (touched : Touched cfg tags addr c status found lines evicted) :
    KeepsReserved tags.view lines := by
  cases touched with
  | present probed is_hit => exact .refl _
  | allocated onMiss free =>
      refine .update ?_
      intro c' small reserved
      exact absurd ⟨c', small, reserved⟩ free
  | @sectorAdded i onMiss at_tag absent =>
      refine .update ?_
      intro c' _ reserved
      refine ⟨?_, rfl⟩
      by_cases same : c' = c
      · simp [Sectors.addSector, same]
      · simpa [Sectors.addSector, same] using reserved
  | unallocated onFill is_miss => exact .refl _
  | refused => exact .refl _

/-- An access that misses finds its sector unreserved and reserves it. -/
theorem Touched.reserves (touched : Touched cfg tags addr c status (some i) lines evicted)
    (onMiss : cfg.allocPolicy = .onMiss) (no_hit : status ≠ .hit) (room : status ≠ .reservationFail) :
    (lines i).status c = .reserved ∧ (lines i).tag = cfg.tag addr := by
  cases touched with
  | present probed is_hit =>
      rcases is_hit with rfl | rfl
      · contradiction
      · cases probed with
        | hitReserved i at_tag reserved => exact ⟨reserved, at_tag⟩
  | allocated onMiss free => simp [Sectors.allocated]
  | sectorAdded onMiss at_tag absent => simpa [Sectors.addSector] using at_tag
  | unallocated onFill is_miss =>
      rw [onMiss] at onFill
      contradiction
  | refused => contradiction

theorem Touched.unreserved (touched : Touched cfg tags addr c status (some i) lines evicted)
    (small : c < sectorChunckSize) (onMiss : cfg.allocPolicy = .onMiss) (no_hit : status ≠ .hit)
    (not_pending : status ≠ .hitReserved) (room : status ≠ .reservationFail) :
    (tags.view i).status c ≠ .reserved := by
  cases touched with
  | present probed is_hit => rcases is_hit with rfl | rfl <;> contradiction
  | allocated onMiss free => exact fun reserved => free ⟨c, small, reserved⟩
  | sectorAdded onMiss at_tag absent =>
      intro reserved
      rcases absent with absent | absent
      · rw [reserved] at absent
        contradiction
      · rw [reserved] at absent
        contradiction
  | unallocated onFill is_miss =>
      rw [onMiss] at onFill
      contradiction
  | refused => contradiction

end TagArray

/-- A write that is taken although its sector still waits for data, and changes it at once. -/
def storesOnPending (cfg : DataCacheConfig) (move : CacheMove) : Bool :=
  match move.action with
  | .access mf _ _ =>
      let request := move.before.pool.get mf
      request.isWrite && storesOnMiss cfg request && !move.before.cache.missQueueFull cfg.toCacheConfig 0 &&
        match move.before.cache.tagArray.probe cfg.toCacheConfig (cfg.blockAddr request.addr) request false with
        | .ok (.hitReserved, _) => true
        | _ => false
  | _ => false

/-- The line that a request under way remembers is its own, and its sector is reserved. -/
def Pinned (cfg : DataCacheConfig) (s : CacheSystem) : Prop :=
  ∀ mf extra, s.cache.extraMfFields mf = some extra →
    ∃ i c, extra.cacheIndex = some i ∧ cfg.cell (s.pool.get mf).sectorMask = .ok c ∧
      (s.cache.tagArray.view i).tag = cfg.blockAddr extra.addr ∧ (s.cache.tagArray.view i).status c = .reserved


namespace CacheConfig

/-- Rounding down to a power of two, as a mask does it. -/
theorem align_eq {size k : Nat} (is_power : size = 2 ^ k) (fits : k ≤ 64) (addr : Nat) :
    align size addr = addr % 2 ^ 64 / size * size := by
  have positive := Nat.two_pow_pos k
  have small : 2 ^ k ≤ 2 ^ 64 := Nat.pow_le_pow_right (by decide) fits
  have mask : 2 ^ 64 - 1 - (2 ^ k - 1) = 2 ^ 64 - 2 ^ k := by omega
  rw [align, is_power, mask, Words.and_two_pow_sub_two_pow addr fits]

/-- Addresses of one sector of one block share their entry in the registers. -/
theorem mshrAddr_eq {cfg : DataCacheConfig} (accepted : cfg.Accepted) {a b : Nat}
    (block : cfg.blockAddr a = cfg.blockAddr b)
    (sector : cfg.cacheType = .sector → a / sectorSize % sectorChunckSize = b / sectorSize % sectorChunckSize) :
    cfg.mshrAddr a = cfg.mshrAddr b := by
  unfold CacheConfig.mshrAddr CacheConfig.atomSize
  cases kind : cfg.cacheType with
  | normal => exact block
  | sector =>
      have line := accepted.sector kind
      have same := sector kind
      have whole : ∀ addr, align (4 * 32) addr = addr % 2 ^ 64 / 128 * 128 := fun addr =>
        align_eq (k := 7) rfl (by decide) addr
      have part : ∀ addr, align 32 addr = addr % 2 ^ 64 / 32 * 32 := fun addr =>
        align_eq (k := 5) rfl (by decide) addr
      simp only [CacheConfig.blockAddr, line, sectorChunckSize, sectorSize, whole, part] at block same ⊢
      omega

end CacheConfig

open CacheSystem

variable {kind : CacheKind} {cfg : DataCacheConfig} {s t : CacheSystem} {action : CacheAction}

/-- An access keeps reserved sectors, but for a store on a pending one. -/
theorem Effect.keepsReserved {cache : DataCache} {pool : MfPool} {mf : MfId} {c : Nat} {result : AccessResult}
    (effect : Effect kind cfg cache pool mf c result) (onMiss : cfg.allocPolicy = .onMiss)
    (small : c < sectorChunckSize) (spares : ∀ line, (pool.get mf).isWrite → storesOnMiss cfg (pool.get mf) →
      cache.missQueueFull cfg.toCacheConfig 0 = false →
      cache.tagArray.probe cfg.toCacheConfig (cfg.blockAddr (pool.get mf).addr) (pool.get mf) false ≠
        .ok (.hitReserved, line)) :
    KeepsReserved cache.tagArray.view result.cache.tagArray.view := by
  have hit_unreserved : ∀ {i}, TagArray.Probed cfg.toCacheConfig cache.tagArray.view
      (cfg.blockAddr (pool.get mf).addr) c .hit (some i) → (cache.tagArray.view i).status c ≠ .reserved := by
    intro i probed reserved
    cases probed with
    | hit i at_tag present =>
        rw [reserved] at present
        rcases present with absurd | absurd <;> cases absurd
  cases effect with
  | unchanged view same still sent =>
      rw [view]
      exact .refl _
  | written i found probed view same =>
      rw [view]
      exact .setStatus (hit_unreserved probed)
  | writeEvicted i found probed policy sent view same =>
      rw [view]
      exact .setStatus (hit_unreserved probed)
  | fetched r i status middle evicted reader sends probed no_hit room touched view registered sectorMask disposed =>
      refine touched.keepsReserved.trans ?_
      rcases view with ⟨view, -⟩ | ⟨-, view⟩
      · rw [view]
        exact .refl _
      · rw [view]
        exact .setOnFill true
  | stored i status middle evicted write stores queue_room probed no_hit room touched view same disposed =>
      have not_pending : status ≠ .hitReserved := by
        rintro rfl
        exact spares _ write stores queue_room probed
      have free := touched.unreserved small onMiss no_hit not_pending room
      -- the sector was not reserved before, so what the store makes of it does not matter
      intro j c' small' reserved
      obtain ⟨still, tag⟩ := touched.keepsReserved j c' small' reserved
      have apart : ¬ (j = i ∧ c' = c) := by
        rintro ⟨rfl, rfl⟩
        exact free reserved
      rcases view with view | view <;> rw [view]
      · by_cases same : j = i
        · subst same
          rw [Function.update_self]
          exact ⟨by simpa [Sectors.setStatus, show c' ≠ c from fun h => apart ⟨rfl, h⟩] using still, tag⟩
        · rw [Function.update_of_ne same]
          exact ⟨still, tag⟩
      · by_cases same : j = i
        · subst same
          rw [Function.update_self]
          exact ⟨by simpa [Sectors.setStatus, Sectors.setOnFill, show c' ≠ c from fun h => apart ⟨rfl, h⟩] using still,
            tag⟩
        · rw [Function.update_of_ne same]
          exact ⟨still, tag⟩

namespace Pinned

theorem create (cfg : DataCacheConfig) (pool : MfPool) : Pinned cfg (CacheSystem.create cfg pool) := by
  intro mf extra found
  contradiction

/-- Lines of which reserved sectors are kept still pin the requests that were there. -/
theorem kept {mf : MfId} {extra earlier : ExtraMfFields} (pinned : Pinned cfg s)
    (was : s.cache.extraMfFields mf = some earlier) (addr : extra.addr = earlier.addr)
    (cacheIndex : extra.cacheIndex = earlier.cacheIndex)
    (mask : (t.pool.get mf).sectorMask = (s.pool.get mf).sectorMask)
    (keeps : KeepsReserved s.cache.tagArray.view t.cache.tagArray.view) :
    ∃ i c, extra.cacheIndex = some i ∧ cfg.cell (t.pool.get mf).sectorMask = .ok c ∧
      (t.cache.tagArray.view i).tag = cfg.blockAddr extra.addr ∧ (t.cache.tagArray.view i).status c = .reserved := by
  obtain ⟨i, c, index, cell, tag, reserved⟩ := pinned mf earlier was
  obtain ⟨still, same⟩ := keeps i c (CacheConfig.cell_lt cell) reserved
  refine ⟨i, c, by rw [cacheIndex, index], by rw [mask, cell], ?_, still⟩
  rw [same, tag, addr]

theorem access {mf : MfId} {time : Nat} {result : AccessResult} (pinned : Pinned cfg s)
    (outstanding : Outstanding cfg s) (onMiss : cfg.allocPolicy = .onMiss) (presented : Presented cfg s mf)
    (done : kind.access cfg s.cache s.pool mf time = .ok result)
    (spares : storesOnPending cfg ⟨s, .access mf time result, ⟨result.cache, result.pool⟩⟩ = false) :
    Pinned cfg ⟨result.cache, result.pool⟩ := by
  obtain ⟨c, cell, -⟩ := Outstanding.cell_of_presented presented
  obtain ⟨typed, extends_pool, effect⟩ := CacheKind.access_handled outstanding.typed cell presented.in_use done
  have keeps := effect.keepsReserved onMiss (CacheConfig.cell_lt cell) (by
    intro line write stores queue probed
    simp [storesOnPending, write, stores, queue, probed] at spares)
  have mask := outstanding.of_extends extends_pool
  have old : result.cache.extraMfFields = s.cache.extraMfFields → Pinned cfg ⟨result.cache, result.pool⟩ := by
    intro same mf' extra found
    have was : s.cache.extraMfFields mf' = some extra := by rwa [← same]
    exact pinned.kept was rfl rfl (mask mf' (by rw [was]; rfl)) keeps
  cases effect with
  | unchanged view same still sent => exact old same.extraMfFields
  | written i found probed view same => exact old same.extraMfFields
  | writeEvicted i found probed policy sent view same => exact old same.extraMfFields
  | stored i status middle evicted write stores queue_room probed no_hit room touched view same disposed =>
      exact old same.extraMfFields
  | fetched r i status middle evicted reader sends probed no_hit room touched view registered sectorMask disposed =>
      cases registered with
      | merged isAtomic known free added extras => exact old extras
      | primary isAtomic extra unknown added extras blockAddr at_addr cacheIndex =>
          intro mf' extra' found
          dsimp only at found
          rw [extras] at found
          by_cases same : mf' = r
          · subst same
            rw [Function.update_self] at found
            cases found
            obtain ⟨reserved, tag⟩ := touched.reserves onMiss no_hit room
            rw [CacheConfig.tag_blockAddr] at tag
            refine ⟨i, c, cacheIndex, by rw [sectorMask, cell], ?_⟩
            rw [at_addr]
            rcases view with ⟨view, -⟩ | ⟨-, view⟩
            · rw [view]
              exact ⟨tag, reserved⟩
            · rw [view, Function.update_self]
              exact ⟨tag, reserved⟩
          · rw [Function.update_of_ne same] at found
            exact pinned.kept found rfl rfl (mask mf' (by rw [found]; rfl)) keeps

/-- Two requests under way for one sector of one line are one request. -/
theorem unique {mf mf' : MfId} {extra extra' : ExtraMfFields} {c : Nat} (accepted : cfg.Accepted)
    (outstanding : Outstanding cfg s) (found : s.cache.extraMfFields mf = some extra)
    (found' : s.cache.extraMfFields mf' = some extra') (cell : cfg.cell (s.pool.get mf).sectorMask = .ok c)
    (cell' : cfg.cell (s.pool.get mf').sectorMask = .ok c)
    (block : cfg.blockAddr extra.addr = cfg.blockAddr extra'.addr) :
    mf = mf' := by
  refine outstanding.primary found found' ?_
  rw [outstanding.block found, outstanding.block found']
  refine CacheConfig.mshrAddr_eq accepted block ?_
  intro sectored
  obtain ⟨d, named, sector⟩ := outstanding.named found
  obtain ⟨d', named', sector'⟩ := outstanding.named found'
  rw [cell] at named
  rw [cell'] at named'
  cases named
  cases named'
  rw [← sector sectored, ← sector' sectored]

/-- A fill changes one sector of one line, which stays with its block. -/
structure Filling (cfg : DataCacheConfig) (before after : CacheSystem) (i c : Nat) : Prop where
  tag : (after.cache.tagArray.view i).tag = (before.cache.tagArray.view i).tag
  lines : ∀ j, j ≠ i → after.cache.tagArray.view j = before.cache.tagArray.view j
  sectors : ∀ d, d ≠ c → (after.cache.tagArray.view i).status d = (before.cache.tagArray.view i).status d

theorem filling {r : MfId} {extra : ExtraMfFields} {time c : Nat} (outstanding : Outstanding cfg s)
    (completed : DataCache.Completed cfg.toCacheConfig s.cache s.pool r extra time t.cache t.pool)
    (onMiss : cfg.allocPolicy = .onMiss) (cell : cfg.cell (s.pool.get r).sectorMask = .ok c) :
    ∃ i, extra.cacheIndex = some i ∧ Filling cfg s t i c := by
  obtain ⟨i, index, -, line, is_line, view⟩ := completed.onMiss outstanding.typed cell onMiss
  refine ⟨i, index, ?_, ?_, ?_⟩
  · rw [view, Function.update_self]
    rcases is_line with rfl | rfl <;> rfl
  · intro j apart
    rw [view, Function.update_of_ne apart]
  · intro d apart
    rw [view, Function.update_self]
    rcases is_line with rfl | rfl
    · simp [Sectors.fill, Sectors.setStatus, apart]
    · simp [Sectors.fill, Sectors.setStatus, apart]

theorem completed {r : MfId} {extra : ExtraMfFields} {time : Nat} (accepted : cfg.Accepted) (pinned : Pinned cfg s)
    (outstanding : Outstanding cfg s) (onMiss : cfg.allocPolicy = .onMiss)
    (completed : DataCache.Completed cfg.toCacheConfig s.cache s.pool r extra time t.cache t.pool) : Pinned cfg t := by
  obtain ⟨i, c, index, cell, tag, -⟩ := pinned r extra completed.pending
  obtain ⟨_, index', filled⟩ := filling outstanding completed onMiss cell
  rw [index] at index'
  cases index'
  intro mf found here
  rw [completed.extraMfFields] at here
  by_cases same : mf = r
  · subst same
    rw [Function.update_self] at here
    contradiction
  rw [Function.update_of_ne same] at here
  obtain ⟨j, d, at_index, named, at_tag, reserved⟩ := pinned mf found here
  refine ⟨j, d, at_index, by rw [completed.sectorMask, named], ?_⟩
  by_cases line : j = i
  · subst line
    have sector : d ≠ c := by
      rintro rfl
      exact same (unique accepted outstanding here completed.pending named cell (at_tag.symm.trans tag))
    rw [filled.tag, filled.sectors d sector]
    exact ⟨at_tag, reserved⟩
  · rw [filled.lines j line]
    exact ⟨at_tag, reserved⟩

theorem step (accepted : cfg.Accepted) (pinned : Pinned cfg s) (outstanding : Outstanding cfg s)
    (onMiss : cfg.allocPolicy = .onMiss) (step : Step kind cfg s action t)
    (spares : storesOnPending cfg ⟨s, action, t⟩ = false) : Pinned cfg t := by
  cases step with
  | access presented done => exact pinned.access outstanding onMiss presented done spares
  | fill done =>
      obtain ⟨r, extra, counted | completed⟩ := DataCache.fill_cases done
      · intro mf found here
        obtain ⟨earlier, was, -, addr, cacheIndex⟩ := counted.before here
        obtain ⟨pendingRead, rest⟩ := counted.rest
        refine pinned.kept was addr cacheIndex ?_ ?_
        · dsimp only
          rw [counted.pool_eq]
        · dsimp only
          rw [rest]
          exact .refl _
      · exact pinned.completed accepted outstanding onMiss completed
  | nextAccess done =>
      obtain ⟨⟨first, mshrs⟩, -, done⟩ := bind_ok.mp done
      cases done
      exact pinned
  | cycle memportFull =>
      obtain ⟨same, tags⟩ := Outstanding.cycle_same memportFull s.cache
      intro mf found here
      dsimp only at here ⊢
      rw [same.extraMfFields] at here
      rw [tags]
      exact pinned mf found here
  | elsewhere serial kept =>
      intro mf found here
      exact pinned.kept here rfl rfl (kept mf (by dsimp only at here; rw [here]; rfl)) (.refl _)

theorem run (accepted : cfg.Accepted) (onMiss : cfg.allocPolicy = .onMiss) {pool : MfPool} {history : List CacheMove}
    (run : Run kind cfg pool history s) (spares : ∀ move ∈ history, storesOnPending cfg move = false) :
    Pinned cfg s := by
  induction run with
  | refl => exact create cfg pool
  | next earlier stepped ih =>
      obtain ⟨action, rfl, step⟩ := stepped
      have pinned := ih fun move member => spares move (List.mem_append_left _ member)
      exact pinned.step accepted (Outstanding.run earlier) onMiss step (spares _ (by simp))

end Pinned

/-- A fill that completes a request finds the line of the request's block, reserved, and
changes nothing but the sector that was asked for. -/
structure FillsOwnBlock (cfg : DataCacheConfig) (before after : CacheSystem) (r : MfId) (extra : ExtraMfFields)
    (i c : Nat) : Prop where
  cacheIndex : extra.cacheIndex = some i
  cell : cfg.cell (before.pool.get r).sectorMask = .ok c
  own_tag : (before.cache.tagArray.lines i).tag = cfg.tag extra.addr
  reserved : (before.cache.tagArray.view i).status c = .reserved
  same_tag : (after.cache.tagArray.lines i).tag = cfg.tag extra.addr
  others : ∀ j d, (j, d) ≠ (i, c) →
    (after.cache.tagArray.view j).status d = (before.cache.tagArray.view j).status d

theorem fill_own_block (accepted : cfg.Accepted) (onMiss : cfg.allocPolicy = .onMiss) {pool : MfPool}
    {history : List CacheMove} (run : Run kind cfg pool history s)
    (spares : ∀ move ∈ history, storesOnPending cfg move = false) {mf r : MfId} {time : Nat} {extra : ExtraMfFields}
    (step : Step kind cfg s (.fill mf time) t) (pending : s.cache.extraMfFields r = some extra)
    (answered : t.cache.extraMfFields r = none) : ∃ i c, FillsOwnBlock cfg s t r extra i c := by
  have outstanding := Outstanding.run run
  have pinned := Pinned.run accepted onMiss run spares
  cases step with
  | fill done =>
      obtain ⟨r', extra', counted | completed⟩ := DataCache.fill_cases done
      · obtain ⟨pendingRead, rest⟩ := counted.rest
        dsimp only at answered
        rw [rest] at answered
        dsimp only at answered
        by_cases same : r = r'
        · subst same
          rw [Function.update_self] at answered
          contradiction
        · rw [Function.update_of_ne same, pending] at answered
          contradiction
      · obtain rfl : r = r' := by
          by_contra apart
          dsimp only at answered
          rw [completed.extraMfFields, Function.update_of_ne apart, pending] at answered
          contradiction
        have same := completed.pending
        rw [pending] at same
        cases same
        obtain ⟨i, c, index, cell, tag, reserved⟩ := pinned r extra pending
        obtain ⟨_, index', filled⟩ := @Pinned.filling cfg s ⟨_, _⟩ r extra time c outstanding completed onMiss cell
        rw [index] at index'
        cases index'
        refine ⟨i, c, index, cell, ?_, reserved, ?_, ?_⟩
        · rw [← CacheBlock.view_tag]
          exact tag
        · rw [← CacheBlock.view_tag]
          exact filled.tag.trans tag
        · intro j d apart
          by_cases line : j = i
          · subst line
            exact filled.sectors d fun h => apart (by rw [h])
          · rw [filled.lines j line]


/-- A small cache of one line, with room for a few requests. -/
def oneLine (writePolicy : WritePolicy) (writeAllocPolicy : WriteAllocatePolicy) : DataCacheConfig where
  cacheType := .normal
  nset := 1
  lineSize := 128
  assoc := 1
  replacementPolicy := .lru
  writePolicy := writePolicy
  allocPolicy := .onMiss
  isStreaming := false
  mshrType := .assoc
  mshrEntries := 4
  mshrMaxMerge := 4
  missQueueSize := 8
  dataPortWidth := 32
  setIndex _ := 0
  writeAllocPolicy := writeAllocPolicy
  wrAllocType := .l1WrAllocR
  wrbkType := .l1WrbkAcc

theorem oneLine_accepted (writePolicy : WritePolicy) (writeAllocPolicy : WriteAllocatePolicy) :
    (oneLine writePolicy writeAllocPolicy).Accepted where
  writeBack _ := rfl
  fetch _ := rfl
  streaming := by rintro ⟨⟩
  sector := by rintro ⟨⟩
  port := by simp [oneLine]

def requestTo (accessType : MemAccessType) (addr : Nat) : MemFetch where
  accessType := accessType
  addr := addr
  dataSize := 32
  subPartitionId := 0
  chip := 0
  sectorMask := 1

/-- Requests to be made of a cache, under their numbers. -/
def poolOf (requests : List MemFetch) : MfPool where
  get
    | .request serial => requests.getD serial default
    | .original _ => default
  nextSerial := requests.length

theorem fill_own_block_after_miss :
    ∃ history s t extra i c, (∀ move ∈ history, storesOnPending (oneLine .writeBack .lazyFetchOnRead) move = false) ∧
      Run .data (oneLine .writeBack .lazyFetchOnRead) (poolOf [requestTo .globalAccR 0]) history s ∧
      FillsOwnBlock (oneLine .writeBack .lazyFetchOnRead) s t (.request 0) extra i c := by
  have passed : testRun .data (oneLine .writeBack .lazyFetchOnRead) (poolOf [requestTo .globalAccR 0])
      [.access (.request 0) 0] (fun history s =>
        history.all (fun move => !storesOnPending (oneLine .writeBack .lazyFetchOnRead) move) &&
          (s.cache.extraMfFields (.request 0)).isSome &&
          succeedsWith (s.cache.fill (oneLine .writeBack .lazyFetchOnRead).toCacheConfig s.pool (.request 0) 1)
            fun filled => (filled.1.extraMfFields (.request 0)).isNone) = true := rfl
  obtain ⟨history, s, run, test⟩ := exists_run passed
  simp only [Bool.and_eq_true, List.all_eq_true, Bool.not_eq_true'] at test
  obtain ⟨⟨spares, sent⟩, filled⟩ := test
  obtain ⟨extra, pending⟩ := Option.isSome_iff_exists.mp sent
  obtain ⟨⟨cache, pool⟩, done, filled⟩ := exists_of_succeedsWith filled
  obtain ⟨i, c, own⟩ := fill_own_block (oneLine_accepted _ _) rfl run spares (.fill done) pending
    (Option.isNone_iff_eq_none.mp filled)
  exact ⟨history, s, _, extra, i, c, spares, run, own⟩

/-- A read, a write on top of it and a read of another block in a cache of one line: the answer
to the first read validates the other block. -/
theorem fill_other_block :
    ¬ ∀ (kind : CacheKind) (cfg : DataCacheConfig) (pool : MfPool) (history : List CacheMove) (s t : CacheSystem)
      (mf r : MfId) (time : Nat) (extra : ExtraMfFields), cfg.Accepted → cfg.allocPolicy = .onMiss →
      Run kind cfg pool history s → Step kind cfg s (.fill mf time) t → s.cache.extraMfFields r = some extra →
      t.cache.extraMfFields r = none → ∃ i c, FillsOwnBlock cfg s t r extra i c := by
  intro claim
  have passed : testRun .data (oneLine .writeBack .lazyFetchOnRead)
      (poolOf [requestTo .globalAccR 0, requestTo .globalAccW 0, requestTo .globalAccR 128])
      [.access (.request 0) 0, .access (.request 1) 1, .access (.request 2) 2] (fun _ s =>
        (s.cache.extraMfFields (.request 0)).any fun extra =>
          extra.cacheIndex == some 0 &&
            (s.cache.tagArray.lines 0).tag != (oneLine .writeBack .lazyFetchOnRead).tag extra.addr &&
            succeedsWith (s.cache.fill (oneLine .writeBack .lazyFetchOnRead).toCacheConfig s.pool (.request 0) 3)
              fun filled => (filled.1.extraMfFields (.request 0)).isNone) = true := rfl
  obtain ⟨history, s, run, test⟩ := exists_run passed
  obtain ⟨extra, pending, test⟩ := (Option.any_eq_true _ _).mp test
  simp only [Bool.and_eq_true, beq_iff_eq, bne_iff_ne] at test
  obtain ⟨⟨index, other⟩, filled⟩ := test
  obtain ⟨⟨cache, pool⟩, done, filled⟩ := exists_of_succeedsWith filled
  obtain ⟨i, c, own⟩ := claim .data _ _ history s ⟨cache, pool⟩ _ (.request 0) 3 extra (oneLine_accepted _ _) rfl run
    (.fill done) pending (Option.isNone_iff_eq_none.mp filled)
  have at_zero := own.cacheIndex
  rw [index] at at_zero
  cases at_zero
  exact other own.own_tag

end GpgpuSim.Cache
