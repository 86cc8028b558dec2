import GpgpuSim.Cache.Refusals
import GpgpuSim.Cache.Victims

/-! Sectors with their readable flags, and what the operations of a cache that fetches
lazily do to them. -/
namespace GpgpuSim.Cache
open GpgpuSim.Memory Transition

/-- What a block says of its sectors, with the flags that say which of them may be read. -/
structure Cells extends Sectors where
  readable : Nat → Bool

namespace Cells

/-- Some sector is there, so the line matches its tag. -/
def Held (cells : Cells) : Prop := ∃ c < sectorChunckSize, cells.status c ≠ .invalid

/-- A read of the sector hits. -/
def Readable (cells : Cells) (c : Nat) : Prop :=
  cells.status c = .valid ∨ cells.status c = .modified ∧ cells.readable c = true

def setStatus (c : Nat) (status : CacheBlockState) (cells : Cells) : Cells :=
  { cells with toSectors := cells.toSectors.setStatus c status }

def setOnFill (c : Nat) (modified : Bool) (cells : Cells) : Cells :=
  { cells with toSectors := cells.toSectors.setOnFill c modified }

def setReadable (c : Nat) (readable : Bool) (cells : Cells) : Cells :=
  { cells with readable := Function.update cells.readable c readable }

/-- A new block. An unsectored line keeps the flag of the block before. -/
def allocated (cfg : CacheConfig) (tag blockAddr c : Nat) (cells : Cells) : Cells where
  toSectors := .allocated tag blockAddr c
  readable :=
    match cfg.cacheType with
    | .normal => cells.readable
    | .sector => fun _ => true

def addSector (c : Nat) (cells : Cells) : Cells where
  toSectors := cells.toSectors.addSector c
  readable := Function.update cells.readable c true

def fill (c : Nat) (cells : Cells) : Cells := { cells with toSectors := cells.toSectors.fill c }

/-- The line of a request once the tag array has been accessed. -/
def readied (cfg : CacheConfig) (status : CacheRequestStatus) (addr c : Nat) (cells : Cells) : Cells :=
  match status with
  | .miss => cells.allocated cfg (cfg.tag addr) (cfg.blockAddr addr) c
  | .sectorMiss => cells.addSector c
  | _ => cells

variable {cells : Cells} {c d : Nat}

theorem Readable.held (readable : cells.Readable c) (small : c < sectorChunckSize) : cells.Held := by
  refine ⟨c, small, fun invalid => ?_⟩
  rcases readable with valid | ⟨modified, -⟩
  · rw [invalid] at valid
    contradiction
  · rw [invalid] at modified
    contradiction

end Cells

/-! ## Blocks -/

namespace CacheBlock

def readables : CacheBlock → Nat → Bool
  | line block => Function.update (fun _ => true) 0 block.readable
  | sector block => block.readable

def cells (block : CacheBlock) : Cells where
  toSectors := block.view
  readable := block.readables

variable {cfg : CacheConfig} {mask : BitVec 4} {c : Nat} {block next : CacheBlock}

theorem isInvalidLine_iff : block.isInvalidLine = true ↔ ¬block.cells.Held := by
  constructor
  · rintro invalid ⟨c, small, present⟩
    exact present (status_of_isInvalidLine invalid small)
  · intro free
    have invalid : ∀ c < sectorChunckSize, block.view.status c = .invalid := by
      intro c small
      by_contra present
      exact free ⟨c, small, present⟩
    cases block with
    | line block => exact beq_iff_eq.mpr (invalid 0 (Nat.zero_lt_succ _))
    | sector block =>
        simp only [isInvalidLine, List.all_eq_true, beq_iff_eq]
        exact fun c member => invalid c (List.mem_range.mp member)

/-- A line that matches its tag although the sector is invalid has other sectors. -/
theorem isValidLine_of_held (typed : block.Typed cfg) (cell : cfg.cell mask = .ok c) (held : block.cells.Held)
    (invalid : block.view.status c = .invalid) : block.isValidLine = true := by
  cases block with
  | line block =>
      simp only [CacheConfig.cell, show cfg.cacheType = .normal from typed] at cell
      cases cell
      have none : isInvalidLine (.line block) = true := beq_iff_eq.mpr invalid
      exact absurd held (isInvalidLine_iff.mp none)
  | sector block =>
      have some : ¬isInvalidLine (.sector block) = true := fun none => isInvalidLine_iff.mp none held
      simpa [isValidLine, isInvalidLine] using some

theorem isReadable_ok (typed : block.Typed cfg) (cell : cfg.cell mask = .ok c) :
    block.isReadable mask = .ok (block.readables c) := by
  cases block with
  | line block =>
      simp only [CacheConfig.cell, show cfg.cacheType = .normal from typed] at cell
      cases cell
      rfl
  | sector block =>
      simp only [CacheConfig.cell, show cfg.cacheType = .sector from typed] at cell
      simp [isReadable, readables, cell, Except.map]

/-- The operation, when it succeeds, does this to the sectors. -/
def Acts (cfg : CacheConfig) (op : CacheBlock → Except CacheFault CacheBlock) (f : Cells → Cells) :
    Prop :=
  ∀ block next : CacheBlock, block.Typed cfg → op block = .ok next → next.Typed cfg ∧
    next.cells = f block.cells

/-- The flags change apart from the rest. -/
theorem Acts.of_readables {op : CacheBlock → Except CacheFault CacheBlock} {f : Cells → Cells}
    (view : ∀ block : CacheBlock, block.Typed cfg →
      ∃ next, op block = .ok next ∧ next.Typed cfg ∧ next.view = (f block.cells).toSectors)
    (readables : ∀ block next : CacheBlock, block.Typed cfg → op block = .ok next →
      next.readables = (f block.cells).readable) : Acts cfg op f := by
  intro block next typed done
  obtain ⟨_, ok, is_typed, same⟩ := view block typed
  obtain rfl := Except.ok.inj (done.symm.trans ok)
  exact ⟨is_typed, congrArg₂ Cells.mk same (readables block _ typed done)⟩

variable (cell : cfg.cell mask = .ok c)
include cell

theorem setStatus_acts (status : CacheBlockState) :
    Acts cfg (fun block => block.setStatus status mask) (Cells.setStatus c status) := by
  refine .of_readables
    (fun block typed => block.setStatus_ok typed cell status) fun block next typed done => ?_
  cases block with
  | line block =>
      cases done
      rfl
  | sector block =>
      obtain ⟨_, -, done⟩ := bind_ok.mp done
      cases done
      rfl

theorem setModifiedOnFill_acts (modified : Bool) :
    Acts cfg (fun block => block.setModifiedOnFill modified mask) (Cells.setOnFill c modified) := by
  refine .of_readables (fun block typed => block.setModifiedOnFill_ok typed cell modified)
    fun block next typed done => ?_
  cases block with
  | line block =>
      cases done
      rfl
  | sector block =>
      obtain ⟨_, -, done⟩ := bind_ok.mp done
      cases done
      rfl

theorem setReadable_acts (readable : Bool) :
    Acts cfg (fun block => block.setReadable readable mask) (Cells.setReadable c readable) := by
  refine .of_readables
    (fun block typed => block.setReadable_ok typed cell readable) fun block next typed done => ?_
  cases block with
  | line block =>
      simp only [CacheConfig.cell, show cfg.cacheType = .normal from typed] at cell
      cases cell
      cases done
      exact (Function.update_idem (f := fun _ => true) ..).symm
  | sector block =>
      simp only [CacheConfig.cell, show cfg.cacheType = .sector from typed] at cell
      simp only [setReadable, cell, bind, Except.bind] at done
      cases done
      rfl

theorem setLastAccessTime_acts (time : Nat) : Acts cfg
    (fun block => block.setLastAccessTime time mask) id := by
  refine .of_readables
    (fun block typed => block.setLastAccessTime_ok typed cell time) fun block next typed done => ?_
  cases block with
  | line block =>
      cases done
      rfl
  | sector block =>
      obtain ⟨_, -, done⟩ := bind_ok.mp done
      cases done
      rfl

theorem allocate_acts (tag blockAddr time : Nat) :
    Acts cfg (fun block => block.allocate tag blockAddr time mask)
      (Cells.allocated cfg tag blockAddr c) := by
  refine .of_readables (fun block typed => block.allocate_ok typed cell tag blockAddr time)
    fun block next typed done => ?_
  cases block with
  | line block =>
      cases done
      simp only [Cells.allocated, show cfg.cacheType = .normal from typed]
      rfl
  | sector block =>
      obtain ⟨_, -, done⟩ := bind_ok.mp done
      cases done
      simp only [Cells.allocated, show cfg.cacheType = .sector from typed]
      rfl

theorem allocateSector_acts (time : Nat) :
    Acts cfg (fun block => block.allocateSector time mask) (Cells.addSector c) := by
  intro block next typed done
  obtain ⟨is_typed, view⟩ := allocateSector_ok cell typed done
  refine ⟨is_typed, congrArg₂ Cells.mk view ?_⟩
  cases block with
  | line block => cases done
  | sector block =>
      simp only [CacheConfig.cell, show cfg.cacheType = .sector from typed] at cell
      simp only [allocateSector, cell] at done
      split at done
      · cases done
      · cases done
        rfl

theorem fill_acts : Acts cfg (fun block => block.fill mask) (Cells.fill c) := by
  refine .of_readables (fun block typed => block.fill_ok typed cell) fun block next typed done => ?_
  cases block with
  | line block =>
      cases done
      rfl
  | sector block =>
      obtain ⟨_, -, done⟩ := bind_ok.mp done
      cases done
      rfl

end CacheBlock

/-! ## The array -/

namespace TagArray

variable {cfg : CacheConfig} {tags next : TagArray} {mask : BitVec 4} {addr tag time c : Nat} {mf : MemFetch}
  {index found : Option Nat} {status : CacheRequestStatus} {evicted : Option EvictedBlockInfo}

def cells (tags : TagArray) (i : Nat) : Cells := (tags.lines i).cells

theorem cells_setLine (i : Nat) (block : CacheBlock) :
    (tags.setLine i block).cells = Function.update tags.cells i block.cells := by
  funext j
  by_cases same : j = i
  · subst same
    simp [cells, setLine]
  · simp [cells, setLine, same]

/-- One block is changed. -/
theorem setLine_cells {op : CacheBlock → Except CacheFault CacheBlock} {f : Cells → Cells} {i : Nat}
    {block : CacheBlock}
    (acts : CacheBlock.Acts cfg op f) (typed : tags.Typed cfg) (done : op (tags.lines i) = .ok block) :
    (tags.setLine i block).Typed cfg ∧ (tags.setLine i block).cells = Function.update tags.cells i
        (f (tags.cells i)) := by
  obtain ⟨is_typed, same⟩ := acts _ _ (typed i) done
  refine ⟨typed.setLine is_typed, ?_⟩
  rw [cells_setLine, same]
  rfl

theorem modifyBlock_cells {op : CacheBlock → Except CacheFault CacheBlock} {f : Cells → Cells} {i : Nat}
    (acts : CacheBlock.Acts cfg op f) (typed : tags.Typed cfg) (done : tags.modifyBlock (some i) op = .ok next) :
    next.Typed cfg ∧ next.cells = Function.update tags.cells i (f (tags.cells i)) := by
  obtain ⟨block, made, done⟩ := bind_ok.mp done
  cases done
  exact setLine_cells acts typed made

/-- The line matches the tag. -/
structure Matches (tags : TagArray) (tag i : Nat) : Prop where
  at_tag : (tags.cells i).tag = tag
  held : (tags.cells i).Held

/-- What a probe says of a line that matches. -/
def outcome (cfg : CacheConfig) (cells : Cells) (c : Nat) : CacheRequestStatus :=
  match cells.status c with
  | .reserved => .hitReserved
  | .valid => .hit
  | .modified => if cells.readable c then .hit else cfg.presentMiss
  | .invalid => cfg.presentMiss

theorem outcome_hit (cfg : CacheConfig) (cells : Cells) (c : Nat) : outcome cfg cells c = .hit ↔
    cells.Readable c := by
  have other := (DataCache.presentMiss_ne cfg).1
  unfold outcome Cells.Readable
  cases cells.status c with
  | reserved => simp
  | valid => simp
  | modified => cases cells.readable c <;> simp [other]
  | invalid => simp [other]

/-- The first line that matches ends the scan. -/
theorem scanWays_first (typed : tags.Typed cfg) (cell : cfg.cell mask = .ok c) (ways : List Nat) :
    tags.Unmatched tag ways ∨ ∃ i ∈ ways, tags.Matches tag i ∧
      ∀ scan, tags.scanWays cfg tag mask ways scan = .ok (.inl (outcome cfg (tags.cells i) c, i)) := by
  induction ways with
  | nil => exact .inl (by simp [Unmatched])
  | cons i rest ih =>
      have is_status := CacheBlock.getStatus_ok (typed i) cell
      by_cases here : tags.Matches tag i
      · refine .inr ⟨i, List.mem_cons_self, here, fun scan => ?_⟩
        have at_tag : (tags.lines i).tag = tag := CacheBlock.view_tag.symm.trans here.at_tag
        rw [scanWays, if_pos at_tag, is_status]
        unfold outcome
        cases state : (tags.lines i).view.status c with
        | reserved => simp [cells, CacheBlock.cells, state, bind, Except.bind, pure, Except.pure]
        | valid => simp [cells, CacheBlock.cells, state, bind, Except.bind, pure, Except.pure]
        | modified =>
            have readable := CacheBlock.isReadable_ok (typed i) cell
            cases flag : (tags.lines i).readables c <;>
              simp [cells, CacheBlock.cells, state, readable, flag, bind, Except.bind, pure, Except.pure]
        | invalid =>
            have valid := CacheBlock.isValidLine_of_held (typed i) cell here.held state
            simp [cells, CacheBlock.cells, state, bind, Except.bind, valid, pure, Except.pure]
      · have apart : (tags.lines i).tag = tag → (tags.lines i).isInvalidLine = true := fun at_tag =>
          CacheBlock.isInvalidLine_iff.mpr fun held => here ⟨CacheBlock.view_tag.trans at_tag, held⟩
        rcases ih with none | ⟨j, member, matched, ends⟩
        · exact .inl fun j member => (List.mem_cons.mp member).elim (fun same => same ▸ apart) (none j)
        · refine .inr ⟨j, List.mem_cons_of_mem _ member, matched, fun scan => ?_⟩
          rw [scanWays]
          split
          next at_tag =>
            have invalid := apart at_tag
            rw [is_status, CacheBlock.status_of_isInvalidLine invalid (CacheConfig.cell_lt cell)]
            simp only [bind, Except.bind, CacheBlock.isValidLine_of_isInvalidLine invalid,
              Bool.false_eq_true, if_false]
            exact ends _
          next => exact ends _

/-- What a probe has found among the lines of its set. -/
inductive Located (cfg : CacheConfig) (tags : TagArray) (addr c : Nat) : CacheRequestStatus →
    Option Nat → Prop
  | matched {i : Nat} (member : i ∈ ways cfg (cfg.setIndex addr))
      (matched : tags.Matches (cfg.tag addr) i) :
      Located cfg tags addr c (outcome cfg (tags.cells i) c) (some i)
  | replaced {i : Nat} (member : i ∈ ways cfg (cfg.setIndex addr))
      (unmatched : tags.Unmatched (cfg.tag addr) (ways cfg (cfg.setIndex addr))) :
      Located cfg tags addr c .miss (some i)
  | full (unmatched : tags.Unmatched (cfg.tag addr) (ways cfg (cfg.setIndex addr))) :
      Located cfg tags addr c .reservationFail none

theorem probe_located (typed : tags.Typed cfg) (cell : cfg.cell mf.sectorMask = .ok c)
    (probed : tags.probe cfg addr mf false = .ok (status, found)) :
    cfg.setIndex addr < cfg.nset ∧ Located cfg tags addr c status found := by
  unfold probe at probed
  dsimp only at probed
  split at probed
  · simp only [bind_ok, throw_ok, false_and, exists_const] at probed
  next inside =>
    refine ⟨Nat.lt_of_not_le inside, ?_⟩
    obtain ⟨result, scanned, probed⟩ := bind_ok.mp probed
    rcases @scanWays_first cfg tags mf.sectorMask (cfg.tag addr) c typed cell
      (ways cfg (cfg.setIndex addr)) with
      unmatched | ⟨i, member, matched, ends⟩
    · obtain rfl := Except.ok.inj (scanned.symm.trans (scanWays_unmatched typed cell unmatched {}))
      have seen : Scanned cfg tags (ways cfg (cfg.setIndex addr)) _ :=
        Scanned.nil.seeAll (ways cfg (cfg.setIndex addr))
      dsimp only at probed
      split at probed
      · split at probed
        · cases probed
          exact .full unmatched
        · simp only [bind_ok, throw_ok, false_and, exists_const] at probed
      · split at probed
        · cases probed
        next i chosen =>
          simp only [Bool.false_and, Bool.false_eq_true, if_false] at probed
          cases probed
          refine .replaced ?_ unmatched
          rcases Option.or_eq_some_iff.mp
            (Option.orElse_eq_or.symm.trans chosen) with invalid | ⟨-, valid⟩
          · exact (seen.invalid i invalid).1
          · exact (seen.valid i valid).1
    · obtain rfl := Except.ok.inj (scanned.symm.trans (ends {}))
      cases probed
      exact .matched member matched

/-- A line that matches alone is what a probe finds. -/
theorem probe_matched {probeMode : Bool} {i : Nat} (typed : tags.Typed cfg) (cell : cfg.cell mf.sectorMask = .ok c)
    (inside : cfg.setIndex addr < cfg.nset) (member : i ∈ ways cfg (cfg.setIndex addr))
    (matched : tags.Matches (cfg.tag addr) i)
    (sole : ∀ j ∈ ways cfg (cfg.setIndex addr), tags.Matches (cfg.tag addr) j → j = i) :
    tags.probe cfg addr mf probeMode = .ok (outcome cfg (tags.cells i) c, some i) := by
  rcases @scanWays_first cfg tags mf.sectorMask (cfg.tag addr) c typed cell
    (ways cfg (cfg.setIndex addr)) with
    unmatched | ⟨j, member', matched', ends⟩
  · have invalid := unmatched i member (CacheBlock.view_tag.symm.trans matched.at_tag)
    exact absurd matched.held (CacheBlock.isInvalidLine_iff.mp invalid)
  · obtain rfl := sole j member' matched'
    have ran : scanWays cfg tags (cfg.tag addr) mf.sectorMask
        ((List.range cfg.assoc).map fun way => cfg.setIndex addr * cfg.assoc + way) {} = _ := ends {}
    unfold probe
    simp only [if_neg (Nat.not_le_of_lt inside), ran, bind, Except.bind]
    rfl

variable {line : Option Nat} {status' : CacheRequestStatus}

/-- An access that is not refused readies the line of the probe. -/
theorem access_cells (onMiss : cfg.allocPolicy = .onMiss) (typed : tags.Typed cfg)
    (cell : cfg.cell mf.sectorMask = .ok c) (probed : tags.probe cfg addr mf false = .ok (status, line))
    (room : status ≠ .reservationFail)
    (done : tags.access cfg addr time index mf = .ok (status', found, next, evicted)) :
    ∃ i, line = some i ∧ found = some i ∧ status' = status ∧ next.Typed cfg ∧
      next.cells = Function.update tags.cells i ((tags.cells i).readied cfg status addr c) := by
  obtain ⟨⟨status, line⟩, again, done⟩ := bind_ok.mp done
  obtain ⟨rfl, rfl⟩ := Prod.mk.inj (Except.ok.inj (again.symm.trans probed))
  have touch : ∀ {i block}, (tags.lines i).setLastAccessTime time mf.sectorMask = .ok block →
      (tags.setLine i block).Typed cfg ∧ (tags.setLine i block).cells = Function.update tags.cells i
        (tags.cells i) :=
    fun touched => setLine_cells (CacheBlock.setLastAccessTime_acts cell time) typed touched
  dsimp only at done
  split at done
  next i =>
    obtain ⟨block, touched, done⟩ := bind_ok.mp done
    cases done
    exact ⟨i, rfl, rfl, rfl, touch touched⟩
  next i =>
    obtain ⟨block, touched, done⟩ := bind_ok.mp done
    cases done
    exact ⟨i, rfl, rfl, rfl, touch touched⟩
  next i =>
    rw [if_pos onMiss] at done
    obtain ⟨block, made, done⟩ := bind_ok.mp done
    cases done
    exact ⟨i, rfl, rfl, rfl, setLine_cells (CacheBlock.allocate_acts cell _ _ time) typed made⟩
  next i =>
    rw [if_pos onMiss] at done
    obtain ⟨block, made, done⟩ := bind_ok.mp done
    cases done
    exact ⟨i, rfl, rfl, rfl, setLine_cells (CacheBlock.allocateSector_acts cell time) typed made⟩
  next => exact absurd rfl room
  next => cases done

theorem cells_addPendingLine : (tags.addPendingLine cfg mf).cells = tags.cells := by
  unfold addPendingLine
  dsimp only
  split <;> rfl

end TagArray

/-! ## Accesses -/

/-- Whether a write that hits takes its sector out. -/
def DataCacheConfig.evictsOnHit (cfg : DataCacheConfig) (request : MemFetch) : Bool :=
  cfg.writePolicy == .writeEvict || cfg.writePolicy == .localWbGlobalWt && request.accessType == .globalAccW

/-- What a lazy write does to its line. -/
def Cells.store (cfg : CacheConfig) (status : CacheRequestStatus) (request : MemFetch) (c : Nat)
    (cells : Cells) : Cells :=
  let stored := cells.setStatus c .modified
  let marked := if status = .hitReserved then stored.setOnFill c true else stored
  marked.setReadable c (DataCache.isFullWrite cfg request)

/-- The line of a request after an access that fetches lazily. -/
def Cells.after (cfg : DataCacheConfig) (status : CacheRequestStatus) (request : MemFetch) (c : Nat) (cells : Cells) :
    Cells :=
  let ready := cells.readied cfg.toCacheConfig status (cfg.blockAddr request.addr) c
  if request.isWrite then
    if status = .hit then cells.setStatus c (if cfg.evictsOnHit request then .invalid else .modified)
    else ready.store cfg.toCacheConfig status request c
  else if status = .hit ∧ request.isAtomic then cells.setStatus c .modified
  else ready

namespace DataCache

variable {cfg : DataCacheConfig} {cache : DataCache} {pool : MfPool} {mf : MfId} {time c i : Nat}
  {index line : Option Nat} {status : CacheRequestStatus} {result : AccessResult}

theorem writeLazily_acts {request : MemFetch} (cell : cfg.cell request.sectorMask = .ok c)
    (status : CacheRequestStatus) :
    CacheBlock.Acts cfg.toCacheConfig (writeLazily cfg.toCacheConfig status request)
      (Cells.store cfg.toCacheConfig status request c) := by
  intro block next typed done
  obtain ⟨first, stored, done⟩ := bind_ok.mp done
  obtain ⟨first_typed, first_cells⟩ := CacheBlock.setStatus_acts cell .modified block first typed stored
  dsimp only at done
  split at done
  next pending =>
    obtain ⟨second, marked, done⟩ := bind_ok.mp done
    obtain ⟨second_typed, second_cells⟩ :=
      CacheBlock.setModifiedOnFill_acts cell true first second first_typed marked
    obtain ⟨next_typed, next_cells⟩ := CacheBlock.setReadable_acts cell _ second next second_typed done
    refine ⟨next_typed, ?_⟩
    rw [next_cells, second_cells, first_cells]
    simp only [Cells.store, if_pos pending]
  next other =>
    obtain ⟨second, same, done⟩ := bind_ok.mp done
    obtain rfl := pure_ok.mp same
    obtain ⟨next_typed, next_cells⟩ := CacheBlock.setReadable_acts cell _ first next first_typed done
    refine ⟨next_typed, ?_⟩
    rw [next_cells, first_cells]
    simp only [Cells.store, if_neg other]

/-- An accepted access has changed the line of the probe. -/
def Changes (cfg : DataCacheConfig) (cache : DataCache) (request : MemFetch) (c : Nat) (status : CacheRequestStatus)
    (line : Option Nat) (result : AccessResult) : Prop :=
  ∃ i, line = some i ∧ result.cache.tagArray.cells =
    Function.update cache.tagArray.cells i ((cache.tagArray.cells i).after cfg status request c)

section Handlers

variable (onMiss : cfg.allocPolicy = .onMiss) (typed : cache.tagArray.Typed cfg.toCacheConfig)
  (cell : cfg.cell (pool.get mf).sectorMask = .ok c)
  (probed : cache.tagArray.probe cfg.toCacheConfig (cfg.blockAddr (pool.get mf).addr) (pool.get mf) false =
    .ok (status, line))
  (accepted : result.status ≠ .reservationFail)
include onMiss typed cell probed

theorem sendReadRequest_cells {sent : SentRead} (room : status ≠ .reservationFail)
    (done : cache.sendReadRequest cfg.toCacheConfig pool
        (cfg.blockAddr (pool.get mf).addr) index mf time =
      .ok (some sent)) :
    ∃ i, line = some i ∧ sent.cache.tagArray.cells = Function.update cache.tagArray.cells i
      ((cache.tagArray.cells i).readied cfg.toCacheConfig status
        (cfg.blockAddr (pool.get mf).addr) c) := by
  simp only [sendReadRequest] at done
  split at done
  · obtain ⟨⟨_, _, tags, _⟩, accessed, done⟩ := bind_ok.mp done
    obtain ⟨_, -, done⟩ := bind_ok.mp done
    cases done
    obtain ⟨i, rfl, rfl, -, -, cells⟩ := TagArray.access_cells onMiss typed cell probed room accessed
    exact ⟨i, rfl, cells⟩
  split at done
  · obtain ⟨⟨_, _, tags, _⟩, accessed, done⟩ := bind_ok.mp done
    obtain ⟨_, -, done⟩ := bind_ok.mp done
    cases done
    obtain ⟨i, rfl, rfl, -, -, cells⟩ := TagArray.access_cells onMiss typed cell probed room accessed
    refine ⟨i, rfl, ?_⟩
    dsimp only
    split
    · rw [TagArray.cells_addPendingLine]
      exact cells
    · exact cells
  · split at done <;> cases done

include accepted

theorem rdMissBase_cells (no_hit : status ≠ .hit) (room : status ≠ .reservationFail)
    (read : (pool.get mf).isWrite = false) (done : cache.rdMissBase cfg.toCacheConfig pool
        (pool.get mf).addr index mf time cfg.wrbkType = .ok result) :
    Changes cfg cache (pool.get mf) c status line result := by
  simp only [rdMissBase] at done
  split at done
  · cases done
    exact absurd rfl accepted
  · obtain ⟨sent?, sending, done⟩ := bind_ok.mp done
    cases sent? with
    | none =>
        cases done
        exact absurd rfl accepted
    | some sent =>
        obtain ⟨i, is_line, cells⟩ := sendReadRequest_cells onMiss typed cell probed room sending
        have kept : result.cache.tagArray = sent.cache.tagArray := by
          dsimp only at done
          split at done
          · split at done <;> (cases done; rfl)
          · cases done
            rfl
        refine ⟨i, is_line, ?_⟩
        rw [kept, cells]
        simp [Cells.after, read, no_hit]

theorem wrMissWaLazyFetchOnRead_cells (no_hit : status ≠ .hit) (room : status ≠ .reservationFail)
    (write : (pool.get mf).isWrite = true)
    (done : cache.wrMissWaLazyFetchOnRead cfg pool (pool.get mf).addr index mf time = .ok result) :
    Changes cfg cache (pool.get mf) c status line result := by
  simp only [wrMissWaLazyFetchOnRead] at done
  split at done
  · cases done
    exact absurd rfl accepted
  · obtain ⟨⟨status', found, tags, evicted⟩, accessed, done⟩ := bind_ok.mp done
    obtain ⟨i, rfl, rfl, rfl, tags_typed, cells⟩ :=
      TagArray.access_cells onMiss typed cell probed room accessed
    dsimp only at done
    rw [if_neg no_hit] at done
    obtain ⟨stored, storing, done⟩ := bind_ok.mp done
    rw [if_pos room] at done
    obtain rfl := pure_ok.mp done
    have kept :=
      (@sendWriteBack_ok cfg evicted
        (pool.get mf) ⟨.miss, [], { cache with tagArray := stored }, pool⟩).tagArray
    obtain ⟨-, changed⟩ := TagArray.modifyBlock_cells (writeLazily_acts cell status') tags_typed storing
    refine ⟨i, rfl, ?_⟩
    rw [kept]
    dsimp only
    rw [changed, cells, Function.update_self, Function.update_idem]
    simp [Cells.after, write, no_hit]

end Handlers

section Hits

variable (onMiss : cfg.allocPolicy = .onMiss) (typed : cache.tagArray.Typed cfg.toCacheConfig)
  (cell : cfg.cell (pool.get mf).sectorMask = .ok c)
  (probed : cache.tagArray.probe cfg.toCacheConfig (cfg.blockAddr (pool.get mf).addr) (pool.get mf) false =
    .ok (.hit, line))
include onMiss typed cell probed

/-- An access that hits leaves the sectors as they are. -/
theorem hit_cells {found : Option Nat} {tags : TagArray} {status : CacheRequestStatus}
    {evicted : Option EvictedBlockInfo}
    (done : cache.tagArray.access cfg.toCacheConfig (cfg.blockAddr (pool.get mf).addr) time index
        (pool.get mf) =
      .ok (status, found, tags, evicted)) :
    ∃ i, line = some i ∧ found = some i ∧ tags.Typed cfg.toCacheConfig ∧
      tags.cells = cache.tagArray.cells := by
  obtain ⟨i, is_line, is_found, -, tags_typed, cells⟩ :=
    TagArray.access_cells onMiss typed cell probed (by decide) done
  refine ⟨i, is_line, is_found, tags_typed, ?_⟩
  rw [cells]
  exact Function.update_eq_self i _

/-- A write that hits marks its sector. -/
theorem modified_cells {found : Option Nat} {tags next : TagArray} {status : CacheRequestStatus}
    (write : (pool.get mf).isWrite = true) (keeps : cfg.evictsOnHit (pool.get mf) = false)
    (accessed : cache.tagArray.accessNoWriteBack cfg.toCacheConfig (cfg.blockAddr (pool.get mf).addr) time index
      (pool.get mf) = .ok (status, found, tags))
    (written : tags.modifyBlock found (fun block => block.setStatus .modified (pool.get mf).sectorMask) = .ok next) :
    ∃ i, line = some i ∧ next.cells =
      Function.update cache.tagArray.cells i ((cache.tagArray.cells i).after cfg .hit (pool.get mf) c) := by
  obtain ⟨⟨_, _, _, evicted⟩, accessed, same⟩ := bind_ok.mp accessed
  dsimp only at same
  split at same
  · simp only [bind_ok, throw_ok, false_and, exists_const] at same
  cases same
  obtain ⟨i, rfl, rfl, tags_typed, cells⟩ := hit_cells onMiss typed cell probed accessed
  obtain ⟨-, changed⟩ := TagArray.modifyBlock_cells (CacheBlock.setStatus_acts cell .modified) tags_typed written
  refine ⟨i, rfl, ?_⟩
  rw [changed, cells]
  simp [Cells.after, write, keeps]

theorem wrHitWb_cells (write : (pool.get mf).isWrite = true) (keeps : cfg.evictsOnHit (pool.get mf) = false)
    (done : cache.wrHitWb cfg pool (pool.get mf).addr index mf time = .ok result) :
    Changes cfg cache (pool.get mf) c .hit line result := by
  obtain ⟨⟨_, found, tags⟩, accessed, done⟩ := bind_ok.mp done
  obtain ⟨next, written, done⟩ := bind_ok.mp done
  cases done
  exact modified_cells onMiss typed cell probed write keeps accessed written

theorem wrHitWt_cells (accepted : result.status ≠ .reservationFail) (write : (pool.get mf).isWrite = true)
    (keeps : cfg.evictsOnHit (pool.get mf) = false)
    (done : cache.wrHitWt cfg pool (pool.get mf).addr index mf time = .ok result) :
    Changes cfg cache (pool.get mf) c .hit line result := by
  unfold wrHitWt at done
  split at done
  · cases done
    exact absurd rfl accepted
  · obtain ⟨⟨_, found, tags⟩, accessed, done⟩ := bind_ok.mp done
    obtain ⟨next, written, done⟩ := bind_ok.mp done
    cases done
    exact modified_cells onMiss typed cell probed write keeps accessed written

omit onMiss probed in
theorem wrHitWe_cells (accepted : result.status ≠ .reservationFail) (write : (pool.get mf).isWrite = true)
    (evicts : cfg.evictsOnHit (pool.get mf) = true) (done : cache.wrHitWe cfg pool line mf = .ok result) :
    Changes cfg cache (pool.get mf) c .hit line result := by
  unfold wrHitWe at done
  split at done
  · cases done
    exact absurd rfl accepted
  · obtain ⟨next, written, done⟩ := bind_ok.mp done
    cases done
    cases line with
    | none => cases written
    | some i =>
        obtain ⟨-, changed⟩ := TagArray.modifyBlock_cells
          (CacheBlock.setStatus_acts cell .invalid) typed written
        refine ⟨i, rfl, ?_⟩
        dsimp only [sendWriteRequest]
        rw [changed]
        simp [Cells.after, write, evicts]

theorem wrHit_cells (accepted : result.status ≠ .reservationFail) (write : (pool.get mf).isWrite = true)
    (done : cache.wrHit cfg pool (pool.get mf).addr line mf time = .ok result) :
    Changes cfg cache (pool.get mf) c .hit line result := by
  unfold wrHit at done
  split at done
  next => cases done
  next policy =>
    exact wrHitWb_cells onMiss typed cell probed write
      (by simp [DataCacheConfig.evictsOnHit, policy]) done
  next policy =>
    exact wrHitWt_cells onMiss typed cell probed accepted write
      (by simp [DataCacheConfig.evictsOnHit, policy]) done
  next policy =>
    exact wrHitWe_cells typed cell accepted write
      (by simp [DataCacheConfig.evictsOnHit, policy]) done
  next policy =>
    unfold wrHitGlobalWeLocalWb at done
    split at done
    next global =>
      exact wrHitWe_cells typed cell accepted write
        (by simp [DataCacheConfig.evictsOnHit, policy, global]) done
    next other =>
      exact wrHitWb_cells onMiss typed cell probed write
        (by simp [DataCacheConfig.evictsOnHit, policy, other]) done

theorem rdHitBase_cells (read : (pool.get mf).isWrite = false)
    (done : cache.rdHitBase cfg.toCacheConfig pool (pool.get mf).addr index mf time = .ok result) :
    Changes cfg cache (pool.get mf) c .hit line result := by
  obtain ⟨⟨_, found, tags, evicted⟩, accessed, done⟩ := bind_ok.mp done
  obtain ⟨i, rfl, rfl, tags_typed, cells⟩ := hit_cells onMiss typed cell probed accessed
  dsimp only at done
  split at done
  · simp only [bind_ok, throw_ok, false_and, exists_const] at done
  split at done
  next atomic =>
    split at done
    · simp only [bind_ok, throw_ok, false_and, exists_const] at done
    obtain ⟨block, written, done⟩ := bind_ok.mp done
    cases done
    obtain ⟨-, changed⟩ := TagArray.setLine_cells
      (CacheBlock.setStatus_acts cell .modified) tags_typed written
    refine ⟨i, rfl, ?_⟩
    dsimp only
    rw [changed, cells]
    simp [Cells.after, read, atomic]
  next plain =>
    cases done
    refine ⟨i, rfl, ?_⟩
    rw [cells]
    simp [Cells.after, Cells.readied, read, plain]

end Hits

/-- An access that is not refused has changed the line of the probe. -/
theorem access_changes (lazily : cfg.writeAllocPolicy = .lazyFetchOnRead) (onMiss : cfg.allocPolicy = .onMiss)
    (typed : cache.tagArray.Typed cfg.toCacheConfig) (cell : cfg.cell (pool.get mf).sectorMask = .ok c)
    (accepted : result.status ≠ .reservationFail)
    (done : ReadWrite.access cfg cache pool (pool.get mf).addr mf time = .ok result) :
    ∃ status line, cache.tagArray.probe cfg.toCacheConfig (cfg.blockAddr (pool.get mf).addr)
      (pool.get mf) false =
        .ok (status, line) ∧ status ≠ .reservationFail ∧ Changes cfg cache
          (pool.get mf) c status line result := by
  simp only [ReadWrite.access] at done
  split at done
  · simp only [bind_ok, throw_ok, false_and, exists_const] at done
  obtain ⟨⟨mode_status, line⟩, probing, done⟩ := bind_ok.mp done
  obtain ⟨inner, processed, done⟩ := bind_ok.mp done
  obtain rfl := pure_ok.mp done
  obtain ⟨plain, probed, kind⟩ := TagArray.probe_mode probing
  have same_hit : mode_status = .hit ↔ plain = .hit := by
    rcases kind with rfl | ⟨rfl, rfl, -⟩
    · rfl
    · simpa using (presentMiss_ne cfg.toCacheConfig).1
  have same_fail : mode_status = .reservationFail ↔ plain = .reservationFail := by
    rcases kind with rfl | ⟨rfl, rfl, -⟩
    · rfl
    · simpa using (presentMiss_ne cfg.toCacheConfig).2
  have changes : plain ≠ .reservationFail ∧ Changes cfg cache (pool.get mf) c plain line inner := by
    unfold ReadWrite.processTagProbe at processed
    split at processed
    next write =>
      split at processed
      next hit =>
        obtain rfl := same_hit.mp hit
        exact ⟨by decide, wrHit_cells onMiss typed cell probed accepted write processed⟩
      next no_hit =>
        split at processed
        next room =>
          have room := mt same_fail.mpr (room.resolve_right (by rw [lazily]; decide))
          simp only [wrMiss, lazily] at processed
          exact ⟨room, wrMissWaLazyFetchOnRead_cells onMiss typed cell probed accepted
            (mt same_hit.mpr no_hit) room
            write processed⟩
        next =>
          cases processed
          exact absurd rfl accepted
    next read =>
      rw [Bool.not_eq_true] at read
      split at processed
      next hit =>
        obtain rfl := same_hit.mp hit
        exact ⟨by decide, rdHitBase_cells onMiss typed cell probed read processed⟩
      next no_hit =>
        split at processed
        next room =>
          have room := mt same_fail.mpr room
          exact ⟨room, rdMissBase_cells onMiss typed cell probed accepted
            (mt same_hit.mpr no_hit) room read processed⟩
        next =>
          cases processed
          exact absurd rfl accepted
  exact ⟨plain, line, probed, changes⟩

end DataCache

end GpgpuSim.Cache
