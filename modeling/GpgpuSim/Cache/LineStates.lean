import GpgpuSim.Cache.WritePath

/-! Lines as sectors in a state. An unsectored line is one sector. The operations of
blocks and of the tag array are described by what they do to these states. -/
namespace GpgpuSim.Cache
open GpgpuSim.Memory Transition

/-- What a block says of its sectors. -/
@[ext] structure Sectors where
  tag : Nat
  blockAddr : Nat
  status : Nat → CacheBlockState
  onFill : Nat → Bool

namespace Sectors

def setStatus (c : Nat) (status : CacheBlockState) (sectors : Sectors) : Sectors :=
  { sectors with status := Function.update sectors.status c status }

/-- A new block with one reserved sector. -/
def allocated (tag blockAddr c : Nat) : Sectors where
  tag := tag
  blockAddr := blockAddr
  status := Function.update (fun _ => .invalid) c .reserved
  onFill := fun _ => false

/-- One more sector of the block is reserved. -/
def addSector (c : Nat) (sectors : Sectors) : Sectors :=
  { sectors with
    status := Function.update sectors.status c .reserved
    onFill := Function.update sectors.onFill c (sectors.status c == .modified) }

def fill (c : Nat) (sectors : Sectors) : Sectors :=
  sectors.setStatus c (if sectors.onFill c then .modified else .valid)

def setOnFill (c : Nat) (modified : Bool) (sectors : Sectors) : Sectors :=
  { sectors with onFill := Function.update sectors.onFill c modified }

/-- Dirty now, or when the data comes back. -/
def Dirty (sectors : Sectors) (c : Nat) : Prop :=
  sectors.status c = .modified ∨ sectors.status c = .reserved ∧ sectors.onFill c = true

def Reserved (sectors : Sectors) : Prop := ∃ c < sectorChunckSize, sectors.status c = .reserved

def Modified (sectors : Sectors) : Prop := ∃ c < sectorChunckSize, sectors.status c = .modified

end Sectors

/-- The sector that a mask names in a cache. -/
def CacheConfig.cell (cfg : CacheConfig) (mask : BitVec 4) : Except CacheFault Nat :=
  match cfg.cacheType with
  | .normal => .ok 0
  | .sector => getSectorIndex mask

theorem getSectorIndex_lt {mask : BitVec 4} {c : Nat} (ok : getSectorIndex mask = .ok c) : c < sectorChunckSize := by
  unfold getSectorIndex at ok
  split at ok
  next sector only =>
    cases ok
    have mem : c ∈ (List.range sectorChunckSize).filter fun i => mask.getLsbD i := by simp [only]
    exact List.mem_range.mp (List.mem_filter.mp mem).1
  next => cases ok

variable {cfg : CacheConfig} {mask : BitVec 4} {c : Nat}

theorem CacheConfig.cell_lt (ok : cfg.cell mask = .ok c) : c < sectorChunckSize := by
  unfold CacheConfig.cell at ok
  split at ok
  · cases ok
    exact Nat.zero_lt_succ _
  · exact getSectorIndex_lt ok

theorem getSectorIndex_oneHot {j : Nat} (inside : j < sectorChunckSize) : getSectorIndex (1#4 <<< j) = .ok j := by
  have small : j < 4 := inside
  obtain rfl | rfl | rfl | rfl : j = 0 ∨ j = 1 ∨ j = 2 ∨ j = 3 := by omega
  all_goals rfl

theorem CacheConfig.cell_oneHot (cfg : CacheConfig) {j : Nat} (inside : j < sectorChunckSize) :
    ∃ c, cfg.cell (1#4 <<< j) = .ok c := by
  unfold CacheConfig.cell
  cases cfg.cacheType with
  | normal => exact ⟨0, rfl⟩
  | sector => exact ⟨j, getSectorIndex_oneHot inside⟩

namespace CacheBlock

def view : CacheBlock → Sectors
  | line block =>
      { tag := block.tag
        blockAddr := block.blockAddr
        status := Function.update (fun _ => .invalid) 0 block.status
        onFill := Function.update (fun _ => false) 0 block.setModifiedOnFill }
  | sector block =>
      { tag := block.tag
        blockAddr := block.blockAddr
        status := block.status
        onFill := block.setModifiedOnFill }

/-- The block is of the kind that the cache is made of. -/
def Typed (cfg : CacheConfig) : CacheBlock → Prop
  | line _ => cfg.cacheType = .normal
  | sector _ => cfg.cacheType = .sector

theorem Typed.create (cfg : CacheConfig) : (create cfg).Typed cfg := by
  unfold CacheBlock.create
  cases type : cfg.cacheType <;> exact type

variable {block next : CacheBlock}

theorem view_tag : block.view.tag = block.tag := by cases block <;> rfl

theorem view_blockAddr : block.view.blockAddr = block.blockAddr := by cases block <;> rfl

theorem isReservedLine_iff : block.isReservedLine ↔ block.view.Reserved := by
  cases block with
  | line block =>
      simp only [isReservedLine, Sectors.Reserved, view, beq_iff_eq]
      constructor
      · exact fun reserved => ⟨0, Nat.zero_lt_succ _, reserved⟩
      · rintro ⟨i, -, reserved⟩
        by_cases zero : i = 0
        · subst zero
          exact reserved
        · simp [zero] at reserved
  | sector block => simp [isReservedLine, Sectors.Reserved, view, sectors, List.mem_range]

theorem isModifiedLine_iff : block.isModifiedLine ↔ block.view.Modified := by
  cases block with
  | line block =>
      simp only [isModifiedLine, Sectors.Modified, view, beq_iff_eq]
      constructor
      · exact fun modified => ⟨0, Nat.zero_lt_succ _, modified⟩
      · rintro ⟨i, -, modified⟩
        by_cases zero : i = 0
        · subst zero
          exact modified
        · simp [zero] at modified
  | sector block => simp [isModifiedLine, Sectors.Modified, view, sectors, List.mem_range]

variable (typed : block.Typed cfg) (cell : cfg.cell mask = .ok c)
include typed cell

theorem getStatus_ok : block.getStatus mask = .ok (block.view.status c) := by
  cases block with
  | line block =>
      simp only [CacheConfig.cell, show cfg.cacheType = .normal from typed] at cell
      cases cell
      rfl
  | sector block =>
      simp only [CacheConfig.cell, show cfg.cacheType = .sector from typed] at cell
      simp [getStatus, view, cell, Except.map]

theorem setStatus_ok (status : CacheBlockState) :
    ∃ next, block.setStatus status mask = .ok next ∧ next.Typed cfg ∧ next.view = block.view.setStatus c status := by
  cases block with
  | line block =>
      simp only [CacheConfig.cell, show cfg.cacheType = .normal from typed] at cell
      cases cell
      exact ⟨_, rfl, typed, by simp [view, Sectors.setStatus]⟩
  | sector block =>
      simp only [CacheConfig.cell, show cfg.cacheType = .sector from typed] at cell
      exact ⟨_, bind_ok.mpr ⟨c, cell, rfl⟩, typed, rfl⟩

theorem setModifiedOnFill_ok (modified : Bool) :
    ∃ next, block.setModifiedOnFill modified mask = .ok next ∧ next.Typed cfg ∧
      next.view = block.view.setOnFill c modified := by
  cases block with
  | line block =>
      simp only [CacheConfig.cell, show cfg.cacheType = .normal from typed] at cell
      cases cell
      exact ⟨_, rfl, typed, by simp [view, Sectors.setOnFill]⟩
  | sector block =>
      simp only [CacheConfig.cell, show cfg.cacheType = .sector from typed] at cell
      exact ⟨_, bind_ok.mpr ⟨c, cell, rfl⟩, typed, rfl⟩

theorem setReadable_ok (readable : Bool) :
    ∃ next, block.setReadable readable mask = .ok next ∧ next.Typed cfg ∧ next.view = block.view := by
  cases block with
  | line block => exact ⟨_, rfl, typed, rfl⟩
  | sector block =>
      simp only [CacheConfig.cell, show cfg.cacheType = .sector from typed] at cell
      exact ⟨_, bind_ok.mpr ⟨c, cell, rfl⟩, typed, rfl⟩

theorem setLastAccessTime_ok (time : Nat) :
    ∃ next, block.setLastAccessTime time mask = .ok next ∧ next.Typed cfg ∧ next.view = block.view := by
  cases block with
  | line block => exact ⟨_, rfl, typed, rfl⟩
  | sector block =>
      simp only [CacheConfig.cell, show cfg.cacheType = .sector from typed] at cell
      exact ⟨_, bind_ok.mpr ⟨c, cell, rfl⟩, typed, rfl⟩

theorem allocate_ok (tag blockAddr time : Nat) :
    ∃ next, block.allocate tag blockAddr time mask = .ok next ∧ next.Typed cfg ∧
      next.view = .allocated tag blockAddr c := by
  cases block with
  | line block =>
      simp only [CacheConfig.cell, show cfg.cacheType = .normal from typed] at cell
      cases cell
      exact ⟨_, rfl, typed, by simp [view, Sectors.allocated]⟩
  | sector block =>
      simp only [CacheConfig.cell, show cfg.cacheType = .sector from typed] at cell
      exact ⟨_, bind_ok.mpr ⟨c, cell, rfl⟩, typed, rfl⟩

omit typed in
theorem allocateSector_ok {time : Nat} (typed : block.Typed cfg) (made : block.allocateSector time mask = .ok next) :
    next.Typed cfg ∧ next.view = block.view.addSector c := by
  cases block with
  | line block => cases made
  | sector block =>
      simp only [CacheConfig.cell, show cfg.cacheType = .sector from typed] at cell
      simp only [allocateSector, cell] at made
      split at made
      · cases made
      · cases made
        exact ⟨typed, rfl⟩

theorem fill_ok : ∃ next, block.fill mask = .ok next ∧ next.Typed cfg ∧ next.view = block.view.fill c := by
  cases block with
  | line block =>
      simp only [CacheConfig.cell, show cfg.cacheType = .normal from typed] at cell
      cases cell
      exact ⟨_, rfl, typed, by simp [view, Sectors.fill, Sectors.setStatus]⟩
  | sector block =>
      simp only [CacheConfig.cell, show cfg.cacheType = .sector from typed] at cell
      exact ⟨_, bind_ok.mpr ⟨c, cell, rfl⟩, typed, rfl⟩

end CacheBlock

namespace TagArray

variable {tags next : TagArray} {addr time : Nat} {index found : Option Nat} {mf : MemFetch}
  {status : CacheRequestStatus} {evicted : Option EvictedBlockInfo}

def view (tags : TagArray) (i : Nat) : Sectors := (tags.lines i).view

/-- All blocks are of the kind of the cache. -/
def Typed (cfg : CacheConfig) (tags : TagArray) : Prop := ∀ i, (tags.lines i).Typed cfg

theorem Typed.create (cfg : CacheConfig) : (create cfg).Typed cfg := fun _ => CacheBlock.Typed.create cfg

theorem Typed.setLine (typed : tags.Typed cfg) {i : Nat} {block : CacheBlock} (is_typed : block.Typed cfg) :
    (tags.setLine i block).Typed cfg := by
  intro j
  by_cases same : j = i
  · subst same
    simpa [TagArray.setLine] using is_typed
  · simpa [TagArray.setLine, same] using typed j

theorem view_setLine (i : Nat) (block : CacheBlock) :
    (tags.setLine i block).view = Function.update tags.view i block.view := by
  funext j
  by_cases same : j = i
  · subst same
    simp [view, setLine]
  · simp [view, setLine, same]

/-- What a probe has found out about the line it names. -/
inductive Probed (cfg : CacheConfig) (lines : Nat → Sectors) (tag c : Nat) : CacheRequestStatus → Option Nat → Prop
  | hitReserved (i : Nat) (at_tag : (lines i).tag = tag) (reserved : (lines i).status c = .reserved) :
      Probed cfg lines tag c .hitReserved (some i)
  | hit (i : Nat) (at_tag : (lines i).tag = tag)
      (present : (lines i).status c = .valid ∨ (lines i).status c = .modified) :
      Probed cfg lines tag c .hit (some i)
  | sectorMiss (i : Nat) (at_tag : (lines i).tag = tag)
      (absent : (lines i).status c = .invalid ∨ (lines i).status c = .modified) :
      Probed cfg lines tag c .sectorMiss (some i)
  | miss (i : Nat) (free : ¬ (lines i).Reserved) : Probed cfg lines tag c .miss (some i)
  | reservationFail : Probed cfg lines tag c .reservationFail none

/-- The replacement candidates are not reserved. -/
def ScanFree (tags : TagArray) (scan : ProbeScan) : Prop :=
  (∀ i, scan.invalidLine = some i → ¬ (tags.view i).Reserved) ∧
    ∀ i, scan.validLine = some i → ¬ (tags.view i).Reserved

theorem ScanFree.see {scan : ProbeScan} (free : ScanFree tags scan) (i : Nat) :
    ScanFree tags (scan.see cfg i (tags.lines i)) := by
  unfold ProbeScan.see
  split
  next => exact free
  next unreserved =>
    have here : ¬ (tags.view i).Reserved := fun reserved => unreserved (CacheBlock.isReservedLine_iff.mpr reserved)
    split
    next =>
      refine ⟨?_, free.2⟩
      rintro j ⟨⟩
      exact here
    next =>
      have candidate : ∀ timestamp, ScanFree tags
          (if timestamp < scan.validTimestamp then
            { scan with allReserved := false, validTimestamp := timestamp, validLine := some i }
          else { scan with allReserved := false }) := by
        intro timestamp
        split
        · refine ⟨free.1, ?_⟩
          rintro j ⟨⟩
          exact here
        · exact free
      exact candidate _

/-- An unsectored line is reserved when its one sector is. -/
theorem free_of_normal {i : Nat} (typed : tags.Typed cfg) (cell : cfg.cell mask = .ok c)
    (normal : cfg.cacheType = .normal)
    (unreserved : (tags.view i).status c ≠ .reserved) : ¬ (tags.view i).Reserved := by
  rw [CacheConfig.cell, normal] at cell
  cases cell
  rw [view, ← CacheBlock.isReservedLine_iff]
  have is_typed := typed i
  unfold view at unreserved
  cases block : tags.lines i with
  | line line =>
      rw [block] at unreserved
      simpa [CacheBlock.isReservedLine, CacheBlock.view] using unreserved
  | sector line =>
      rw [block] at is_typed
      rw [show cfg.cacheType = .sector from is_typed] at normal
      contradiction

theorem probed_present {i tag : Nat} (typed : tags.Typed cfg) (cell : cfg.cell mask = .ok c)
    (at_tag : (tags.lines i).tag = tag)
    (absent : (tags.view i).status c = .invalid ∨ (tags.view i).status c = .modified) :
    Probed cfg tags.view tag c cfg.presentMiss (some i) := by
  unfold CacheConfig.presentMiss
  cases type : cfg.cacheType with
  | sector => exact .sectorMiss i (CacheBlock.view_tag.trans at_tag) absent
  | normal =>
      refine .miss i (free_of_normal typed cell type fun reserved => ?_)
      rcases absent with invalid | modified
      · rw [reserved] at invalid
        contradiction
      · rw [reserved] at modified
        contradiction

def ScanSound (cfg : CacheConfig) (tags : TagArray) (tag c : Nat) : (CacheRequestStatus × Nat) ⊕ ProbeScan → Prop
  | .inl (status, i) => Probed cfg tags.view tag c status (some i)
  | .inr scan => ScanFree tags scan

/-- What ends the scan is found at its line. -/
theorem scanWays_ok {tag : Nat} {ways : List Nat} {scan : ProbeScan}
    {result : (CacheRequestStatus × Nat) ⊕ ProbeScan} (typed : tags.Typed cfg) (cell : cfg.cell mask = .ok c)
    (free : ScanFree tags scan) (ran : tags.scanWays cfg tag mask ways scan = .ok result) :
    ScanSound cfg tags tag c result := by
  induction ways generalizing scan with
  | nil =>
      cases ran
      exact free
  | cons i rest ih =>
      rw [scanWays] at ran
      have is_status := (tags.lines i).getStatus_ok (typed i) cell
      by_cases at_tag : (tags.lines i).tag = tag
      · rw [if_pos at_tag, is_status] at ran
        have at_tag' : (tags.view i).tag = tag := CacheBlock.view_tag.trans at_tag
        cases state : (tags.lines i).view.status c with
        | reserved =>
            simp only [state, bind, Except.bind] at ran
            cases ran
            exact .hitReserved i at_tag' state
        | valid =>
            simp only [state, bind, Except.bind] at ran
            cases ran
            exact .hit i at_tag' (.inl state)
        | modified =>
            obtain ⟨found, is_found, ran⟩ := bind_ok.mp ran
            cases is_found
            simp only [state] at ran
            obtain ⟨readable, -, ran⟩ := bind_ok.mp ran
            split at ran
            · cases ran
              exact .hit i at_tag' (.inr state)
            · cases ran
              exact probed_present typed cell at_tag (.inr state)
        | invalid =>
            simp only [state, bind, Except.bind] at ran
            split at ran
            · cases ran
              exact probed_present typed cell at_tag (.inl state)
            · exact ih (free.see i) ran
      · rw [if_neg at_tag] at ran
        exact ih (free.see i) ran

theorem probe_ok {probeMode : Bool} (typed : tags.Typed cfg) (cell : cfg.cell mf.sectorMask = .ok c)
    (probed : tags.probe cfg addr mf probeMode = .ok (status, found)) :
    ∃ scanned, Probed cfg tags.view (cfg.tag addr) c scanned found ∧
      (scanned = status ∨
        scanned = .miss ∧ status = cfg.presentMiss ∧ probeMode = true ∧ cfg.isStreaming = true ∧
          mf.isWrite = false) := by
  unfold probe at probed
  dsimp only at probed
  split at probed
  · simp only [bind_ok, throw_ok, false_and, exists_const] at probed
  · obtain ⟨result, scanned, probed⟩ := bind_ok.mp probed
    have sound := scanWays_ok typed cell ⟨by simp, by simp⟩ scanned
    cases result with
    | inl hit =>
        cases probed
        exact ⟨_, sound, .inl rfl⟩
    | inr scan =>
        have free : ∀ i, (scan.invalidLine <|> scan.validLine) = some i → ¬ (tags.view i).Reserved := by
          intro i chosen
          cases invalid : scan.invalidLine with
          | some j =>
              rw [invalid] at chosen
              cases chosen
              exact sound.1 _ invalid
          | none =>
              rw [invalid] at chosen
              exact sound.2 i chosen
        dsimp only at probed
        split at probed
        · split at probed
          · cases probed
            exact ⟨_, .reservationFail, .inl rfl⟩
          · simp only [bind_ok, throw_ok, false_and, exists_const] at probed
        · split at probed
          · cases probed
          next i chosen =>
            have miss : Probed cfg tags.view (cfg.tag addr) c .miss (some i) := .miss i (free i chosen)
            split at probed
            next streaming =>
              simp only [Bool.and_eq_true, Bool.not_eq_true'] at streaming
              split at probed
              · cases probed
                refine ⟨_, miss, ?_⟩
                split
                · exact .inr ⟨rfl, rfl, streaming.1.1, streaming.1.2, streaming.2⟩
                · exact .inl rfl
              · cases probed
                exact ⟨_, miss, .inl rfl⟩
            next =>
              cases probed
              exact ⟨_, miss, .inl rfl⟩

/-- The block that an allocation in line `i` evicts, if it has to be written back. -/
def evictedFrom (tags : TagArray) (i : Nat) : Option EvictedBlockInfo :=
  if (tags.lines i).isModifiedLine then some ⟨(tags.lines i).blockAddr, (tags.lines i).getModifiedSize⟩ else none

/-- What an access does to the lines, and the block it evicts. -/
inductive Touched (cfg : CacheConfig) (tags : TagArray) (addr c : Nat) :
    CacheRequestStatus → Option Nat → (Nat → Sectors) → Option EvictedBlockInfo → Prop
  | present {status : CacheRequestStatus} {i : Nat} (probed : Probed cfg tags.view (cfg.tag addr) c status (some i))
      (is_hit : status = .hit ∨ status = .hitReserved) : Touched cfg tags addr c status (some i) tags.view none
  | allocated {i : Nat} (onMiss : cfg.allocPolicy = .onMiss) (free : ¬ (tags.view i).Reserved) :
      Touched cfg tags addr c .miss (some i)
        (Function.update tags.view i (.allocated (cfg.tag addr) (cfg.blockAddr addr) c)) (tags.evictedFrom i)
  | sectorAdded {i : Nat} (onMiss : cfg.allocPolicy = .onMiss) (at_tag : (tags.view i).tag = cfg.tag addr)
      (absent : (tags.view i).status c = .invalid ∨ (tags.view i).status c = .modified) :
      Touched cfg tags addr c .sectorMiss (some i) (Function.update tags.view i ((tags.view i).addSector c)) none
  | unallocated {status : CacheRequestStatus} {i : Nat} (onFill : cfg.allocPolicy = .onFill)
      (is_miss : status = .miss ∨ status = .sectorMiss) :
      Touched cfg tags addr c status (some i) tags.view none
  | refused {found : Option Nat} : Touched cfg tags addr c .reservationFail found tags.view none

theorem Touched.exists_line {lines : Nat → Sectors} (touched : Touched cfg tags addr c status found lines evicted)
    (accepted : status ≠ .reservationFail) : ∃ i, found = some i := by
  cases touched with
  | @present _ i => exact ⟨i, rfl⟩
  | @allocated i => exact ⟨i, rfl⟩
  | @sectorAdded i => exact ⟨i, rfl⟩
  | @unallocated _ i => exact ⟨i, rfl⟩
  | refused => exact absurd rfl accepted

theorem access_ok (typed : tags.Typed cfg) (cell : cfg.cell mf.sectorMask = .ok c)
    (done : tags.access cfg addr time index mf = .ok (status, found, next, evicted)) :
    next.Typed cfg ∧ Touched cfg tags addr c status found next.view evicted := by
  obtain ⟨⟨probed_status, at_line⟩, probed, done⟩ := bind_ok.mp done
  obtain ⟨scanned, sound, same | ⟨-, -, not_mode, -⟩⟩ := probe_ok typed cell probed
  swap
  · cases not_mode
  subst same
  have touch : ∀ {i line}, (tags.lines i).setLastAccessTime time mf.sectorMask = .ok line →
      (tags.setLine i line).Typed cfg ∧ (tags.setLine i line).view = tags.view := by
    intro i line touched
    obtain ⟨_, ok, is_typed, same⟩ := (tags.lines i).setLastAccessTime_ok (typed i) cell time
    obtain rfl := Except.ok.inj (touched.symm.trans ok)
    refine ⟨typed.setLine is_typed, ?_⟩
    rw [view_setLine, same]
    exact Function.update_eq_self i tags.view
  cases sound with
  | hitReserved i at_tag reserved =>
      obtain ⟨line, touched, done⟩ := bind_ok.mp done
      cases done
      obtain ⟨is_typed, same⟩ := touch touched
      rw [same]
      exact ⟨is_typed, .present (.hitReserved i at_tag reserved) (.inr rfl)⟩
  | hit i at_tag present =>
      obtain ⟨line, touched, done⟩ := bind_ok.mp done
      cases done
      obtain ⟨is_typed, same⟩ := touch touched
      rw [same]
      exact ⟨is_typed, .present (.hit i at_tag present) (.inl rfl)⟩
  | sectorMiss i at_tag absent =>
      dsimp only at done
      split at done
      next onMiss =>
        obtain ⟨line, added, done⟩ := bind_ok.mp done
        cases done
        obtain ⟨is_typed, view⟩ := CacheBlock.allocateSector_ok cell (typed i) added
        rw [view_setLine, view]
        exact ⟨typed.setLine is_typed, .sectorAdded onMiss at_tag absent⟩
      next onFill =>
        cases done
        have policy : cfg.allocPolicy = .onFill := by
          cases policy : cfg.allocPolicy with
          | onMiss => exact absurd policy onFill
          | onFill => rfl
        exact ⟨typed, .unallocated policy (.inr rfl)⟩
  | miss i free =>
      dsimp only at done
      split at done
      next onMiss =>
        obtain ⟨line, made, done⟩ := bind_ok.mp done
        cases done
        obtain ⟨_, ok, is_typed, view⟩ :=
          (tags.lines i).allocate_ok (typed i) cell (cfg.tag addr) (cfg.blockAddr addr) time
        obtain rfl := Except.ok.inj (made.symm.trans ok)
        rw [view_setLine, view]
        exact ⟨typed.setLine is_typed, .allocated onMiss free⟩
      next onFill =>
        cases done
        have policy : cfg.allocPolicy = .onFill := by
          cases policy : cfg.allocPolicy with
          | onMiss => exact absurd policy onFill
          | onFill => rfl
        exact ⟨typed, .unallocated policy (.inl rfl)⟩
  | reservationFail =>
      cases done
      exact ⟨typed, .refused⟩

/-- A change of one block that is known by what it does to the sectors. -/
theorem modifyBlock_ok {change : CacheBlock → Except CacheFault CacheBlock} {f : Sectors → Sectors}
    (typed : tags.Typed cfg)
    (each : ∀ block : CacheBlock, block.Typed cfg → ∃ next, change block = .ok next ∧ next.Typed cfg ∧
      next.view = f block.view)
    (done : tags.modifyBlock index change = .ok next) :
    ∃ i, index = some i ∧ next.Typed cfg ∧ next.view = Function.update tags.view i (f (tags.view i)) := by
  cases index with
  | none => cases done
  | some i =>
      obtain ⟨block, made, done⟩ := bind_ok.mp done
      cases done
      obtain ⟨_, ok, is_typed, view⟩ := each (tags.lines i) (typed i)
      obtain rfl := Except.ok.inj (made.symm.trans ok)
      refine ⟨i, rfl, typed.setLine is_typed, ?_⟩
      rw [view_setLine, view]
      rfl

/-- The probe mode matters for the status of a miss only. -/
theorem probe_mode (probed : tags.probe cfg addr mf true = .ok (status, found)) :
    ∃ plain, tags.probe cfg addr mf false = .ok (plain, found) ∧
      (plain = status ∨ plain = .miss ∧ status = cfg.presentMiss ∧ cfg.isStreaming = true) := by
  unfold probe at probed ⊢
  dsimp only at probed ⊢
  split at probed
  · simp only [bind_ok, throw_ok, false_and, exists_const] at probed
  next inside =>
    rw [if_neg inside]
    obtain ⟨result, scanned, probed⟩ := bind_ok.mp probed
    simp only [scanned, bind, Except.bind]
    cases result with
    | inl hit =>
        cases probed
        exact ⟨_, rfl, .inl rfl⟩
    | inr scan =>
        dsimp only at probed ⊢
        split at probed
        next all_reserved =>
          rw [if_pos all_reserved]
          split at probed
          next onMiss =>
            rw [if_pos onMiss]
            cases probed
            exact ⟨_, rfl, .inl rfl⟩
          · simp only [bind_ok, throw_ok, false_and, exists_const] at probed
        next some_free =>
          rw [if_neg some_free]
          split at probed
          · cases probed
          next i chosen =>
            simp only [Bool.false_and, Bool.false_eq_true, if_false]
            split at probed
            next streaming =>
              simp only [Bool.and_eq_true] at streaming
              split at probed
              · cases probed
                refine ⟨_, rfl, ?_⟩
                split
                · exact .inr ⟨rfl, rfl, streaming.1.2⟩
                · exact .inl rfl
              · cases probed
                exact ⟨_, rfl, .inl rfl⟩
            next =>
              cases probed
              exact ⟨_, rfl, .inl rfl⟩

/-- An access probes its line once more. -/
theorem access_probe (done : tags.access cfg addr time index mf = .ok (status, found, next, evicted)) :
    ∃ line, tags.probe cfg addr mf false = .ok (status, line) ∧ (status ≠ .reservationFail → found = line) := by
  obtain ⟨⟨probed, line⟩, ok, done⟩ := bind_ok.mp done
  rw [ok]
  cases probed with
  | reservationFail =>
      cases line with
      | none =>
          cases done
          exact ⟨none, rfl, fun accepted => absurd rfl accepted⟩
      | some i =>
          cases done
          exact ⟨some i, rfl, fun accepted => absurd rfl accepted⟩
  | hit =>
      cases line with
      | none => cases done
      | some i =>
          obtain ⟨_, -, done⟩ := bind_ok.mp done
          cases done
          exact ⟨some i, rfl, fun _ => rfl⟩
  | hitReserved =>
      cases line with
      | none => cases done
      | some i =>
          obtain ⟨_, -, done⟩ := bind_ok.mp done
          cases done
          exact ⟨some i, rfl, fun _ => rfl⟩
  | miss =>
      cases line with
      | none => cases done
      | some i =>
          dsimp only at done
          split at done
          · obtain ⟨_, -, done⟩ := bind_ok.mp done
            cases done
            exact ⟨some i, rfl, fun _ => rfl⟩
          · cases done
            exact ⟨some i, rfl, fun _ => rfl⟩
  | sectorMiss =>
      cases line with
      | none => cases done
      | some i =>
          dsimp only at done
          split at done
          · obtain ⟨_, -, done⟩ := bind_ok.mp done
            cases done
            exact ⟨some i, rfl, fun _ => rfl⟩
          · cases done
            exact ⟨some i, rfl, fun _ => rfl⟩

theorem fillIndex_ok {i : Nat} (typed : tags.Typed cfg) (cell : cfg.cell mf.sectorMask = .ok c)
    (done : tags.fillIndex cfg i mf = .ok next) :
    next.Typed cfg ∧ next.view = Function.update tags.view i ((tags.view i).fill c) := by
  unfold fillIndex at done
  dsimp only at done
  split at done
  · simp only [bind_ok, throw_ok, false_and, exists_const] at done
  · obtain ⟨line, filled, done⟩ := bind_ok.mp done
    cases done
    obtain ⟨_, ok, is_typed, view⟩ := (tags.lines i).fill_ok (typed i) cell
    obtain rfl := Except.ok.inj (filled.symm.trans ok)
    refine ⟨typed.setLine is_typed, ?_⟩
    rw [view_setLine, view]
    rfl

/-- The sectors of a line once it is found or allocated for a fill by address. -/
def readied (cfg : CacheConfig) (status : CacheRequestStatus) (addr c : Nat) (sectors : Sectors) : Sectors :=
  match status with
  | .miss => .allocated (cfg.tag addr) (cfg.blockAddr addr) c
  | .sectorMiss => sectors.addSector c
  | _ => sectors

theorem fillAddr_ok (typed : tags.Typed cfg) (cell : cfg.cell mf.sectorMask = .ok c)
    (done : tags.fillAddr cfg addr time mf = .ok next) :
    ∃ i status, tags.probe cfg addr mf false = .ok (status, some i) ∧
      Probed cfg tags.view (cfg.tag addr) c status (some i) ∧ next.Typed cfg ∧
      next.view = Function.update tags.view i ((readied cfg status addr c (tags.view i)).fill c) := by
  obtain ⟨⟨status, found⟩, probed, done⟩ := bind_ok.mp done
  cases found with
  | none => cases done
  | some i =>
      obtain ⟨allocated, made, done⟩ := bind_ok.mp done
      obtain ⟨line, filled, done⟩ := bind_ok.mp done
      cases done
      obtain ⟨scanned, sound, rfl | ⟨-, -, not_mode, -⟩⟩ := probe_ok typed cell probed
      · have ready : allocated.Typed cfg ∧ allocated.view = readied cfg scanned addr c (tags.view i) := by
          cases scanned with
          | miss =>
              obtain ⟨_, ok, is_typed, view⟩ :=
                (tags.lines i).allocate_ok (typed i) cell (cfg.tag addr) (cfg.blockAddr addr) time
              obtain rfl := Except.ok.inj (made.symm.trans ok)
              exact ⟨is_typed, view⟩
          | sectorMiss => exact CacheBlock.allocateSector_ok cell (typed i) made
          | hit =>
              cases made
              exact ⟨typed i, rfl⟩
          | hitReserved =>
              cases made
              exact ⟨typed i, rfl⟩
          | reservationFail =>
              cases made
              exact ⟨typed i, rfl⟩
        obtain ⟨_, ok, is_typed, view⟩ := allocated.fill_ok ready.1 cell
        obtain rfl := Except.ok.inj (filled.symm.trans ok)
        refine ⟨i, scanned, probed, sound, typed.setLine is_typed, ?_⟩
        rw [view_setLine, view, ready.2]
      · cases not_mode

/-- A sector miss names a sectored line that has a sector. -/
theorem scanWays_sectorMiss {tag i : Nat} {ways : List Nat} {scan : ProbeScan} (typed : tags.Typed cfg)
    (cell : cfg.cell mask = .ok c) (ran : tags.scanWays cfg tag mask ways scan = .ok (.inl (.sectorMiss, i))) :
    cfg.cacheType = .sector ∧ (tags.lines i).isValidLine = true := by
  have sectored {j : Nat} (named : (cfg.presentMiss, j) = (CacheRequestStatus.sectorMiss, i)) :
      cfg.cacheType = .sector ∧ j = i := by
    obtain ⟨kind, rfl⟩ := Prod.mk.inj named
    refine ⟨?_, rfl⟩
    unfold CacheConfig.presentMiss at kind
    split at kind
    · assumption
    · cases kind
  induction ways generalizing scan with
  | nil => cases ran
  | cons j rest ih =>
      rw [scanWays] at ran
      by_cases at_tag : (tags.lines j).tag = tag
      · rw [if_pos at_tag, (tags.lines j).getStatus_ok (typed j) cell] at ran
        cases state : (tags.lines j).view.status c with
        | reserved => simp [state, bind, Except.bind, pure, Except.pure] at ran
        | valid => simp [state, bind, Except.bind, pure, Except.pure] at ran
        | modified =>
            obtain ⟨found, is_found, ran⟩ := bind_ok.mp ran
            cases is_found
            simp only [state] at ran
            obtain ⟨readable, -, ran⟩ := bind_ok.mp ran
            split at ran
            · cases ran
            · obtain ⟨sector, rfl⟩ := sectored (Sum.inl.inj (Except.ok.inj ran))
              refine ⟨sector, ?_⟩
              have is_typed := typed j
              cases block : tags.lines j with
              | line line =>
                  rw [block] at is_typed
                  rw [show cfg.cacheType = .normal from is_typed] at sector
                  cases sector
              | sector line =>
                  have small := CacheConfig.cell_lt cell
                  rw [block] at state
                  have present : line.status c ≠ .invalid := by
                    rw [show line.status c = .modified from state]
                    decide
                  simp only [CacheBlock.isValidLine, CacheBlock.sectors, Bool.not_eq_true', List.all_eq_false]
                  exact ⟨c, List.mem_range.mpr small, by simpa using present⟩
        | invalid =>
            simp only [state, bind, Except.bind] at ran
            split at ran
            next valid =>
              obtain ⟨sector, rfl⟩ := sectored (Sum.inl.inj (Except.ok.inj ran))
              exact ⟨sector, valid⟩
            next => exact ih ran
      · rw [if_neg at_tag] at ran
        exact ih ran

/-- A fill whose probe names a line succeeds. -/
theorem fillAddr_succeeds (time : Nat) {i : Nat} (typed : tags.Typed cfg) (cell : cfg.cell mf.sectorMask = .ok c)
    (probed : tags.probe cfg addr mf false = .ok (status, some i)) :
    ∃ next, tags.fillAddr cfg addr time mf = .ok next := by
  have ready : ∃ allocated, allocateMissing cfg status addr time mf (tags.lines i) = .ok allocated ∧
      allocated.Typed cfg := by
    cases status with
    | miss =>
        obtain ⟨allocated, made, is_typed, -⟩ :=
          (tags.lines i).allocate_ok (typed i) cell (cfg.tag addr) (cfg.blockAddr addr) time
        exact ⟨allocated, made, is_typed⟩
    | sectorMiss =>
        have valid : cfg.cacheType = .sector ∧ (tags.lines i).isValidLine = true := by
          unfold probe at probed
          dsimp only at probed
          split at probed
          · simp only [bind_ok, throw_ok, false_and, exists_const] at probed
          · obtain ⟨result, scanned, probed⟩ := bind_ok.mp probed
            cases result with
            | inl hit =>
                obtain ⟨status, j⟩ := hit
                cases probed
                exact scanWays_sectorMiss typed cell scanned
            | inr scan =>
                dsimp only at probed
                split at probed
                · split at probed
                  · cases probed
                  · simp only [bind_ok, throw_ok, false_and, exists_const] at probed
                · split at probed
                  · cases probed
                  · simp only [Bool.false_and, Bool.false_eq_true, if_false] at probed
                    cases probed
        have is_typed := typed i
        unfold allocateMissing
        cases block : tags.lines i with
        | line line =>
            rw [block] at is_typed
            rw [show cfg.cacheType = .normal from is_typed] at valid
            cases valid.1
        | sector line =>
            rw [block] at valid
            simp only [CacheConfig.cell, valid.1] at cell
            simp only [CacheBlock.allocateSector, valid.2, cell, bind, Except.bind, Bool.not_true, Bool.false_eq_true,
              if_false]
            exact ⟨_, rfl, valid.1⟩
    | hit | hitReserved | reservationFail => exact ⟨_, rfl, typed i⟩
  obtain ⟨allocated, made, is_typed⟩ := ready
  obtain ⟨line, filled, -⟩ := allocated.fill_ok is_typed cell
  exact ⟨_, bind_ok.mpr ⟨_, probed, bind_ok.mpr ⟨allocated, made, bind_ok.mpr ⟨line, filled, rfl⟩⟩⟩⟩

end TagArray

end GpgpuSim.Cache
