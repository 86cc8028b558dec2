import GpgpuSim.Memory.MemFetch
import GpgpuSim.Transition.Fallible

/-! Cache blocks and the tag array. Times are the `unsigned` values of the
callers; failed assertions and `abort` stop the model with a fault. -/
namespace GpgpuSim.Cache
open GpgpuSim.Memory Transition

inductive CacheFault
  | assertion
  | abort
  /-- The `assert(0)` behind the reasons for which a read can be refused. -/
  | deadBranch
  /-- A write reached the read-only use of the metadata cache. -/
  | writeAccess
  deriving DecidableEq, Repr

inductive CacheBlockState
  | invalid
  | reserved
  | valid
  | modified
  deriving DecidableEq, Repr

inductive CacheRequestStatus
  | hit
  | hitReserved
  | miss
  | reservationFail
  | sectorMiss
  deriving DecidableEq, Repr

inductive CacheType
  | normal
  | sector
  deriving DecidableEq, Repr

inductive ReplacementPolicy
  | lru
  | fifo
  deriving DecidableEq, Repr

inductive WritePolicy
  | readOnly
  | writeBack
  | writeThrough
  | writeEvict
  | localWbGlobalWt
  deriving DecidableEq, Repr

/-- `STREAMING` is stored as `ON_FILL` with the streaming flag. -/
inductive AllocPolicy
  | onMiss
  | onFill
  deriving DecidableEq, Repr

/-- The two kinds that the constructor of a cache accepts. -/
inductive MshrType
  | assoc
  | sectorAssoc
  deriving DecidableEq, Repr

structure CacheConfig where
  cacheType : CacheType
  nset : Nat
  lineSize : Nat
  assoc : Nat
  replacementPolicy : ReplacementPolicy
  writePolicy : WritePolicy
  allocPolicy : AllocPolicy
  isStreaming : Bool
  mshrType : MshrType
  mshrEntries : Nat
  mshrMaxMerge : Nat
  missQueueSize : Nat
  dataPortWidth : Nat
  setIndex : Nat → Nat

def sectorSize : Nat := 32

def sectorChunckSize : Nat := 4

namespace CacheConfig

def atomSize (cfg : CacheConfig) : Nat :=
  match cfg.cacheType with
  | .sector => sectorSize
  | .normal => cfg.lineSize

/-- `addr & ~(size - 1)` on 64-bit words. -/
def align (size addr : Nat) : Nat := addr &&& (2 ^ 64 - 1 - (size - 1))

def blockAddr (cfg : CacheConfig) (addr : Nat) : Nat := align cfg.lineSize addr

/-- The tag is the block address. -/
def tag (cfg : CacheConfig) (addr : Nat) : Nat := align cfg.lineSize addr

def mshrAddr (cfg : CacheConfig) (addr : Nat) : Nat := align cfg.atomSize addr

/-- The status of a miss on a line that is present. -/
def presentMiss (cfg : CacheConfig) : CacheRequestStatus :=
  match cfg.cacheType with
  | .sector => .sectorMiss
  | .normal => .miss

end CacheConfig

/-! ## Blocks -/

/-- `line_cache_block`. -/
structure LineCacheBlock where
  tag : Nat := 0
  blockAddr : Nat := 0
  allocTime : Nat := 0
  lastAccessTime : Nat := 0
  status : CacheBlockState := .invalid
  setModifiedOnFill : Bool := false
  readable : Bool := true

/-- `sector_cache_block`. -/
structure SectorCacheBlock where
  tag : Nat := 0
  blockAddr : Nat := 0
  lineAllocTime : Nat := 0
  lineLastAccessTime : Nat := 0
  status : Nat → CacheBlockState := fun _ => .invalid
  setModifiedOnFill : Nat → Bool := fun _ => false
  readable : Nat → Bool := fun _ => true

inductive CacheBlock
  | line (block : LineCacheBlock)
  | sector (block : SectorCacheBlock)

/-- The one sector a mask names. -/
def getSectorIndex (mask : BitVec 4) : Except CacheFault Nat :=
  match (List.range sectorChunckSize).filter fun i => mask.getLsbD i with
  | [sector] => .ok sector
  | _ => .error .assertion

namespace CacheBlock

def create (cfg : CacheConfig) : CacheBlock :=
  match cfg.cacheType with
  | .normal => .line {}
  | .sector => .sector {}

def tag : CacheBlock → Nat
  | line block => block.tag
  | sector block => block.tag

def blockAddr : CacheBlock → Nat
  | line block => block.blockAddr
  | sector block => block.blockAddr

def sectors : List Nat := List.range sectorChunckSize

def isInvalidLine : CacheBlock → Bool
  | line block => block.status == .invalid
  | sector block => sectors.all fun i => block.status i == .invalid

def isValidLine : CacheBlock → Bool
  | line block => block.status == .valid
  | sector block => !sectors.all fun i => block.status i == .invalid

def isReservedLine : CacheBlock → Bool
  | line block => block.status == .reserved
  | sector block => sectors.any fun i => block.status i == .reserved

def isModifiedLine : CacheBlock → Bool
  | line block => block.status == .modified
  | sector block => sectors.any fun i => block.status i == .modified

def getStatus (mask : BitVec 4) : CacheBlock → Except CacheFault CacheBlockState
  | line block => .ok block.status
  | sector block => (getSectorIndex mask).map block.status

def isReadable (mask : BitVec 4) : CacheBlock → Except CacheFault Bool
  | line block => .ok block.readable
  | sector block => (getSectorIndex mask).map block.readable

def setStatus (status : CacheBlockState) (mask : BitVec 4) : CacheBlock → Except CacheFault CacheBlock
  | line block => .ok (.line { block with status })
  | sector block => do
      let i ← getSectorIndex mask
      return .sector { block with status := Function.update block.status i status }

def setModifiedOnFill (modified : Bool) (mask : BitVec 4) : CacheBlock → Except CacheFault CacheBlock
  | line block => .ok (.line { block with setModifiedOnFill := modified })
  | sector block => do
      let i ← getSectorIndex mask
      return .sector { block with setModifiedOnFill := Function.update block.setModifiedOnFill i modified }

def setReadable (readable : Bool) (mask : BitVec 4) : CacheBlock → Except CacheFault CacheBlock
  | line block => .ok (.line { block with readable })
  | sector block => do
      let i ← getSectorIndex mask
      return .sector { block with readable := Function.update block.readable i readable }

def lastAccessTime : CacheBlock → Nat
  | line block => block.lastAccessTime
  | sector block => block.lineLastAccessTime

def allocTime : CacheBlock → Nat
  | line block => block.allocTime
  | sector block => block.lineAllocTime

def setLastAccessTime (time : Nat) (mask : BitVec 4) : CacheBlock → Except CacheFault CacheBlock
  | line block => .ok (.line { block with lastAccessTime := time })
  | sector block => do
      let _ ← getSectorIndex mask
      return .sector { block with lineLastAccessTime := time }

def getModifiedSize : CacheBlock → Nat
  | line _ => sectorChunckSize * sectorSize
  | sector block => (sectors.filter fun i => block.status i == .modified).length * sectorSize

def allocate (tag blockAddr time : Nat) (mask : BitVec 4) : CacheBlock → Except CacheFault CacheBlock
  | line block => .ok (.line { block with
      tag, blockAddr, allocTime := time, lastAccessTime := time, status := .reserved,
      setModifiedOnFill := false })
  | sector _ => do
      let i ← getSectorIndex mask
      return .sector { ({} : SectorCacheBlock) with
        tag, blockAddr, lineAllocTime := time, lineLastAccessTime := time,
        status := Function.update (fun _ => .invalid) i .reserved }

/-- The cast to `sector_cache_block` is only made in sectored caches. -/
def allocateSector (time : Nat) (mask : BitVec 4) : CacheBlock → Except CacheFault CacheBlock
  | line _ => .error .assertion
  | sector block => do
      if !(sector block).isValidLine then throw .assertion
      let i ← getSectorIndex mask
      return .sector { block with
        lineLastAccessTime := time
        setModifiedOnFill := Function.update block.setModifiedOnFill i (block.status i == .modified)
        status := Function.update block.status i .reserved
        readable := Function.update block.readable i true }

def fill (mask : BitVec 4) : CacheBlock → Except CacheFault CacheBlock
  | line block => .ok (.line { block with
      status := if block.setModifiedOnFill then .modified else .valid })
  | sector block => do
      let i ← getSectorIndex mask
      return .sector { block with
        status := Function.update block.status i
          (if block.setModifiedOnFill i then .modified else .valid) }

/-- No part of the block is dirty or will be once it is filled. -/
def Clean : CacheBlock → Prop
  | line block => block.status ≠ .modified ∧ block.setModifiedOnFill = false
  | sector block => ∀ i, block.status i ≠ .modified ∧ block.setModifiedOnFill i = false

theorem Clean.create (cfg : CacheConfig) : (create cfg).Clean := by
  unfold CacheBlock.create
  cases cfg.cacheType <;> simp [Clean]

theorem Clean.isModifiedLine {block : CacheBlock} (clean : block.Clean) :
    block.isModifiedLine = false := by
  cases block with
  | line block => simpa [CacheBlock.isModifiedLine] using clean.1
  | sector block =>
      simp only [CacheBlock.isModifiedLine, List.any_eq_false, beq_iff_eq]
      exact fun i _ => (clean i).1

theorem Clean.allocate {block next : CacheBlock} {tag addr time : Nat} {mask : BitVec 4}
    (made : block.allocate tag addr time mask = .ok next) : next.Clean := by
  cases block with
  | line block =>
      cases made
      simp [Clean]
  | sector block =>
      obtain ⟨i, -, made⟩ := bind_ok.mp made
      cases made
      intro j
      by_cases same : j = i <;> simp [same]

theorem Clean.allocateSector {block next : CacheBlock} {time : Nat} {mask : BitVec 4}
    (clean : block.Clean) (made : block.allocateSector time mask = .ok next) : next.Clean := by
  cases block with
  | line block => contradiction
  | sector block =>
      simp only [CacheBlock.allocateSector] at made
      split at made
      · simp only [bind_ok, throw_ok, false_and, exists_const] at made
      · obtain ⟨i, -, made⟩ := bind_ok.mp made
        cases made
        intro j
        by_cases same : j = i
        · simpa [same] using (clean i).1
        · simpa [same] using clean j

theorem Clean.fill {block next : CacheBlock} {mask : BitVec 4} (clean : block.Clean)
    (made : block.fill mask = .ok next) : next.Clean := by
  cases block with
  | line block =>
      cases made
      simp [Clean, clean.2]
  | sector block =>
      obtain ⟨i, -, made⟩ := bind_ok.mp made
      cases made
      intro j
      by_cases same : j = i
      · simp [same, (clean i).2]
      · simpa [same] using clean j

theorem Clean.setLastAccessTime {block next : CacheBlock} {time : Nat} {mask : BitVec 4}
    (clean : block.Clean) (made : block.setLastAccessTime time mask = .ok next) : next.Clean := by
  cases block with
  | line block =>
      cases made
      exact clean
  | sector block =>
      obtain ⟨i, -, made⟩ := bind_ok.mp made
      cases made
      exact clean

end CacheBlock

/-! ## The array -/

structure TagArray where
  lines : Nat → CacheBlock
  pendingLines : Nat → Option Nat

structure EvictedBlockInfo where
  blockAddr : Nat := 0
  modifiedSize : Nat := 0
  deriving DecidableEq, Repr

/-- The locals of the loop over the ways. -/
structure ProbeScan where
  invalidLine : Option Nat := none
  validLine : Option Nat := none
  validTimestamp : Nat := 2 ^ 32 - 1
  allReserved : Bool := true

/-- One way that is no hit: the replacement candidates are updated. -/
def ProbeScan.see (cfg : CacheConfig) (index : Nat) (line : CacheBlock) (scan : ProbeScan) : ProbeScan :=
  if line.isReservedLine then scan
  else if line.isInvalidLine then { scan with allReserved := false, invalidLine := some index }
  else
    let timestamp :=
      match cfg.replacementPolicy with
      | .lru => line.lastAccessTime
      | .fifo => line.allocTime
    if timestamp < scan.validTimestamp then
      { scan with allReserved := false, validTimestamp := timestamp, validLine := some index }
    else { scan with allReserved := false }

namespace TagArray

def create (cfg : CacheConfig) : TagArray := ⟨fun _ => .create cfg, fun _ => none⟩

/-- The loop over the ways: a hit or a miss on a present line ends it. -/
def scanWays (cfg : CacheConfig) (tags : TagArray) (tag : Nat) (mask : BitVec 4) :
    List Nat → ProbeScan → Except CacheFault ((CacheRequestStatus × Nat) ⊕ ProbeScan)
  | [], scan => .ok (.inr scan)
  | index :: rest, scan => do
      let line := tags.lines index
      if line.tag = tag then
        match ← line.getStatus mask with
        | .reserved => return .inl (.hitReserved, index)
        | .valid => return .inl (.hit, index)
        | .modified =>
            if ← line.isReadable mask then return .inl (.hit, index)
            else return .inl (cfg.presentMiss, index)
        | .invalid =>
            if line.isValidLine then return .inl (cfg.presentMiss, index)
            else scanWays cfg tags tag mask rest (scan.see cfg index line)
      else scanWays cfg tags tag mask rest (scan.see cfg index line)

/-- The status and the line index, which stays unset when every line is reserved. -/
def probe (cfg : CacheConfig) (tags : TagArray) (addr : Nat) (mf : MemFetch) (probeMode : Bool) :
    Except CacheFault (CacheRequestStatus × Option Nat) := do
  let set := cfg.setIndex addr
  if cfg.nset ≤ set then throw .assertion
  let ways := (List.range cfg.assoc).map fun way => set * cfg.assoc + way
  match ← scanWays cfg tags (cfg.tag addr) mf.sectorMask ways {} with
  | .inl (status, index) => return (status, some index)
  | .inr scan =>
      if scan.allReserved then
        if cfg.allocPolicy = .onMiss then return (.reservationFail, none) else throw .assertion
      match scan.invalidLine <|> scan.validLine with
      | none => throw .abort
      | some index =>
          -- a streaming cache asks another instruction's pending line again
          if probeMode && cfg.isStreaming && !mf.isWrite then
            match tags.pendingLines (cfg.blockAddr addr) with
            | some uid => return (if uid ≠ mf.instUid then cfg.presentMiss else .miss, some index)
            | none => return (.miss, some index)
          else return (.miss, some index)

def setLine (tags : TagArray) (index : Nat) (block : CacheBlock) : TagArray :=
  { tags with lines := Function.update tags.lines index block }

/-- The status, the line index and the block that has to be written back. -/
def access (cfg : CacheConfig) (tags : TagArray) (addr time : Nat) (index : Option Nat) (mf : MemFetch) :
    Except CacheFault (CacheRequestStatus × Option Nat × TagArray × Option EvictedBlockInfo) := do
  let (status, found) ← tags.probe cfg addr mf false
  match status, found with
  | .hitReserved, some i | .hit, some i =>
      let line ← (tags.lines i).setLastAccessTime time mf.sectorMask
      return (status, found, tags.setLine i line, none)
  | .miss, some i =>
      if cfg.allocPolicy = .onMiss then
        let line := tags.lines i
        let evicted :=
          if line.isModifiedLine then some ⟨line.blockAddr, line.getModifiedSize⟩ else none
        let next ← line.allocate (cfg.tag addr) (cfg.blockAddr addr) time mf.sectorMask
        return (.miss, found, tags.setLine i next, evicted)
      else return (.miss, found, tags, none)
  | .sectorMiss, some i =>
      if cfg.allocPolicy = .onMiss then
        let next ← (tags.lines i).allocateSector time mf.sectorMask
        return (.sectorMiss, found, tags.setLine i next, none)
      else return (.sectorMiss, found, tags, none)
  | .reservationFail, _ => return (.reservationFail, index, tags, none)
  | _, none => throw .abort

/-- `fill` of a reserved line by its index. -/
def fillIndex (cfg : CacheConfig) (tags : TagArray) (index : Nat) (mf : MemFetch) :
    Except CacheFault TagArray := do
  if cfg.allocPolicy ≠ .onMiss then throw .assertion
  let line ← (tags.lines index).fill mf.sectorMask
  return tags.setLine index line

/-- What `fill` by address does to a line that the probe did not find ready. -/
def allocateMissing (cfg : CacheConfig) (status : CacheRequestStatus) (addr time : Nat) (mf : MemFetch)
    (line : CacheBlock) : Except CacheFault CacheBlock :=
  match status with
  | .miss => line.allocate (cfg.tag addr) (cfg.blockAddr addr) time mf.sectorMask
  | .sectorMiss => line.allocateSector time mf.sectorMask
  | _ => .ok line

def fillAddr (cfg : CacheConfig) (tags : TagArray) (addr time : Nat) (mf : MemFetch) :
    Except CacheFault TagArray := do
  let (status, found) ← tags.probe cfg addr mf false
  match found with
  | none => throw .abort
  | some i =>
      let allocated ← allocateMissing cfg status addr time mf (tags.lines i)
      let filled ← allocated.fill mf.sectorMask
      return tags.setLine i filled

def addPendingLine (cfg : CacheConfig) (tags : TagArray) (mf : MemFetch) : TagArray :=
  let addr := cfg.blockAddr mf.addr
  match tags.pendingLines addr with
  | none => { tags with pendingLines := Function.update tags.pendingLines addr (some mf.instUid) }
  | some _ => tags

def removePendingLine (cfg : CacheConfig) (tags : TagArray) (mf : MemFetch) : TagArray :=
  { tags with pendingLines := Function.update tags.pendingLines (cfg.blockAddr mf.addr) none }

/-- No line is dirty. -/
def Clean (tags : TagArray) : Prop := ∀ i, (tags.lines i).Clean

theorem Clean.create (cfg : CacheConfig) : (create cfg).Clean := fun _ => CacheBlock.Clean.create cfg

theorem Clean.setLine {tags : TagArray} {index : Nat} {block : CacheBlock} (clean : tags.Clean)
    (block_clean : block.Clean) : (tags.setLine index block).Clean := by
  intro i
  by_cases same : i = index
  · subst same
    simpa [TagArray.setLine] using block_clean
  · simpa [TagArray.setLine, same] using clean i

/-- In a clean array an access evicts nothing that has to be written back. -/
theorem Clean.access {cfg : CacheConfig} {tags next : TagArray} {addr time : Nat}
    {index found : Option Nat} {mf : MemFetch} {status : CacheRequestStatus}
    {evicted : Option EvictedBlockInfo} (clean : tags.Clean)
    (made : tags.access cfg addr time index mf = .ok (status, found, next, evicted)) :
    next.Clean ∧ evicted = none := by
  obtain ⟨⟨probed, at_line⟩, -, made⟩ := bind_ok.mp made
  dsimp only at made
  split at made
  · obtain ⟨line, touched, made⟩ := bind_ok.mp made
    cases made
    exact ⟨clean.setLine ((clean _).setLastAccessTime touched), rfl⟩
  · obtain ⟨line, touched, made⟩ := bind_ok.mp made
    cases made
    exact ⟨clean.setLine ((clean _).setLastAccessTime touched), rfl⟩
  · split at made
    · obtain ⟨line, allocated, made⟩ := bind_ok.mp made
      cases made
      exact ⟨clean.setLine (.allocate allocated), by simp [(clean _).isModifiedLine]⟩
    · cases made
      exact ⟨clean, rfl⟩
  · split at made
    · obtain ⟨line, allocated, made⟩ := bind_ok.mp made
      cases made
      exact ⟨clean.setLine ((clean _).allocateSector allocated), rfl⟩
    · cases made
      exact ⟨clean, rfl⟩
  · cases made
    exact ⟨clean, rfl⟩
  · contradiction

theorem Clean.fillIndex {cfg : CacheConfig} {tags next : TagArray} {index : Nat} {mf : MemFetch}
    (clean : tags.Clean) (made : tags.fillIndex cfg index mf = .ok next) : next.Clean := by
  simp only [TagArray.fillIndex] at made
  split at made
  · simp only [bind_ok, throw_ok, false_and, exists_const] at made
  · obtain ⟨line, filled, made⟩ := bind_ok.mp made
    cases made
    exact clean.setLine ((clean _).fill filled)

theorem Clean.fillAddr {cfg : CacheConfig} {tags next : TagArray} {addr time : Nat} {mf : MemFetch}
    (clean : tags.Clean) (made : tags.fillAddr cfg addr time mf = .ok next) : next.Clean := by
  obtain ⟨⟨status, found⟩, -, made⟩ := bind_ok.mp made
  dsimp only at made
  split at made
  · contradiction
  · obtain ⟨allocated, start, made⟩ := bind_ok.mp made
    obtain ⟨line, filled, made⟩ := bind_ok.mp made
    cases made
    refine clean.setLine (CacheBlock.Clean.fill ?_ filled)
    unfold TagArray.allocateMissing at start
    split at start
    · exact .allocate start
    · exact (clean _).allocateSector start
    · cases start
      exact clean _

theorem Clean.addPendingLine {cfg : CacheConfig} {tags : TagArray} {mf : MemFetch}
    (clean : tags.Clean) : (tags.addPendingLine cfg mf).Clean := by
  unfold TagArray.addPendingLine
  dsimp only
  split <;> exact clean

end TagArray

end GpgpuSim.Cache
