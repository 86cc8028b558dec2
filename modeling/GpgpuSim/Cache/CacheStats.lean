import GpgpuSim.Cache.TagArray
import GpgpuSim.Containers.Totals
import Mathlib.Data.BitVec

/-! The counters of a cache, since the start and in the present window, and their summaries. -/
namespace GpgpuSim.Cache
open Containers Memory

/-- `enum cache_reservation_fail_reason`, with the source's spelling. -/
inductive CacheReservationFailReason
  | lineAllocFail
  | missQueueFull
  | mshrEnrtyFail
  | mshrMergeEnrtyFail
  | mshrRwPending
  deriving DecidableEq, Repr

/-- The types below `NUM_MEM_ACCESS_TYPE`, in order. -/
def memAccessTypes : List MemAccessType :=
  [.globalAccR, .localAccR, .constAccR, .textureAccR, .globalAccW, .localAccW, .l1WrbkAcc, .l2WrbkAcc, .instAccR,
    .l1WrAllocR, .l2WrAllocR]

/-- The outcomes below `NUM_CACHE_REQUEST_STATUS`, in order. -/
def cacheRequestStatuses : List CacheRequestStatus := [.hit, .hitReserved, .miss, .reservationFail, .sectorMiss]

/-- The counters in the order of the two loops over them. -/
def counterKeys : List (MemAccessType × CacheRequestStatus) :=
  memAccessTypes.flatMap fun type => cacheRequestStatuses.map fun status => (type, status)

structure CacheSubStats where
  accesses : BitVec 64 := 0
  misses : BitVec 64 := 0
  pendingHits : BitVec 64 := 0
  resFails : BitVec 64 := 0
  portAvailableCycles : BitVec 64 := 0
  dataPortBusyCycles : BitVec 64 := 0
  fillPortBusyCycles : BitVec 64 := 0
  deriving DecidableEq, Repr

namespace CacheSubStats

/-- `operator+=`. -/
def addAssign (self css : CacheSubStats) : CacheSubStats :=
  { accesses := self.accesses + css.accesses
    misses := self.misses + css.misses
    pendingHits := self.pendingHits + css.pendingHits
    resFails := self.resFails + css.resFails
    portAvailableCycles := self.portAvailableCycles + css.portAvailableCycles
    dataPortBusyCycles := self.dataPortBusyCycles + css.dataPortBusyCycles
    fillPortBusyCycles := self.fillPortBusyCycles + css.fillPortBusyCycles }

/-- `operator+`. -/
def add (self cs : CacheSubStats) : CacheSubStats :=
  let ret : CacheSubStats := {}
  { ret with
    accesses := self.accesses + cs.accesses
    misses := self.misses + cs.misses
    pendingHits := self.pendingHits + cs.pendingHits
    resFails := self.resFails + cs.resFails
    portAvailableCycles := self.portAvailableCycles + cs.portAvailableCycles
    dataPortBusyCycles := self.dataPortBusyCycles + cs.dataPortBusyCycles
    fillPortBusyCycles := self.fillPortBusyCycles + cs.fillPortBusyCycles }

/-- One step of the loops of `get_sub_stats`. -/
def tally (css : CacheSubStats) (status : CacheRequestStatus) (count : BitVec 64) : CacheSubStats :=
  let css := if status = .hit ∨ status = .miss ∨ status = .sectorMiss ∨ status = .hitReserved then
    { css with accesses := css.accesses + count } else css
  let css := if status = .miss ∨ status = .sectorMiss then { css with misses := css.misses + count } else css
  let css := if status = .hitReserved then { css with pendingHits := css.pendingHits + count } else css
  if status = .reservationFail then { css with resFails := css.resFails + count } else css

end CacheSubStats

/-- The counters of one window, of the type `unsigned`. -/
structure CacheSubStatsPw where
  accesses : BitVec 32 := 0
  writeMisses : BitVec 32 := 0
  writeHits : BitVec 32 := 0
  writePendingHits : BitVec 32 := 0
  writeResFails : BitVec 32 := 0
  readMisses : BitVec 32 := 0
  readHits : BitVec 32 := 0
  readPendingHits : BitVec 32 := 0
  readResFails : BitVec 32 := 0
  deriving DecidableEq, Repr

/-- `sum += count` of an `unsigned` and an `unsigned long long`. -/
def addCount (sum : BitVec 32) (count : BitVec 64) : BitVec 32 := (sum.setWidth 64 + count).setWidth 32

theorem addCount_eq (sum : BitVec 32) (count : BitVec 64) : addCount sum count = sum + count.setWidth 32 := by
  rw [addCount, BitVec.setWidth_add _ _ (by decide), BitVec.setWidth_setWidth_of_le _ (by decide),
    BitVec.setWidth_eq]

/-- `GLOBAL_ACC_R`, `CONST_ACC_R` and `INST_ACC_R`. -/
def isWindowRead (type : MemAccessType) : Bool := type = .globalAccR ∨ type = .constAccR ∨ type = .instAccR

namespace CacheSubStatsPw

/-- `operator+=`. -/
def addAssign (self css : CacheSubStatsPw) : CacheSubStatsPw :=
  { self with
    accesses := self.accesses + css.accesses
    writeMisses := self.writeMisses + css.writeMisses
    readMisses := self.readMisses + css.readMisses
    writePendingHits := self.writePendingHits + css.writePendingHits
    readPendingHits := self.readPendingHits + css.readPendingHits
    writeResFails := self.writeResFails + css.writeResFails
    readResFails := self.readResFails + css.readResFails }

/-- `operator+`. -/
def add (self cs : CacheSubStatsPw) : CacheSubStatsPw :=
  let ret : CacheSubStatsPw := {}
  { ret with
    accesses := self.accesses + cs.accesses
    writeMisses := self.writeMisses + cs.writeMisses
    readMisses := self.readMisses + cs.readMisses
    writePendingHits := self.writePendingHits + cs.writePendingHits
    readPendingHits := self.readPendingHits + cs.readPendingHits
    writeResFails := self.writeResFails + cs.writeResFails
    readResFails := self.readResFails + cs.readResFails }

/-- One step of the loops of `get_sub_stats_pw`. -/
def tally (css : CacheSubStatsPw) (type : MemAccessType) (status : CacheRequestStatus) (count : BitVec 64) :
    CacheSubStatsPw :=
  let css := if status = .hit ∨ status = .miss ∨ status = .sectorMiss ∨ status = .hitReserved then
    { css with accesses := addCount css.accesses count } else css
  let css := if status = .hit then
    if isWindowRead type then { css with readHits := addCount css.readHits count }
    else if type = .globalAccW then { css with writeHits := addCount css.writeHits count } else css
    else css
  let css := if status = .miss ∨ status = .sectorMiss then
    if isWindowRead type then { css with readMisses := addCount css.readMisses count }
    else if type = .globalAccW then { css with writeMisses := addCount css.writeMisses count } else css
    else css
  let css := if status = .hitReserved then
    if isWindowRead type then { css with readPendingHits := addCount css.readPendingHits count }
    else if type = .globalAccW then { css with writePendingHits := addCount css.writePendingHits count } else css
    else css
  if status = .reservationFail then
    if isWindowRead type then { css with readResFails := addCount css.readResFails count }
    else if type = .globalAccW then { css with writeResFails := addCount css.writeResFails count } else css
    else css

end CacheSubStatsPw

/-- `cache_stats`, as its constructor fills it by default. -/
@[ext] structure CacheStats where
  stats : MemAccessType → CacheRequestStatus → BitVec 64 := fun _ _ => 0
  /-- Those of the present window. -/
  statsPw : MemAccessType → CacheRequestStatus → BitVec 64 := fun _ _ => 0
  failStats : MemAccessType → CacheReservationFailReason → BitVec 64 := fun _ _ => 0
  cachePortAvailableCycles : BitVec 64 := 0
  cacheDataPortBusyCycles : BitVec 64 := 0
  cacheFillPortBusyCycles : BitVec 64 := 0

namespace CacheStats

def incStats (self : CacheStats) (type : MemAccessType) (status : CacheRequestStatus) : CacheStats :=
  { self with stats := fun t s => if t = type ∧ s = status then self.stats t s + 1 else self.stats t s }

def incStatsPw (self : CacheStats) (type : MemAccessType) (status : CacheRequestStatus) : CacheStats :=
  { self with statsPw := fun t s => if t = type ∧ s = status then self.statsPw t s + 1 else self.statsPw t s }

/-- `operator()(type, status, false)`. -/
def count (self : CacheStats) (type : MemAccessType) (status : CacheRequestStatus) : BitVec 64 :=
  self.stats type status

/-- `operator()(type, reason, true)`. -/
def failCount (self : CacheStats) (type : MemAccessType) (reason : CacheReservationFailReason) : BitVec 64 :=
  self.failStats type reason

/-- `operator+=`; both tables are added the total counts. -/
def addAssign (self cs : CacheStats) : CacheStats :=
  { stats := fun type status => self.stats type status + cs.count type status
    statsPw := fun type status => self.statsPw type status + cs.count type status
    failStats := fun type reason => self.failStats type reason + cs.failCount type reason
    cachePortAvailableCycles := self.cachePortAvailableCycles + cs.cachePortAvailableCycles
    cacheDataPortBusyCycles := self.cacheDataPortBusyCycles + cs.cacheDataPortBusyCycles
    cacheFillPortBusyCycles := self.cacheFillPortBusyCycles + cs.cacheFillPortBusyCycles }

/-- `operator+`. -/
def add (self cs : CacheStats) : CacheStats :=
  let ret : CacheStats := {}
  { ret with
    stats := fun type status => self.stats type status + cs.count type status
    failStats := fun type reason => self.failStats type reason + cs.failCount type reason
    cachePortAvailableCycles := self.cachePortAvailableCycles + cs.cachePortAvailableCycles
    cacheDataPortBusyCycles := self.cacheDataPortBusyCycles + cs.cacheDataPortBusyCycles
    cacheFillPortBusyCycles := self.cacheFillPortBusyCycles + cs.cacheFillPortBusyCycles }

def getSubStats (self : CacheStats) : CacheSubStats :=
  let css := counterKeys.foldl (fun css key => css.tally key.2 (self.stats key.1 key.2)) ({} : CacheSubStats)
  { css with
    portAvailableCycles := self.cachePortAvailableCycles
    dataPortBusyCycles := self.cacheDataPortBusyCycles
    fillPortBusyCycles := self.cacheFillPortBusyCycles }

def getSubStatsPw (self : CacheStats) : CacheSubStatsPw :=
  counterKeys.foldl (fun css key => css.tally key.1 key.2 (self.statsPw key.1 key.2)) {}

end CacheStats

end GpgpuSim.Cache
