import GpgpuSim.Cache.WritePath
import GpgpuSim.Containers.RingBuffer

/-! The texture cache. Its tags are updated when a request is accepted, its data array when the request reaches the head
of the fragment FIFO; a line from memory waits in the reorder buffer in between. -/
namespace GpgpuSim.Cache
open Containers Memory Transition

/-- The two kinds that the constructor of a `tex_cache` accepts. -/
inductive TexMshrType
  | texFifo
  | sectorTexFifo
  deriving DecidableEq, Repr

structure TexCacheConfig extends CacheConfig where
  texMshrType : TexMshrType
  resultFifoEntries : Nat

namespace TexCacheConfig

/-! Three sizes share a union with sizes of other caches. -/

def fragmentFifoEntries (cfg : TexCacheConfig) : Nat := cfg.mshrEntries

def requestFifoEntries (cfg : TexCacheConfig) : Nat := cfg.mshrMaxMerge

def robEntries (cfg : TexCacheConfig) : Nat := cfg.missQueueSize

/-- What the constructor asserts, of a cache with `NORMAL` lines and queues that hold something; each set has a line,
and the set function keeps the bound that it asserts itself. -/
structure Accepted (cfg : TexCacheConfig) : Prop where
  readOnly : cfg.writePolicy = .readOnly
  onMiss : cfg.allocPolicy = .onMiss
  normal : cfg.cacheType = .normal
  fragmentFifo : 0 < cfg.fragmentFifoEntries
  requestFifo : 0 < cfg.requestFifoEntries
  rob : 0 < cfg.robEntries
  resultFifo : 0 < cfg.resultFifoEntries
  ways : 0 < cfg.assoc
  sets : ∀ addr, cfg.setIndex addr < cfg.nset

end TexCacheConfig

/-- A request, where its data will be, and whether it sent a memory request. -/
structure FragmentEntry where
  request : MfId
  cacheIndex : Nat
  miss : Bool
  dataSize : Nat
  deriving DecidableEq, Repr

structure RobEntry where
  ready : Bool := false
  time : Nat := 0
  index : Nat := 0
  request : MfId
  blockAddr : Nat := 0
  deriving DecidableEq, Repr

structure DataBlock where
  valid : Bool := false
  blockAddr : Nat := 0
  deriving DecidableEq, Repr

structure TexExtraMfFields where
  valid : Bool
  robIndex : Nat
  pendingRead : Nat
  deriving DecidableEq, Repr

structure TexCache (cfg : TexCacheConfig) where
  tags : TagArray
  fragmentFifo : RingBuffer FragmentEntry cfg.fragmentFifoEntries
  requestFifo : RingBuffer MfId cfg.requestFifoEntries
  rob : RingBuffer RobEntry cfg.robEntries
  /-- `m_cache`. -/
  data : Nat → DataBlock
  resultFifo : RingBuffer MfId cfg.resultFifoEntries
  extraMfFields : MfId → Option TexExtraMfFields

/-- The outcome of an access, with the events it adds. -/
structure TexAccess (cfg : TexCacheConfig) where
  status : CacheRequestStatus
  events : List CacheEvent
  cache : TexCache cfg
  pool : MfPool

/-- The assertions of the queues. -/
def asserted {α : Type*} (o : Option α) : Except CacheFault α :=
  match o with
  | some a => .ok a
  | none => .error .assertion

namespace TexCache

variable {cfg : TexCacheConfig}

def create (cfg : TexCacheConfig) (accepted : cfg.Accepted) : TexCache cfg where
  tags := .create cfg.toCacheConfig
  fragmentFifo := .create (fun _ => ⟨.request 0, 0, false, 0⟩) accepted.fragmentFifo
  requestFifo := .create (fun _ => .request 0) accepted.requestFifo
  rob := .create (fun _ => { request := .request 0 }) accepted.rob
  data _ := {}
  resultFifo := .create (fun _ => .request 0) accepted.resultFifo
  extraMfFields _ := none

/-- The fields of a request that has entry `robIndex` of the reorder buffer. -/
def extraFields (cfg : TexCacheConfig) (robIndex : Nat) : TexExtraMfFields where
  valid := true
  robIndex
  pendingRead :=
    match cfg.texMshrType with
    | .texFifo => 0
    | .sectorTexFifo => cfg.lineSize / sectorSize

def access (c : TexCache cfg) (pool : MfPool) (addr : Nat) (mf : MfId) (time : Nat) :
    Except CacheFault (TexAccess cfg) := do
  if c.fragmentFifo.full || c.requestFifo.full || c.rob.full then return ⟨.reservationFail, [], c, pool⟩
  let request := pool.get mf
  if cfg.lineSize < request.dataSize then throw .assertion
  let blockAddr := cfg.blockAddr addr
  let (status, cacheIndex, tags) ← c.tags.accessNoWriteBack cfg.toCacheConfig blockAddr time none request
  if status = .reservationFail ∨ status = .hitReserved then throw .assertion
  match cacheIndex with
  | none => throw .abort
  | some i =>
      let (_, fragmentFifo) ← asserted (c.fragmentFifo.push ⟨mf, i, status == .miss, request.dataSize⟩)
      if status = .miss then
        let (robIndex, rob) ← asserted (c.rob.push { index := i, request := mf, blockAddr })
        let extraMfFields := Function.update c.extraMfFields mf (some (extraFields cfg robIndex))
        let pool := pool.modify mf (MemFetch.setDataSize cfg.lineSize)
        let tags ← tags.fillIndex cfg.toCacheConfig i (pool.get mf)
        let (_, requestFifo) ← asserted (c.requestFifo.push mf)
        return ⟨.miss, [{ type := .readRequestSent }],
          { c with tags, fragmentFifo, rob, extraMfFields, requestFifo }, pool⟩
      else return ⟨.hitReserved, [], { c with tags, fragmentFifo }, pool⟩

/-- The next request goes to the port, if that takes it. -/
def sendRequest (c : TexCache cfg) (memportFull : Bool) : Except CacheFault (TexCache cfg × Option MfId) :=
  if c.requestFifo.empty || memportFull then .ok (c, none)
  else do
    let (mf, requestFifo) ← asserted c.requestFifo.pop
    return ({ c with requestFifo }, some mf)

/-- The head of the fragment FIFO reads its data. -/
def readLine (cfg : TexCacheConfig) (c : TexCache cfg) (pool : MfPool) : Except CacheFault (TexCache cfg) :=
  if c.fragmentFifo.empty || c.resultFifo.full then .ok c
  else
    let e := c.fragmentFifo.peek
    if e.miss then do
      let robIndex := c.rob.tail
      let r ← asserted (c.rob.peekAt robIndex)
      if r.request ≠ e.request then throw .assertion
      if r.ready then
        if r.index ≠ e.cacheIndex then throw .assertion
        let (_, resultFifo) ← asserted (c.resultFifo.push e.request)
        let (_, rob) ← asserted c.rob.pop
        let (_, fragmentFifo) ← asserted c.fragmentFifo.pop
        return { c with data := Function.update c.data r.index ⟨true, r.blockAddr⟩, resultFifo, rob, fragmentFifo }
      else return c
    else do
      if (c.data e.cacheIndex).valid = false then throw .assertion
      if (c.data e.cacheIndex).blockAddr ≠ cfg.blockAddr (pool.get e.request).addr then throw .assertion
      let (_, resultFifo) ← asserted (c.resultFifo.push e.request)
      let (_, fragmentFifo) ← asserted c.fragmentFifo.pop
      return { c with resultFifo, fragmentFifo }

/-- The request that is sent, if any, is returned too. -/
def cycle (cfg : TexCacheConfig) (c : TexCache cfg) (pool : MfPool) (memportFull : Bool) :
    Except CacheFault (TexCache cfg × Option MfId) := do
  let (c, sent) ← c.sendRequest memportFull
  let c ← readLine cfg c pool
  return (c, sent)

/-- The part of `fill` after the parts of a line have been counted. -/
def markReady (cfg : TexCacheConfig) (c : TexCache cfg) (pool : MfPool) (mf : MfId) (time : Nat) :
    Except CacheFault (TexCache cfg) := do
  match c.extraMfFields mf with
  | none => throw .assertion
  | some extra =>
      if extra.valid = false then throw .assertion
      if c.rob.empty then throw .assertion
      let r ← asserted (c.rob.peekAt extra.robIndex)
      if r.ready then throw .assertion
      if r.blockAddr ≠ cfg.blockAddr (pool.get mf).addr then throw .assertion
      return { c with rob := c.rob.setAt extra.robIndex { r with ready := true, time } }

/-- One less of an `unsigned`. -/
def decrement (n : Nat) : Nat := if n = 0 then 2 ^ 32 - 1 else n - 1

/-- A line that comes in sectors is credited to the request it was split from. -/
def fill (cfg : TexCacheConfig) (c : TexCache cfg) (pool : MfPool) (mf : MfId) (time : Nat) :
    Except CacheFault (TexCache cfg) :=
  match cfg.texMshrType with
  | .texFifo => c.markReady cfg pool mf time
  | .sectorTexFifo =>
      match (pool.get mf).originalMf with
      | none => .error .assertion
      | some original =>
          match c.extraMfFields (.original original) with
          | none => .error .assertion
          | some extra =>
              let pendingRead := decrement extra.pendingRead
              let counted := { c with
                extraMfFields := Function.update c.extraMfFields (.original original)
                  (some { extra with pendingRead }) }
              if pendingRead > 0 then .ok counted else counted.markReady cfg pool (.original original) time

def accessReady (c : TexCache cfg) : Bool := !c.resultFifo.empty

def nextAccess (c : TexCache cfg) : Except CacheFault (MfId × TexCache cfg) := do
  let (mf, resultFifo) ← asserted c.resultFifo.pop
  return (mf, { c with resultFifo })

end TexCache

end GpgpuSim.Cache
