import GpgpuSim.Cache.AccessRuns
import Mathlib.Data.Finset.Basic

/-! The load/store unit of a shader core: what it counts for loads and stores, and the two places where
it decides whether a request goes around the L1 data cache. -/
namespace GpgpuSim.Shader
open GpgpuSim.Memory GpgpuSim.Cache Transition

/-- `_memory_space_t`. -/
inductive MemorySpace
  | undefinedSpace
  | regSpace
  | localSpace
  | sharedSpace
  | sstarrSpace
  | paramSpaceUnclassified
  | paramSpaceKernel
  | paramSpaceLocal
  | constSpace
  | texSpace
  | surfSpace
  | globalSpace
  | genericSpace
  | instructionSpace
  deriving DecidableEq, Repr

/-- `cache_operator_type`. -/
inductive CacheOperator
  | cacheUndefined
  | cacheAll
  | cacheLastUse
  | cacheVolatile
  | cacheL1
  | cacheStreaming
  | cacheGlobal
  | cacheWriteBack
  | cacheWriteThrough
  deriving DecidableEq, Repr

/-- What `is_load` and `is_store` tell apart. -/
inductive MemoryOp
  | noMemoryOp
  | memoryLoad
  | memoryStore
  deriving DecidableEq, Repr

/-- What the memory stage reads of a `warp_inst_t`; the registers it writes are `out`. -/
structure WarpInst where
  uid : Nat
  warpId : Nat
  space : MemorySpace
  cacheOp : CacheOperator
  memoryOp : MemoryOp
  out : List Nat
  deriving DecidableEq, Repr

namespace WarpInst

def isLoad (inst : WarpInst) : Bool := inst.memoryOp == .memoryLoad

def isStore (inst : WarpInst) : Bool := inst.memoryOp == .memoryStore

theorem not_isLoad_of_isStore {inst : WarpInst} (store : inst.isStore = true) : inst.isLoad = false := by
  simp only [isStore, isLoad, beq_iff_eq, beq_eq_false_iff_ne] at store ⊢
  rw [store]
  decide

/-- Register 0 stands for no register. -/
def outputs (inst : WarpInst) : List Nat := inst.out.filter fun reg => decide (0 < reg)

/-- The type of the accesses that `generate_mem_accesses` makes; shared memory has none. -/
def accessType (inst : WarpInst) : Option MemAccessType :=
  match inst.space with
  | .constSpace | .paramSpaceKernel => some .constAccR
  | .texSpace => some .textureAccR
  | .globalSpace => some (if inst.isStore then .globalAccW else .globalAccR)
  | .localSpace | .paramSpaceLocal => some (if inst.isStore then .localAccW else .localAccR)
  | _ => none

/-- The spaces that `memory_cycle` serves. -/
def inMemoryCycle (inst : WarpInst) : Bool :=
  match inst.space with
  | .globalSpace | .localSpace | .paramSpaceLocal => true
  | _ => false

/-- The spaces that `constant_cycle` serves. -/
def inConstantCycle (inst : WarpInst) : Bool :=
  match inst.space with
  | .constSpace | .paramSpaceKernel => true
  | _ => false

end WarpInst

/-- `shader_core_config`, with the L1 data cache when it is not disabled. The unit asserts that its
latency is positive, and `l1_cache` names the kinds of its own requests. -/
structure LdstConfig where
  gmemSkipL1D : Bool
  perfectInstConstCache : Bool
  l1d : Option DataCacheConfig
  l1Latency : Nat
  l1Banks : Nat
  setBank : Nat → Nat
  latency_pos : 0 < l1Latency
  own_requests : ∀ c ∈ l1d, c.wrAllocType = .l1WrAllocR ∧ c.wrbkType = .l1WrbkAcc

inductive LdstFault
  | assertion
  | abort
  | cache (fault : CacheFault)
  deriving Repr

/-- Who asks memory, and gets its reply. -/
inductive Requester
  | l1d
  | l1c
  | l1t
  | bypass
  deriving DecidableEq, Repr

namespace LdstConfig

/-- The decision in `memory_cycle`. -/
def bypassAtIssue (cfg : LdstConfig) (inst : WarpInst) : Bool :=
  if inst.cacheOp = .cacheGlobal ∨ cfg.l1d = none then true
  else if inst.space = .globalSpace then cfg.gmemSkipL1D && decide (inst.cacheOp ≠ .cacheL1)
  else false

/-- The decision in `cycle`, for a reply to a read that is neither for the texture nor the constant cache. -/
def bypassAtReply (cfg : LdstConfig) (type : MemAccessType) (cacheOp : CacheOperator) : Bool :=
  if cacheOp = .cacheGlobal ∨ cfg.l1d = none then true
  else if type = .globalAccR ∨ type = .globalAccW then cfg.gmemSkipL1D
  else false

/-- Who gets the reply to a read. -/
def replyTo (cfg : LdstConfig) (type : MemAccessType) (cacheOp : CacheOperator) : Requester :=
  if type = .textureAccR then .l1t
  else if type = .constAccR then .l1c
  else if cfg.bypassAtReply type cacheOp then .bypass
  else .l1d

/-- The store requests that a write of the size stands for. -/
def incAck (cfg : LdstConfig) (dataSize : Nat) : Nat :=
  if (cfg.l1d.map fun c => c.mshrType) = some .sectorAssoc then dataSize / sectorSize else 1

end LdstConfig

/-- `m_pending_writes`, the scoreboard's `reg_table` and the warps' `m_stores_outstanding`. -/
structure LdstBooks where
  pendingWrites : Nat → Nat → Option Nat
  regTable : Nat → Finset Nat
  storesOutstanding : Nat → Nat

inductive CompletionEvent
  | released (inst : WarpInst) (reg : Nat)
  | completed (inst : WarpInst)
  deriving DecidableEq, Repr

namespace LdstBooks

def setPending (books : LdstBooks) (warpId reg : Nat) (value : Option Nat) : LdstBooks :=
  { books with pendingWrites :=
      Function.update books.pendingWrites warpId (Function.update (books.pendingWrites warpId) reg value) }

/-- `releaseRegister`. -/
def releaseRegister (books : LdstBooks) (warpId reg : Nat) : LdstBooks :=
  { books with regTable := Function.update books.regTable warpId ((books.regTable warpId).erase reg) }

/-- An entry that is not in the map reads as 0. -/
def pending (books : LdstBooks) (warpId reg : Nat) : Nat := (books.pendingWrites warpId reg).getD 0

/-- `--m_pending_writes[warp_id][reg]`. -/
def decrement (books : LdstBooks) (warpId reg : Nat) : LdstBooks :=
  books.setPending warpId reg (some ((books.pending warpId reg + (2 ^ 32 - 1)) % 2 ^ 32))

/-- `reserveRegisters`, which aborts on a register that is reserved, and the counts of `ldst_unit::issue`. -/
def issueLoad (inst : WarpInst) (accesses : Nat) : List Nat → LdstBooks → Except LdstFault LdstBooks
  | [], books => .ok books
  | reg :: rest, books =>
      if reg ∈ books.regTable inst.warpId then .error .abort
      else
        issueLoad inst accesses rest ({ books with
            regTable := Function.update books.regTable inst.warpId
              (insert reg (books.regTable inst.warpId)) }.setPending
          inst.warpId reg (some (books.pending inst.warpId reg + accesses)))

/-- A hit of `process_cache_access`, and of the perfect constant cache. -/
def hitReadOnly (inst : WarpInst) (books : LdstBooks) : LdstBooks :=
  inst.outputs.foldl (fun books reg => books.decrement inst.warpId reg) books

/-- One register of a served access: nothing pending is left, or the count goes down. -/
def serveRegister (inst : WarpInst) (books : LdstBooks) (reg : Nat) : Except LdstFault (LdstBooks × Bool) :=
  if books.pending inst.warpId reg > 0 then
    if books.pending inst.warpId reg - 1 = 0 then
      .ok ((books.setPending inst.warpId reg none).releaseRegister inst.warpId reg, true)
    else .ok (books.setPending inst.warpId reg (some (books.pending inst.warpId reg - 1)), false)
  else .error .assertion

/-- A load that hits at the head of the L1 latency queue: `warp_inst_complete` is called for each register
that is released. -/
def hitLoad (inst : WarpInst) : List Nat → LdstBooks → Except LdstFault (LdstBooks × List CompletionEvent)
  | [], books => .ok (books, [])
  | reg :: rest, books => do
      let (books, last) ← books.serveRegister inst reg
      let (books, events) ← hitLoad inst rest books
      return (books, (if last then [.released inst reg, .completed inst] else []) ++ events)

/-- The loads' part of a hit at the head of the queue. -/
def hitQueued (inst : WarpInst) (books : LdstBooks) : Except LdstFault (LdstBooks × List CompletionEvent) :=
  if inst.isLoad then books.hitLoad inst inst.outputs else .ok (books, [])

/-- One register of `m_next_wb`; nothing is counted for shared memory. -/
def writebackRegister (inst : WarpInst) (books : LdstBooks) (reg : Nat) : Except LdstFault (LdstBooks × Bool) :=
  if inst.space ≠ .sharedSpace then books.serveRegister inst reg
  else .ok (books.releaseRegister inst.warpId reg, true)

/-- The registers of `m_next_wb`, and whether one has been released. -/
def writebackRegisters (inst : WarpInst) :
    List Nat → LdstBooks → Except LdstFault (LdstBooks × Bool × List CompletionEvent)
  | [], books => .ok (books, false, [])
  | reg :: rest, books => do
      let (books, last) ← books.writebackRegister inst reg
      let (books, completed, events) ← writebackRegisters inst rest books
      return (books, last || completed, (if last then [.released inst reg] else []) ++ events)

/-- `writeback` of `m_next_wb`. -/
def writeback (inst : WarpInst) (books : LdstBooks) : Except LdstFault (LdstBooks × List CompletionEvent) := do
  let (books, completed, events) ← writebackRegisters inst inst.outputs books
  return (books, events ++ if completed then [.completed inst] else [])

/-- The loop over the registers of a load that leaves the dispatch register: `none` when writes are
pending, else the counts that are zero are gone. -/
def findPending (inst : WarpInst) : List Nat → LdstBooks → Bool × LdstBooks
  | [], books => (false, books)
  | reg :: rest, books =>
      match books.pendingWrites inst.warpId reg with
      | none => findPending inst rest books
      | some count =>
          if count > 0 then (true, books)
          else findPending inst rest (books.setPending inst.warpId reg none)

/-- The end of `cycle` for a load that is not of shared memory and has no access left. -/
def dispatchLoad (inst : WarpInst) (books : LdstBooks) : LdstBooks × List CompletionEvent :=
  let (pendingRequests, books) := findPending inst inst.outputs books
  if pendingRequests then (books, [])
  else (inst.outputs.foldl (fun books reg => books.releaseRegister inst.warpId reg) books,
    .completed inst :: inst.outputs.map fun reg => .released inst reg)

/-- `inc_store_req`. -/
def incStoreReq (warpId : Nat) (books : LdstBooks) : LdstBooks :=
  { books with
    storesOutstanding := Function.update books.storesOutstanding warpId (books.storesOutstanding warpId + 1) }

/-- `store_ack`. -/
def storeAck (warpId : Nat) (books : LdstBooks) : Except LdstFault LdstBooks :=
  if books.storesOutstanding warpId > 0 then
    .ok { books with
      storesOutstanding := Function.update books.storesOutstanding warpId (books.storesOutstanding warpId - 1) }
  else .error .assertion

/-! ## What loads leave alone -/

variable {inst : WarpInst} {books next : LdstBooks}

@[simp] theorem storesOutstanding_setPending (warpId reg : Nat) (value : Option Nat) :
    (books.setPending warpId reg value).storesOutstanding = books.storesOutstanding := rfl

@[simp] theorem storesOutstanding_releaseRegister (warpId reg : Nat) :
    (books.releaseRegister warpId reg).storesOutstanding = books.storesOutstanding := rfl

theorem storesOutstanding_issueLoad {accesses : Nat} {regs : List Nat}
    (done : issueLoad inst accesses regs books = .ok next) : next.storesOutstanding = books.storesOutstanding := by
  induction regs generalizing books with
  | nil =>
      cases done
      rfl
  | cons reg rest ih =>
      simp only [issueLoad] at done
      split at done
      · cases done
      · have kept := ih done
        exact kept

theorem storesOutstanding_hitReadOnly : (books.hitReadOnly inst).storesOutstanding = books.storesOutstanding := by
  unfold hitReadOnly
  induction inst.outputs generalizing books with
  | nil => rfl
  | cons reg rest ih =>
      rw [List.foldl_cons, ih]
      rfl

theorem storesOutstanding_serveRegister {reg : Nat} {last : Bool}
    (done : books.serveRegister inst reg = .ok (next, last)) : next.storesOutstanding = books.storesOutstanding := by
  unfold serveRegister at done
  split at done
  · split at done <;> cases done <;> rfl
  · cases done

theorem storesOutstanding_hitQueued {events : List CompletionEvent} (done : books.hitQueued inst = .ok (next, events)) :
    next.storesOutstanding = books.storesOutstanding := by
  have served : ∀ {regs : List Nat} {books next events}, hitLoad inst regs books = .ok (next, events) →
      next.storesOutstanding = books.storesOutstanding := by
    intro regs
    induction regs with
    | nil =>
        intro books next events done
        cases done
        rfl
    | cons reg rest ih =>
        intro books next events done
        obtain ⟨⟨middle, last⟩, first, done⟩ := bind_ok.mp done
        obtain ⟨⟨final, more⟩, others, done⟩ := bind_ok.mp done
        cases done
        rw [ih others, storesOutstanding_serveRegister first]
  unfold hitQueued at done
  split at done
  · exact served done
  · cases done
    rfl

theorem storesOutstanding_writebackRegister {reg : Nat} {last : Bool}
    (done : books.writebackRegister inst reg = .ok (next, last)) :
    next.storesOutstanding = books.storesOutstanding := by
  unfold writebackRegister at done
  split at done
  · exact storesOutstanding_serveRegister done
  · cases done
    rfl

theorem storesOutstanding_writeback {events : List CompletionEvent} (done : books.writeback inst = .ok (next, events)) :
    next.storesOutstanding = books.storesOutstanding := by
  have served : ∀ {regs : List Nat} {books next completed events},
      writebackRegisters inst regs books = .ok (next, completed, events) →
      next.storesOutstanding = books.storesOutstanding := by
    intro regs
    induction regs with
    | nil =>
        intro books next completed events done
        cases done
        rfl
    | cons reg rest ih =>
        intro books next completed events done
        obtain ⟨⟨middle, last⟩, first, done⟩ := bind_ok.mp done
        obtain ⟨⟨final, done', more⟩, others, done⟩ := bind_ok.mp done
        cases done
        rw [ih others, storesOutstanding_writebackRegister first]
  obtain ⟨⟨final, completed, more⟩, done', rest⟩ := bind_ok.mp done
  cases rest
  exact served done'

theorem storesOutstanding_dispatchLoad : (books.dispatchLoad inst).1.storesOutstanding = books.storesOutstanding := by
  have found : ∀ {regs : List Nat} {books : LdstBooks},
      (findPending inst regs books).2.storesOutstanding = books.storesOutstanding := by
    intro regs
    induction regs with
    | nil => exact rfl
    | cons reg rest ih =>
        intro books
        simp only [findPending]
        split
        · exact ih
        · split
          · rfl
          · rw [ih]
            rfl
  have released : ∀ {regs : List Nat} {books : LdstBooks},
      (regs.foldl (fun books reg => books.releaseRegister inst.warpId reg) books).storesOutstanding =
        books.storesOutstanding := by
    intro regs
    induction regs with
    | nil => exact rfl
    | cons reg rest ih =>
        intro books
        rw [List.foldl_cons, ih]
        rfl
  simp only [dispatchLoad]
  split
  · exact found
  · rw [released, found]

end LdstBooks

end GpgpuSim.Shader
