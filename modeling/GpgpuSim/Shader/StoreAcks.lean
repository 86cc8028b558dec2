import GpgpuSim.Shader.ReplyRouting

/-! Store requests and their acknowledgements. A store is counted when it goes into the L1 latency queue,
and acknowledged when it hits and is kept, or by memory. A store that misses and is kept in the line it
allocates is never acknowledged. -/
namespace GpgpuSim.Shader
open GpgpuSim.Memory GpgpuSim.Cache Transition

/-- The requests that are counted for a warp. -/
def storeReqsOf (warpId : Nat) (trace : List LdstEvent) : List MfId :=
  trace.filterMap fun
    | .storeReq mf w => if w = warpId then some mf else none
    | _ => none

/-- The requests that are acknowledged to a warp. -/
def storeAcksOf (warpId : Nat) (trace : List LdstEvent) : List MfId :=
  trace.filterMap fun
    | .storeAck mf w => if w = warpId then some mf else none
    | _ => none

theorem count_storeReqsOf (warpId : Nat) (trace : List LdstEvent) (mf : MfId) :
    (storeReqsOf warpId trace).count mf = trace.count (.storeReq mf warpId) := by
  induction trace with
  | nil => rfl
  | cons event rest ih =>
      have split : storeReqsOf warpId (event :: rest) = storeReqsOf warpId
        [event] ++ storeReqsOf warpId rest :=
        List.filterMap_append (l := [event])
      rw [split, List.count_append, ih, List.count_cons, Nat.add_comm]
      congr 1
      cases event with
      | storeReq q w => by_cases same : w = warpId <;> by_cases eq : q = mf <;> simp
          [storeReqsOf, same, eq]
      | _ => simp [storeReqsOf]

theorem count_storeAcksOf (warpId : Nat) (trace : List LdstEvent) (mf : MfId) :
    (storeAcksOf warpId trace).count mf = trace.count (.storeAck mf warpId) := by
  induction trace with
  | nil => rfl
  | cons event rest ih =>
      have split : storeAcksOf warpId (event :: rest) = storeAcksOf warpId
        [event] ++ storeAcksOf warpId rest :=
        List.filterMap_append (l := [event])
      rw [split, List.count_append, ih, List.count_cons, Nat.add_comm]
      congr 1
      cases event with
      | storeAck q w => by_cases same : w = warpId <;> by_cases eq : q = mf <;> simp
          [storeAcksOf, same, eq]
      | _ => simp [storeAcksOf]

namespace LdstUnit

/-- What `stores_done` of the warp tests. -/
def StoresDone (unit : LdstUnit) (warpId : Nat) : Prop := unit.books.storesOutstanding warpId = 0

/-- The store requests that a request stands for. -/
def acksOf (cfg : LdstConfig) (unit : LdstUnit) (mf : MfId) : Nat := cfg.incAck
    (unit.pool.get mf).dataSize

/-- The request is in the L1 latency queue. -/
def Waiting (unit : LdstUnit) (mf : MfId) : Prop := ∃ bank stage, unit.latencyQueue bank stage = some mf

open Classical in
/-- The acknowledgements of a store that are still to come: all while it waits or is to be sent, and those
that memory owes. -/
noncomputable def toCome (cfg : LdstConfig) (unit : LdstUnit) (mf : MfId) : Nat :=
  unit.acksOf cfg mf * ((if unit.Waiting mf then 1 else 0) + unit.l1d.missQueue.count mf) +
    (unit.owed ++ unit.responseFifo).count (mf, true)

/-- A request that is nowhere in the unit, and to which memory owes no acknowledgement. -/
structure Served (unit : LdstUnit) (mf : MfId) : Prop where
  waiting : ¬ unit.Waiting mf
  missQueue : mf ∉ unit.l1d.missQueue
  owed : (mf, true) ∉ unit.owed ++ unit.responseFifo

theorem Served.toCome {cfg : LdstConfig} {unit : LdstUnit} {mf : MfId} (served : unit.Served mf) :
    unit.toCome cfg mf = 0 := by
  rw [LdstUnit.toCome, if_neg served.waiting, List.count_eq_zero.mpr served.missQueue,
    List.count_eq_zero.mpr served.owed]
  rfl

/-- The request is of an instruction that `memory_cycle` serves. -/
def Accepted (trace : List LdstEvent) (mf : MfId) : Prop := .queued mf ∈ trace ∨ .sent mf .bypass ∈ trace

/-- What is known of a request of an instruction. -/
structure Known (unit : LdstUnit) (mf : MfId) : Prop where
  in_use : mf.serial < unit.pool.nextSerial
  inst : ∃ inst, unit.inst mf = some inst ∧ inst.inMemoryCycle = true ∧
    inst.accessType = some (unit.pool.get mf).accessType

/-- The stores that are counted as they are acknowledged: those of the latency queue, and those that go
around it for one acknowledgement. -/
structure Counted (cfg : LdstConfig) (trace : List LdstEvent) (unit : LdstUnit) (mf : MfId) : Prop where
  write : (unit.pool.get mf).isWrite = true
  way : .queued mf ∈ trace ∨ .sent mf .bypass ∈ trace ∧ unit.acksOf cfg mf = 1

/-- Every acknowledgement of a store has come or is to come. -/
structure Settles (cfg : LdstConfig) (trace : List LdstEvent) (unit : LdstUnit) (mf : MfId) : Prop where
  reqs : trace.count (.storeReq mf (unit.wid mf)) = unit.acksOf cfg mf
  acks : trace.count (.storeAck mf (unit.wid mf)) + unit.toCome cfg mf = unit.acksOf cfg mf

structure Balanced (cfg : LdstConfig) (trace : List LdstEvent) (unit : LdstUnit) : Prop where
  dispatch : ∀ inst accessq, unit.dispatchReg = some (inst, accessq) →
    ∀ access ∈ accessq, inst.accessType = some access.accessType
  once : ∀ b s b' s' mf, unit.latencyQueue b s = some mf → unit.latencyQueue b' s' = some mf → b = b' ∧
    s = s'
  queued : ∀ b s mf, unit.latencyQueue b s = some mf → .queued mf ∈ trace
  accepted : ∀ mf, Accepted trace mf → unit.Known mf
  missQueue : ∀ mf ∈ unit.l1d.missQueue, mf.serial < unit.pool.nextSerial ∧
    ((unit.pool.get mf).isWrite = true → (unit.pool.get mf).isWriteBack = false → .queued mf ∈ trace)
  pending : ∀ mf, (unit.l1d.extraMfFields mf).isSome →
    mf.serial < unit.pool.nextSerial ∧ (unit.pool.get mf).isWrite = false
  owed : ∀ mf, (mf, true) ∈ unit.owed ++ unit.responseFifo → Accepted trace mf ∧
    (unit.pool.get mf).isWrite = true
  events : ∀ mf w, .storeReq mf w ∈ trace ∨ .storeAck mf w ∈ trace →
    Accepted trace mf ∧ (unit.pool.get mf).isWrite = true ∧ unit.wid mf = w
  settles : ∀ mf, Counted cfg trace unit mf → Settles cfg trace unit mf
  warps : ∀ w, unit.books.storesOutstanding w + (storeAcksOf w trace).length =
    (storeReqsOf w trace).length

theorem Balanced.create (cfg : LdstConfig) (c : CacheConfig) : Balanced cfg [] (create c) where
  dispatch _ _ held := by cases held
  once _ _ _ _ _ held := by cases held
  queued _ _ _ held := by cases held
  accepted _ accepted := by rcases accepted with member | member <;> cases member
  missQueue _ member := absurd member List.not_mem_nil
  pending _ pending := by cases pending
  owed _ member := absurd member List.not_mem_nil
  events _ _ member := by rcases member with member | member <;> cases member
  settles _ counted := by rcases counted.way with member | ⟨member, -⟩ <;> cases member
  warps _ := rfl

variable {cfg : LdstConfig} {unit next : LdstUnit} {trace events : List LdstEvent} {mf : MfId} {w : Nat}

theorem Accepted.mono (accepted : Accepted trace mf) : Accepted (trace ++ events) mf :=
  accepted.imp (List.mem_append_left _) (List.mem_append_left _)

theorem accepted_append : Accepted (trace ++ events) mf ↔ Accepted trace mf ∨ Accepted events mf := by
  simp only [Accepted, List.mem_append]
  tauto

theorem Known.grows (known : unit.Known mf) (grows : Grows next unit) : next.Known mf where
  in_use := Nat.lt_of_lt_of_le known.in_use grows.kinds.nextSerial
  inst := by
    rw [grows.inst mf known.in_use, grows.kinds.accessType mf known.in_use]
    exact known.inst

theorem Known.wid (known : unit.Known mf) (grows : Grows next unit) : next.wid mf = unit.wid mf := by
  rw [LdstUnit.wid, LdstUnit.wid, grows.inst mf known.in_use]

theorem Known.isWrite (known : unit.Known mf) (grows : Grows next unit) :
    (next.pool.get mf).isWrite = (unit.pool.get mf).isWrite := grows.kinds.isWrite known.in_use

theorem Known.acksOf (known : unit.Known mf) (grows : Grows next unit) (write : (unit.pool.get mf).isWrite = true) :
    next.acksOf cfg mf = unit.acksOf cfg mf := by
  rw [LdstUnit.acksOf, LdstUnit.acksOf, grows.kinds.write mf known.in_use write]

/-- A step that adds to the requests and the history. -/
theorem Balanced.extend (balanced : Balanced cfg trace unit) (grows : Grows next unit)
    (dispatch : ∀ inst accessq, next.dispatchReg = some (inst, accessq) →
      ∀ access ∈ accessq, inst.accessType = some access.accessType)
    (once : ∀ b s b' s' mf, next.latencyQueue b s = some mf → next.latencyQueue b' s' = some mf →
        b = b' ∧ s = s')
    (queued : ∀ b s mf, next.latencyQueue b s = some mf → unit.Waiting mf ∨ .queued mf ∈ events)
    (accepted : ∀ mf, Accepted events mf → unit.pool.nextSerial ≤ mf.serial ∧ next.Known mf)
    (missQueue : ∀ mf ∈ next.l1d.missQueue, mf ∈ unit.l1d.missQueue ∨ mf.serial < next.pool.nextSerial ∧
      ((next.pool.get mf).isWrite = true → (next.pool.get mf).isWriteBack = false → .queued mf ∈ trace))
    (pending : ∀ mf, (next.l1d.extraMfFields mf).isSome → (unit.l1d.extraMfFields mf).isSome ∨
      mf.serial < next.pool.nextSerial ∧ (next.pool.get mf).isWrite = false)
    (owed : ∀ mf, (mf, true) ∈ next.owed ++ next.responseFifo →
        (mf, true) ∈ unit.owed ++ unit.responseFifo ∨
      Accepted (trace ++ events) mf ∧ (next.pool.get mf).isWrite = true)
    (happened : ∀ mf w, .storeReq mf w ∈ events ∨ .storeAck mf w ∈ events →
      Accepted (trace ++ events) mf ∧ (next.pool.get mf).isWrite = true ∧ next.wid mf = w)
    (kept : ∀ mf, Counted cfg trace unit mf → events.count (.storeReq mf (unit.wid mf)) = 0 ∧
      events.count (.storeAck mf (unit.wid mf)) + next.toCome cfg mf = unit.toCome cfg mf)
    (new : ∀ mf, Counted cfg events next mf → Settles cfg events next mf)
    (warps : ∀ w, next.books.storesOutstanding w + (storeAcksOf w events).length =
      unit.books.storesOutstanding w + (storeReqsOf w events).length) :
    Balanced cfg (trace ++ events) next where
  dispatch := dispatch
  once := once
  queued b s mf held := by
    rcases queued b s mf held with ⟨b', s', before⟩ | now
    · exact List.mem_append_left _ (balanced.queued b' s' mf before)
    · exact List.mem_append_right _ now
  accepted mf member := by
    rcases accepted_append.mp member with before | now
    · exact (balanced.accepted mf before).grows grows
    · exact (accepted mf now).2
  missQueue mf member := by
    rcases missQueue mf member with before | ⟨in_use, sent⟩
    · obtain ⟨in_use, sent⟩ := balanced.missQueue mf before
      refine ⟨Nat.lt_of_lt_of_le in_use grows.kinds.nextSerial, fun write forward => ?_⟩
      rw [grows.kinds.isWrite in_use] at write
      rw [grows.kinds.write mf in_use write] at forward
      exact List.mem_append_left _ (sent write forward)
    · exact ⟨in_use, fun write forward => List.mem_append_left _ (sent write forward)⟩
  pending mf pended := by
    rcases pending mf pended with before | now
    · obtain ⟨in_use, read⟩ := balanced.pending mf before
      exact ⟨Nat.lt_of_lt_of_le in_use grows.kinds.nextSerial, (grows.kinds.isWrite in_use).trans read⟩
    · exact now
  owed mf member := by
    rcases owed mf member with before | now
    · obtain ⟨accepted, write⟩ := balanced.owed mf before
      exact ⟨accepted.mono, ((balanced.accepted mf accepted).isWrite grows).trans write⟩
    · exact now
  events mf w member := by
    simp only [List.mem_append, or_or_or_comm] at member
    rcases member with before | now
    · obtain ⟨accepted, write, same⟩ := balanced.events mf w before
      have known := balanced.accepted mf accepted
      exact ⟨accepted.mono, (known.isWrite grows).trans write, (known.wid grows).trans same⟩
    · exact happened mf w now
  settles mf counted := by
    have way : .queued mf ∈ trace ++ events ∨ .sent mf .bypass ∈ trace ++ events :=
      counted.way.imp_right And.left
    by_cases before : Accepted trace mf
    · have known := balanced.accepted mf before
      have none_new : ¬ Accepted events mf := fun now =>
        absurd known.in_use (Nat.not_lt.mpr (accepted mf now).1)
      have write := (known.isWrite grows).symm.trans counted.write
      have same : next.acksOf cfg mf = unit.acksOf cfg mf := known.acksOf grows write
      have earlier : Counted cfg trace unit mf := by
        refine ⟨write, counted.way.imp ?_ ?_⟩
        · intro member
          exact (List.mem_append.mp member).resolve_right fun now => none_new (.inl now)
        · rintro ⟨member, one⟩
          exact ⟨(List.mem_append.mp member).resolve_right fun now => none_new (.inr now),
            same.symm.trans one⟩
      obtain ⟨reqs, acks⟩ := balanced.settles mf earlier
      obtain ⟨no_req, moved⟩ := kept mf earlier
      constructor
      · rw [known.wid grows, same, List.count_append, reqs, no_req, Nat.add_zero]
      · rw [known.wid grows, same, List.count_append, Nat.add_assoc, moved, acks]
    · -- nothing has happened to a request that is new
      have now : Counted cfg events next mf := by
        refine ⟨counted.write, counted.way.imp ?_ ?_⟩
        · intro member
          exact (List.mem_append.mp member).resolve_left fun early => before (.inl early)
        · rintro ⟨member, one⟩
          exact ⟨(List.mem_append.mp member).resolve_left fun early => before (.inr early), one⟩
      obtain ⟨reqs, acks⟩ := new mf now
      have no_req : trace.count (.storeReq mf (next.wid mf)) = 0 :=
        List.count_eq_zero.mpr fun member => before (balanced.events mf _ (.inl member)).1
      have no_ack : trace.count (.storeAck mf (next.wid mf)) = 0 :=
        List.count_eq_zero.mpr fun member => before (balanced.events mf _ (.inr member)).1
      constructor
      · rw [List.count_append, no_req, Nat.zero_add, reqs]
      · rw [List.count_append, no_ack, Nat.zero_add, acks]
  warps w := by
    have before := balanced.warps w
    have now := warps w
    simp only [storeAcksOf, storeReqsOf, List.filterMap_append, List.length_append] at before now ⊢
    omega

variable {inst : WarpInst} {access : MemFetch} {accessq rest : List MemFetch}

/-- An event that neither accepts a request nor counts one. -/
def Passive (event : LdstEvent) : Prop :=
  ∀ mf, event ≠ .queued mf ∧ event ≠ .sent mf .bypass ∧ ∀ w, event ≠ .storeReq mf w

/-- A step that accepts nothing. -/
theorem Balanced.keep (balanced : Balanced cfg trace unit) (grows : Grows next unit)
    (dispatch : ∀ inst accessq, next.dispatchReg = some (inst, accessq) →
      ∀ access ∈ accessq, inst.accessType = some access.accessType)
    (once : ∀ b s b' s' mf, next.latencyQueue b s = some mf → next.latencyQueue b' s' = some mf →
        b = b' ∧ s = s')
    (queued : ∀ b s mf, next.latencyQueue b s = some mf → unit.Waiting mf)
    (missQueue : ∀ mf ∈ next.l1d.missQueue, mf ∈ unit.l1d.missQueue ∨ mf.serial < next.pool.nextSerial ∧
      ((next.pool.get mf).isWrite = true → (next.pool.get mf).isWriteBack = false → .queued mf ∈ trace))
    (pending : ∀ mf, (next.l1d.extraMfFields mf).isSome → (unit.l1d.extraMfFields mf).isSome ∨
      mf.serial < next.pool.nextSerial ∧ (next.pool.get mf).isWrite = false)
    (owed : ∀ mf, (mf, true) ∈ next.owed ++ next.responseFifo →
        (mf, true) ∈ unit.owed ++ unit.responseFifo ∨
      Accepted trace mf ∧ (unit.pool.get mf).isWrite = true)
    (passive : ∀ event ∈ events, Passive event)
    (acked : ∀ mf w, .storeAck mf w ∈ events → Accepted trace mf ∧ (unit.pool.get mf).isWrite = true ∧
        unit.wid mf = w)
    (kept : ∀ mf, Counted cfg trace unit mf →
      events.count (.storeAck mf (unit.wid mf)) + next.toCome cfg mf = unit.toCome cfg mf)
    (warps : ∀ w, next.books.storesOutstanding w +
        (storeAcksOf w events).length = unit.books.storesOutstanding w) :
    Balanced cfg (trace ++ events) next := by
  have none_accepted : ∀ mf, ¬ Accepted events mf := by
    rintro mf (member | member)
    · exact (passive _ member mf).1 rfl
    · exact (passive _ member mf).2.1 rfl
  have no_req : ∀ mf w, .storeReq mf w ∉ events := fun mf w member => (passive _ member mf).2.2 w rfl
  refine balanced.extend grows dispatch once (fun b s mf held => .inl (queued b s mf held))
    (fun mf member => absurd member (none_accepted mf)) missQueue pending ?_ ?_ ?_ ?_ ?_
  · intro mf member
    refine (owed mf member).imp_right fun ⟨accepted, write⟩ => ?_
    exact ⟨accepted.mono, ((balanced.accepted mf accepted).isWrite grows).trans write⟩
  · intro mf w member
    obtain ⟨accepted, write, same⟩ := acked mf w (member.resolve_left (no_req mf w))
    have known := balanced.accepted mf accepted
    exact ⟨accepted.mono, (known.isWrite grows).trans write, (known.wid grows).trans same⟩
  · intro mf counted
    exact ⟨List.count_eq_zero.mpr (no_req mf _), kept mf counted⟩
  · intro mf counted
    exact absurd (counted.way.imp_right And.left) (none_accepted mf)
  · intro w
    have none_here : storeReqsOf w events = [] := by
      refine List.eq_nil_iff_forall_not_mem.mpr fun mf member => no_req mf w ?_
      rw [← List.count_pos_iff, ← count_storeReqsOf, List.count_pos_iff]
      exact member
    rw [warps w, none_here, List.length_nil, Nat.add_zero]

/-- An event that does not touch the stores at all. -/
def Silent (event : LdstEvent) : Prop := Passive event ∧ ∀ mf w, event ≠ .storeAck mf w

theorem storeAcksOf_silent (silent : ∀ event ∈ events, Silent event) : storeAcksOf w events = [] := by
  refine List.eq_nil_iff_forall_not_mem.mpr fun mf member => ?_
  rw [← List.count_pos_iff, count_storeAcksOf, List.count_pos_iff] at member
  exact (silent _ member).2 mf w rfl

/-- What is to come depends on the places of the request. -/
theorem toCome_moved {n : Nat} (acks : next.acksOf cfg mf = unit.acksOf cfg mf)
    (waiting : next.Waiting mf ↔ unit.Waiting mf) (moved : n + unit.acksOf cfg mf * next.l1d.missQueue.count mf +
        (next.owed ++ next.responseFifo).count (mf, true) =
      unit.acksOf cfg mf * unit.l1d.missQueue.count mf + (unit.owed ++ unit.responseFifo).count
        (mf, true)) :
    n + next.toCome cfg mf = unit.toCome cfg mf := by
  rw [toCome, toCome, acks, Nat.mul_add, Nat.mul_add]
  by_cases waits : unit.Waiting mf
  · rw [if_pos waits, if_pos (waiting.mpr waits)]
    omega
  · rw [if_neg waits, if_neg fun later => waits (waiting.mp later)]
    omega

theorem toCome_congr (acks : next.acksOf cfg mf = unit.acksOf cfg mf) (waiting : next.Waiting mf ↔ unit.Waiting mf)
    (missQueue : next.l1d.missQueue.count mf = unit.l1d.missQueue.count mf)
    (owed : (next.owed ++ next.responseFifo).count (mf, true) = (unit.owed ++ unit.responseFifo).count
        (mf, true)) :
    next.toCome cfg mf = unit.toCome cfg mf := by
  rw [← Nat.zero_add (next.toCome cfg mf)]
  refine toCome_moved acks waiting ?_
  rw [missQueue, owed, Nat.zero_add]

/-- Requests may move in the latency queue and among the answers. -/
theorem Balanced.of_same (balanced : Balanced cfg trace unit) (grows : Grows next unit)
    (dispatch : ∀ inst accessq, next.dispatchReg = some (inst, accessq) →
      ∀ access ∈ accessq, inst.accessType = some access.accessType)
    (once : ∀ b s b' s' mf, next.latencyQueue b s = some mf → next.latencyQueue b' s' = some mf →
        b = b' ∧ s = s')
    (waiting : ∀ mf, next.Waiting mf ↔ unit.Waiting mf)
    (missQueue : next.l1d.missQueue = unit.l1d.missQueue)
    (pending : ∀ mf, (next.l1d.extraMfFields mf).isSome → (unit.l1d.extraMfFields mf).isSome)
    (owed : ∀ mf, (next.owed ++ next.responseFifo).count (mf, true) =
        (unit.owed ++ unit.responseFifo).count (mf, true))
    (silent : ∀ event ∈ events, Silent event)
    (stores : next.books.storesOutstanding = unit.books.storesOutstanding) : Balanced cfg
        (trace ++ events) next := by
  refine balanced.keep grows dispatch once (fun b s mf held => (waiting mf).mp ⟨b, s, held⟩)
    (fun mf member => .inl (missQueue ▸ member)) (fun mf pended => .inl (pending mf pended)) ?_
    (fun event member => (silent event member).1)
        (fun mf w member => absurd rfl ((silent _ member).2 mf w)) ?_ ?_
  · intro mf member
    refine .inl ?_
    rwa [← List.count_pos_iff, owed mf, List.count_pos_iff] at member
  · intro mf counted
    have known := balanced.accepted mf (counted.way.imp_right And.left)
    rw [toCome_congr (known.acksOf grows counted.write) (waiting mf) (by rw [missQueue]) (owed mf)]
    have none_here : events.count (.storeAck mf (unit.wid mf)) = 0 :=
      List.count_eq_zero.mpr fun member => (silent _ member).2 mf _ rfl
    omega
  · intro w
    rw [storeAcksOf_silent silent, stores, List.length_nil, Nat.add_zero]

/-- The books of the loads, the registers of the write-back stage and the waiting accesses of the other
caches do not matter. -/
theorem Balanced.of_books (balanced : Balanced cfg trace unit) (pool : next.pool = unit.pool)
    (inst : next.inst = unit.inst) (dispatch : ∀ inst accessq, next.dispatchReg = some (inst, accessq) →
      ∀ access ∈ accessq, inst.accessType = some access.accessType)
    (queue : next.latencyQueue = unit.latencyQueue) (missQueue : next.l1d.missQueue = unit.l1d.missQueue)
    (extras : next.l1d.extraMfFields = unit.l1d.extraMfFields)
    (owed : ∀ mf, (next.owed ++ next.responseFifo).count (mf, true) =
        (unit.owed ++ unit.responseFifo).count (mf, true))
    (silent : ∀ event ∈ events, Silent event)
    (stores : next.books.storesOutstanding = unit.books.storesOutstanding) : Balanced cfg
        (trace ++ events) next := by
  refine balanced.of_same (.same pool inst) dispatch ?_ ?_ missQueue ?_ owed silent stores
  · rw [queue]
    exact balanced.once
  · intro mf
    simp only [Waiting, queue]
  · intro mf pended
    exact extras ▸ pended

/-- A request that is new is nowhere in the unit. -/
theorem Balanced.unused (balanced : Balanced cfg trace unit) (fresh : unit.pool.nextSerial ≤ mf.serial) :
    ¬ Accepted trace mf ∧ unit.Served mf := by
  have none_accepted : ¬ Accepted trace mf := fun accepted =>
    absurd (balanced.accepted mf accepted).in_use (Nat.not_lt.mpr fresh)
  refine ⟨none_accepted, ?_, ?_, ?_⟩
  · rintro ⟨b, s, held⟩
    exact none_accepted (.inl (balanced.queued b s mf held))
  · intro member
    exact absurd (balanced.missQueue mf member).1 (Nat.not_lt.mpr fresh)
  · intro member
    exact none_accepted (balanced.owed mf member).1

/-- The request of an access is accepted, into the latency queue or around it. -/
theorem Balanced.accept {more : List (MfId × Bool)} (balanced : Balanced cfg trace unit)
    (served : inst.inMemoryCycle = true) (typed : inst.accessType = some access.accessType)
    (pool : next.pool = (unit.alloc inst access).2.pool) (insts : next.inst = (unit.alloc inst access).2.inst)
    (dispatch : next.dispatchReg = unit.dispatchReg) (l1d : next.l1d = unit.l1d)
    (once : ∀ b s b' s' mf, next.latencyQueue b s = some mf → next.latencyQueue b' s' = some mf →
        b = b' ∧ s = s')
    (queue : ∀ b s q, next.latencyQueue b s = some q →
      unit.latencyQueue b s = some q ∨ q = (unit.alloc inst access).1 ∧ .queued q ∈ events)
    (others : ∀ b s q, unit.latencyQueue b s = some q → next.latencyQueue b s = some q)
    (owed : next.owed = unit.owed ++ more) (fifo : next.responseFifo = unit.responseFifo)
    (answers : ∀ answer ∈ more, answer.1 = (unit.alloc inst access).1 ∧
        (answer.2 = true → access.isWrite = true))
    (accepted : Accepted events (unit.alloc inst access).1)
    (happened : ∀ event ∈ events, event = .queued (unit.alloc inst access).1 ∨
      event = .sent (unit.alloc inst access).1 .bypass ∨
      event = .storeReq (unit.alloc inst access).1 inst.warpId ∧ inst.isStore = true)
    (settles : Counted cfg events next (unit.alloc inst access).1 → Settles cfg events next
        (unit.alloc inst access).1)
    (stores : ∀ w, next.books.storesOutstanding w = unit.books.storesOutstanding w +
        (storeReqsOf w events).length) :
    Balanced cfg (trace ++ events) next := by
  have grown : Grows (unit.alloc inst access).2 unit := grows_alloc
  have grows : Grows next unit := by
    refine ⟨?_, ?_⟩
    · rw [pool]
      exact grown.kinds
    · rw [insts]
      exact grown.inst
  have got : next.pool.get (unit.alloc inst access).1 = access := by
    rw [pool]
    exact get_alloc
  have whose : next.inst (unit.alloc inst access).1 = some inst := by
    rw [insts]
    exact Function.update_self ..
  have in_use : (unit.alloc inst access).1.serial < next.pool.nextSerial := by
    rw [pool]
    exact Nat.lt_succ_self _
  have write_iff := (accessType_memory served typed).1
  have fresh : unit.pool.nextSerial ≤ (unit.alloc inst access).1.serial := Nat.le_refl _
  have only : ∀ mf, Accepted events mf → mf = (unit.alloc inst access).1 := by
    rintro mf (member | member) <;> rcases happened _ member with same | same | ⟨same,
      -⟩ <;> cases same <;> rfl
  generalize (unit.alloc inst access).1 = r at *
  obtain ⟨unaccepted, nowhere⟩ := balanced.unused fresh
  have known : next.Known r := by
    refine ⟨in_use, inst, whose, served, ?_⟩
    rw [got]
    exact typed
  have apart : ∀ mf, Accepted trace mf → mf ≠ r := by
    rintro mf before rfl
    exact unaccepted before
  refine balanced.extend grows ?_ once ?_ ?_ ?_ ?_ ?_ ?_ ?_ ?_ ?_
  · rw [dispatch]
    exact balanced.dispatch
  · intro b s q held
    exact (queue b s q held).imp (fun before => ⟨b, s, before⟩) And.right
  · intro mf now
    rw [only mf now]
    exact ⟨fresh, known⟩
  · intro mf member
    exact .inl (l1d ▸ member)
  · intro mf pended
    exact .inl (l1d ▸ pended)
  · intro mf member
    rw [owed, fifo] at member
    simp only [List.mem_append] at member ⊢
    rcases member with (before | new) | before
    · exact .inl (.inl before)
    · obtain ⟨rfl, write⟩ := answers _ new
      exact .inr ⟨accepted_append.mpr (.inr accepted), got ▸ write rfl⟩
    · exact .inl (.inr before)
  · intro mf w member
    rcases member with member | member
    · rcases happened _ member with same | same | ⟨same, store⟩
      · cases same
      · cases same
      · obtain ⟨rfl, rfl⟩ := LdstEvent.storeReq.inj same
        refine ⟨accepted_append.mpr (.inr accepted), ?_, ?_⟩
        · rw [got]
          exact write_iff.trans store
        · rw [LdstUnit.wid, whose]
          rfl
    · rcases happened _ member with same | same | ⟨same, -⟩ <;> cases same
  · intro mf counted
    have before : Accepted trace mf := counted.way.imp_right And.left
    have other := apart mf before
    constructor
    · refine List.count_eq_zero.mpr fun member => ?_
      rcases happened _ member with same | same | ⟨same, -⟩
      · cases same
      · cases same
      · exact other (LdstEvent.storeReq.inj same).1
    · have no_ack : events.count (.storeAck mf (unit.wid mf)) = 0 := by
        refine List.count_eq_zero.mpr fun member => ?_
        rcases happened _ member with same | same | ⟨same, -⟩ <;> cases same
      have no_answer : more.count (mf, true) = 0 :=
        List.count_eq_zero.mpr fun member => other (answers _ member).1
      rw [no_ack, Nat.zero_add]
      refine toCome_congr ((balanced.accepted mf before).acksOf grows counted.write) ⟨?_, ?_⟩
        (by rw [l1d]) ?_
      · rintro ⟨b, s, held⟩
        exact ⟨b, s, (queue b s mf held).resolve_right fun ⟨same, _⟩ => other same⟩
      · rintro ⟨b, s, held⟩
        exact ⟨b, s, others b s mf held⟩
      · rw [owed, fifo, List.count_append, List.count_append, List.count_append, no_answer, Nat.add_zero]
  · intro mf counted
    obtain rfl := only mf (counted.way.imp_right And.left)
    exact settles counted
  · intro w
    have no_acks : storeAcksOf w events = [] := by
      refine List.eq_nil_iff_forall_not_mem.mpr fun mf member => ?_
      rw [← List.count_pos_iff, count_storeAcksOf, List.count_pos_iff] at member
      rcases happened _ member with same | same | ⟨same, -⟩ <;> cases same
    rw [no_acks, stores w, List.length_nil, Nat.add_zero]

variable {bank stage n : Nat}

theorem length_storeReqsOf_replicate (mf : MfId) (warpId : Nat) :
    (storeReqsOf w (List.replicate n (.storeReq mf warpId))).length = if warpId = w then n else 0 := by
  by_cases same : warpId = w <;> simp [storeReqsOf, same]

theorem length_storeAcksOf_replicate (mf : MfId) (warpId : Nat) :
    (storeAcksOf w (List.replicate n (.storeAck mf warpId))).length = if warpId = w then n else 0 := by
  by_cases same : warpId = w <;> simp [storeAcksOf, same]

/-- An access goes into the latency queue and is counted when it is a store. -/
theorem Balanced.enqueue (balanced : Balanced cfg trace unit) (served : inst.inMemoryCycle = true)
    (typed : inst.accessType = some access.accessType) (free : unit.latencyQueue bank stage = none)
    {slot next : LdstUnit}
      (entered : slot = (unit.alloc inst access).2.setQueued bank stage (some (unit.alloc inst access).1))
    (counted : slot.countQueued cfg inst (unit.alloc inst access).1 access.dataSize = (next, events)) :
    Balanced cfg (trace ++ .queued (unit.alloc inst access).1 :: events) next := by
  obtain ⟨n, rfl, rfl, size⟩ : ∃ n, next = { slot with books := slot.books.addStores inst.warpId n } ∧
      events = List.replicate n (.storeReq (unit.alloc inst access).1 inst.warpId) ∧
      n = if inst.isStore then cfg.incAck access.dataSize else 0 := by
    unfold countQueued at counted
    split at counted
    next store =>
      rw [incStoreReqs_eq] at counted
      cases counted
      exact ⟨_, rfl, rfl, (if_pos store).symm⟩
    next other =>
      cases counted
      exact ⟨0, by rw [LdstBooks.addStores_zero], rfl, (if_neg other).symm⟩
  subst entered
  obtain ⟨-, nowhere⟩ := @Balanced.unused cfg unit trace (unit.alloc inst access).1 balanced
    (Nat.le_refl _)
  refine @Balanced.accept cfg unit _ trace _ inst access [] balanced served typed rfl rfl rfl rfl ?_ ?_ ?_
    (List.append_nil _).symm rfl (by simp) (.inl List.mem_cons_self) ?_ ?_ ?_
  · intro b s b' s' q held held'
    simp only [latencyQueue_setQueued] at held held'
    split at held
    next here =>
      cases held
      split at held'
      next there => exact ⟨here.1.trans there.1.symm, here.2.trans there.2.symm⟩
      next => exact absurd ⟨b', s', held'⟩ nowhere.waiting
    next =>
      split at held'
      · cases held'
        exact absurd ⟨b, s, held⟩ nowhere.waiting
      · exact balanced.once b s b' s' q held held'
  · intro b s q held
    simp only [latencyQueue_setQueued] at held
    split at held
    · cases held
      exact .inr ⟨rfl, List.mem_cons_self⟩
    · exact .inl held
  · intro b s q held
    simp only [latencyQueue_setQueued]
    refine (if_neg ?_).trans held
    rintro ⟨rfl, rfl⟩
    rw [free] at held
    cases held
  · intro event member
    rcases List.mem_cons.mp member with rfl | member
    · exact .inl rfl
    · obtain ⟨some_req, rfl⟩ := List.mem_replicate.mp member
      refine .inr (.inr ⟨rfl, ?_⟩)
      by_contra other
      rw [if_neg other] at size
      exact some_req size
  · intro counted
    have got : ((unit.alloc inst access).2.pool.get (unit.alloc inst access).1) = access := get_alloc
    have whose : (unit.alloc inst access).2.inst (unit.alloc inst access).1 = some inst :=
      Function.update_self ..
    have write : access.isWrite = true := got ▸ counted.write
    have all : n = cfg.incAck access.dataSize :=
      size.trans (if_pos ((accessType_memory served typed).1.symm.trans write))
    generalize (unit.alloc inst access).1 = r at *
    have waits : Waiting { (unit.alloc inst access).2.setQueued bank stage (some r) with
        books := ((unit.alloc inst access).2.setQueued bank stage
          (some r)).books.addStores inst.warpId n } r :=
      ⟨bank, stage, (latencyQueue_setQueued (some r) bank stage).trans (if_pos ⟨rfl, rfl⟩)⟩
    have no_miss : unit.l1d.missQueue.count r = 0 := List.count_eq_zero.mpr nowhere.missQueue
    have no_answer : (unit.owed ++ unit.responseFifo).count (r, true) = 0 :=
      List.count_eq_zero.mpr nowhere.owed
    constructor
    · simp only [wid, acksOf, inst_setQueued, pool_setQueued, whose, got, Option.elim_some]
      rw [List.count_cons_of_ne (by simp), List.count_replicate_self, all]
    · rw [toCome, if_pos waits]
      simp only [wid, acksOf, inst_setQueued, pool_setQueued, whose, got, Option.elim_some]
      rw [List.count_cons_of_ne (by simp), List.count_eq_zero.mpr (by simp [List.mem_replicate])]
      change 0 + (_ * (1 + unit.l1d.missQueue.count r) + (unit.owed ++ unit.responseFifo).count
        (r, true)) = _
      rw [no_miss, no_answer]
      omega
  · intro w
    have reqs : (storeReqsOf w (.queued (unit.alloc inst access).1 ::
        List.replicate n
          (.storeReq (unit.alloc inst access).1 inst.warpId))).length = if inst.warpId = w then n else 0 :=
      length_storeReqsOf_replicate _ _
    rw [reqs]
    by_cases same : inst.warpId = w
    · subst same
      simp [LdstBooks.addStores, setQueued, alloc]
    · simp [LdstBooks.addStores, setQueued, alloc, Function.update_of_ne (Ne.symm same), same]

variable {banks : Nat}

theorem Balanced.queueAccesses (balanced : Balanced cfg trace unit) (served : inst.inMemoryCycle = true)
    (typed : ∀ access ∈ accessq, inst.accessType = some access.accessType)
    (done : unit.queueAccesses cfg inst banks accessq = .ok (rest, next, events)) :
    Balanced cfg (trace ++ events) next ∧ ∀ access ∈ rest, access ∈ accessq := by
  induction banks generalizing unit accessq trace events with
  | zero =>
      cases done
      rw [List.append_nil]
      exact ⟨balanced, fun _ member => member⟩
  | succ banks ih =>
      cases accessq with
      | nil =>
          cases done
          rw [List.append_nil]
          exact ⟨balanced, fun _ member => member⟩
      | cons access later =>
          simp only [LdstUnit.queueAccesses] at done
          split at done
          · cases done
          · split at done
            next free =>
              obtain ⟨⟨left, reached, more⟩, queued, done⟩ := bind_ok.mp done
              cases done
              have entered := balanced.enqueue served (typed access List.mem_cons_self) free rfl rfl
              obtain ⟨kept, subset⟩ := ih entered
                (fun a member => typed a (List.mem_cons_of_mem _ member)) queued
              refine ⟨?_, fun a member => List.mem_cons_of_mem _ (subset a member)⟩
              rw [List.append_assoc] at kept
              exact kept
            next =>
              cases done
              rw [List.append_nil]
              exact ⟨balanced, fun _ member => member⟩

theorem not_isWriteBack_of_memory {type : MemAccessType} (served : inst.inMemoryCycle = true)
    (typed : inst.accessType = some type) : type.isWriteBack = false := by
  unfold WarpInst.inMemoryCycle at served
  unfold WarpInst.accessType at typed
  cases space : inst.space <;> rw [space] at served typed <;> cases served
  all_goals
    obtain rfl := Option.some.inj typed
    cases inst.isStore <;> rfl

/-- What memory answers to a store is an acknowledgement for each request it stands for. -/
theorem answers_write {request : MemFetch} (write : request.isWrite = true) (forward : request.isWriteBack = false) :
    answers cfg mf request = List.replicate (cfg.incAck request.dataSize) (mf, true) := by
  simp [answers, write, forward]

theorem ack_of_answers {request : MemFetch} {q : MfId} (member : (q, true) ∈ answers cfg mf request) :
    q = mf ∧ request.isWrite = true ∧ request.isWriteBack = false := by
  unfold answers at member
  split at member
  · simp at member
  next write =>
    split at member
    · cases member
    next forward =>
      exact ⟨congrArg Prod.fst (List.mem_replicate.mp member).2, by simpa using write,
        by simpa using forward⟩

/-- An access goes around the cache. A store that is answered once is counted once. -/
theorem Balanced.sendAround (balanced : Balanced cfg trace unit) (served : inst.inMemoryCycle = true)
    (typed : inst.accessType = some access.accessType)
    (done : unit.sendAround cfg inst access = .ok (next, events)) : Balanced cfg
        (trace ++ events) next := by
  obtain ⟨n, rfl, rfl, size⟩ : ∃ n,
      next = { (unit.alloc inst access).2.push cfg (unit.alloc inst access).1 with
        books := ((unit.alloc inst access).2.push cfg
          (unit.alloc inst access).1).books.addStores inst.warpId n } ∧
      events = .sent (unit.alloc inst access).1 .bypass ::
        List.replicate n (.storeReq (unit.alloc inst access).1 inst.warpId) ∧
      n = if inst.isStore then 1 else 0 := by
    simp only [LdstUnit.sendAround] at done
    split at done
    next load =>
      split at done
      · cases done
        refine ⟨0, by rw [LdstBooks.addStores_zero], rfl, (if_neg fun store => ?_).symm⟩
        rw [WarpInst.not_isLoad_of_isStore store] at load
        cases load
      · cases done
    next =>
      split at done
      next store =>
        cases done
        exact ⟨1, rfl, rfl, (if_pos store).symm⟩
      next other =>
        cases done
        exact ⟨0, by rw [LdstBooks.addStores_zero], rfl, (if_neg other).symm⟩
  have got : (unit.alloc inst access).2.pool.get (unit.alloc inst access).1 = access := get_alloc
  obtain ⟨-, nowhere⟩ := @Balanced.unused cfg unit trace (unit.alloc inst access).1 balanced
    (Nat.le_refl _)
  refine @Balanced.accept cfg unit _ trace _ inst access
    (answers cfg (unit.alloc inst access).1 access) balanced served
    typed rfl rfl rfl rfl balanced.once (fun b s q held => .inl held) (fun b s q held => held) ?_ rfl ?_
    (.inr List.mem_cons_self) ?_ ?_ ?_
  · simp only [push, got]
    rfl
  · rintro ⟨q, ack⟩ member
    refine ⟨(mem_answers member).1, ?_⟩
    rintro rfl
    exact (ack_of_answers member).2.1
  · intro event member
    rcases List.mem_cons.mp member with rfl | member
    · exact .inr (.inl rfl)
    · obtain ⟨some_req, rfl⟩ := List.mem_replicate.mp member
      refine .inr (.inr ⟨rfl, ?_⟩)
      by_contra other
      rw [if_neg other] at size
      exact some_req size
  · intro counted
    have whose : (unit.alloc inst access).2.inst (unit.alloc inst access).1 = some inst :=
      Function.update_self ..
    have forward : access.isWriteBack = false := not_isWriteBack_of_memory served typed
    have one : cfg.incAck access.dataSize = 1 := by
      rcases counted.way with member | ⟨-, one⟩
      · simp [List.mem_replicate] at member
      · rw [← got]
        exact one
    have write : access.isWrite = true := got ▸ counted.write
    have once : n = 1 := size.trans (if_pos ((accessType_memory served typed).1.symm.trans write))
    have no_wait : ¬ Waiting { (unit.alloc inst access).2.push cfg (unit.alloc inst access).1 with
        books := ((unit.alloc inst access).2.push cfg
          (unit.alloc inst access).1).books.addStores inst.warpId n }
        (unit.alloc inst access).1 := nowhere.waiting
    have owed : (((unit.alloc inst access).2.push cfg (unit.alloc inst access).1).owed ++
        unit.responseFifo).count ((unit.alloc inst access).1, true) = 1 := by
      have before : (unit.owed ++ unit.responseFifo).count ((unit.alloc inst access).1, true) = 0 :=
        List.count_eq_zero.mpr nowhere.owed
      simp only [push, got, answers_write write forward, one, List.count_append,
        List.count_replicate_self] at before ⊢
      change unit.owed.count _ + 1 + unit.responseFifo.count _ = 1
      omega
    have no_miss : unit.l1d.missQueue.count (unit.alloc inst access).1 = 0 :=
      List.count_eq_zero.mpr nowhere.missQueue
    constructor
    · simp only [wid, acksOf, push, whose, got, Option.elim_some]
      rw [List.count_cons_of_ne (by simp), List.count_replicate_self, once, one]
    · rw [toCome, if_neg no_wait]
      simp only [wid, acksOf, push, whose, got, Option.elim_some, one]
      rw [List.count_cons_of_ne (by simp), List.count_eq_zero.mpr (by simp [List.mem_replicate])]
      change 0 + (1 * (0 + unit.l1d.missQueue.count _) + List.count _ (_ ++ unit.responseFifo)) = _
      rw [no_miss]
      simp only [push, got] at owed
      rw [owed]
  · intro w
    have reqs : (storeReqsOf w (.sent (unit.alloc inst access).1 .bypass ::
        List.replicate n
          (.storeReq (unit.alloc inst access).1 inst.warpId))).length = if inst.warpId = w then n else 0 :=
      length_storeReqsOf_replicate _ _
    rw [reqs]
    by_cases same : inst.warpId = w
    · subst same
      simp [LdstBooks.addStores, push, alloc]
    · simp [LdstBooks.addStores, push, alloc, Function.update_of_ne (Ne.symm same), same]

theorem Balanced.memoryCycle {icntFull : Bool} (balanced : Balanced cfg trace unit)
    (served : inst.inMemoryCycle = true) (typed : ∀ access ∈ accessq, inst.accessType = some access.accessType)
    (done : unit.memoryCycle cfg inst accessq icntFull = .ok (rest, next, events)) :
    Balanced cfg (trace ++ events) next ∧ ∀ access ∈ rest, access ∈ accessq := by
  unfold LdstUnit.memoryCycle at done
  split at done
  · cases done
    rw [List.append_nil]
    exact ⟨balanced, fun _ member => member⟩
  next access later =>
    split at done
    next around =>
      split at done
      · cases done
        rw [List.append_nil]
        exact ⟨balanced, fun _ member => member⟩
      · obtain ⟨⟨reached, more⟩, sent, done⟩ := bind_ok.mp done
        cases done
        exact ⟨balanced.sendAround served (typed access List.mem_cons_self) sent,
          fun a member => List.mem_cons_of_mem _ member⟩
    next direct =>
      split at done
      · cases done
      · exact balanced.queueAccesses served typed done

/-- A read of the constant or texture cache leaves the stores alone. -/
theorem Balanced.missReadOnly (balanced : Balanced cfg trace unit) (readSent : Bool)
    (elsewhere : inst.inMemoryCycle = false) (typed : inst.accessType = some access.accessType) :
    Balanced cfg (trace ++ (unit.missReadOnly cfg inst access readSent).2)
      (unit.missReadOnly cfg inst access readSent).1 := by
  unfold LdstUnit.missReadOnly
  dsimp only
  split
  · have grown : Grows (alloc inst access { unit with readOnlyMisses := inst :: unit.readOnlyMisses }).2
        { unit with readOnlyMisses := inst :: unit.readOnlyMisses } := grows_alloc
    have read : access.isWrite = false := by
      change access.accessType.isWrite = false
      rw [accessType_readOnly elsewhere typed]
      cases inst.inConstantCycle <;> rfl
    refine balanced.of_same ⟨grown.kinds, grown.inst⟩ balanced.dispatch balanced.once
      (fun mf => Iff.rfl) rfl
      (fun mf pended => pended) ?_ ?_ rfl
    · intro mf
      simp only [push, get_alloc, answers, read, List.count_append]
      simp [alloc]
    · intro event member
      rw [List.mem_singleton.mp member]
      refine ⟨fun mf => ⟨by simp, ?_, by simp⟩, by simp⟩
      cases inst.inConstantCycle <;> simp
  · exact balanced.of_books rfl rfl balanced.dispatch rfl rfl rfl (fun mf => rfl) (by simp) rfl

theorem Balanced.readOnlyCycle {status : CacheRequestStatus} {readSent : Bool} (balanced : Balanced cfg trace unit)
    (elsewhere : inst.inMemoryCycle = false) (typed : ∀ access ∈ accessq, inst.accessType = some access.accessType)
    (done : unit.readOnlyCycle cfg inst accessq status readSent = .ok (rest, next, events)) :
    Balanced cfg (trace ++ events) next ∧ ∀ access ∈ rest, access ∈ accessq := by
  have hit : Balanced cfg (trace ++ [])
      { unit with books := if inst.isLoad then unit.books.hitReadOnly inst else unit.books } := by
    refine balanced.of_books rfl rfl balanced.dispatch rfl rfl rfl (fun mf => rfl) (by simp) ?_
    dsimp only
    split
    · exact LdstBooks.storesOutstanding_hitReadOnly
    · rfl
  have stays : Balanced cfg (trace ++ []) unit := by rwa [List.append_nil]
  simp only [LdstUnit.readOnlyCycle] at done
  split at done
  · cases done
    exact ⟨hit, fun access none => absurd none List.not_mem_nil⟩
  · split at done
    · cases done
      exact ⟨stays, fun access none => absurd none List.not_mem_nil⟩
    next access later =>
      have missed := balanced.missReadOnly readSent elsewhere (typed access List.mem_cons_self)
      generalize unit.missReadOnly cfg inst access readSent = outcome at missed done
      obtain ⟨missing, sent⟩ := outcome
      split at done
      · split at done
        · cases done
        · cases done
          exact ⟨hit, fun a member => List.mem_cons_of_mem _ member⟩
      · split at done
        · cases done
        · cases done
          exact ⟨stays, fun a member => member⟩
      · cases done
        exact ⟨missed, fun a member => List.mem_cons_of_mem _ member⟩
      · cases done
        exact ⟨missed, fun a member => List.mem_cons_of_mem _ member⟩
      · cases done

/-- Only the books of the loads, the dispatch register and the accesses in it change. -/
theorem Balanced.leaveDispatch (balanced : Balanced cfg trace unit)
    (typed : ∀ access ∈ rest, inst.accessType = some access.accessType) :
    Balanced cfg trace (unit.leaveDispatch inst rest) := by
  unfold LdstUnit.leaveDispatch
  split
  · let books := if inst.isLoad then (unit.books.dispatchLoad inst).1 else unit.books
    have left := @Balanced.of_books cfg unit { unit with books := books, dispatchReg := none } trace []
      balanced rfl rfl nofun rfl rfl rfl (fun mf => rfl) nofun (by
        change (if inst.isLoad then _ else _ : LdstBooks).storesOutstanding = _
        split
        · exact LdstBooks.storesOutstanding_dispatchLoad
        · rfl)
    rwa [List.append_nil] at left
  · have held := @Balanced.of_books cfg unit { unit with dispatchReg := some (inst, rest) } trace []
      balanced rfl rfl
      (by
        rintro i q held access member
        cases held
        exact typed access member) rfl rfl rfl (fun mf => rfl) nofun rfl
    rwa [List.append_nil] at held

variable {c : DataCacheConfig} {q : MfId} {own time : Nat} {l1d : DataCache} {pool : MfPool} {books : LdstBooks}

/-- Among the requests in use, only the one that is served goes into the miss queue. -/
theorem count_sends (sends : Sends c unit.l1d unit.pool mf l1d pool own) (in_use : q.serial < unit.pool.nextSerial) :
    l1d.missQueue.count q = unit.l1d.missQueue.count q + if q = mf then own else 0 := by
  obtain ⟨sent, queue, count, each⟩ := sends.queue
  rw [queue, List.count_append]
  congr 1
  split
  next same => rw [same, count]
  next other =>
    refine List.count_eq_zero.mpr fun member => ?_
    rcases each q member with same | made
    · exact other same
    · exact absurd in_use (Nat.not_lt.mpr made.fresh)

/-- What the L1 data cache puts into the miss queue is the request or its own, which memory does not
acknowledge. -/
theorem Balanced.mem_sends (balanced : Balanced cfg trace unit) (present : cfg.l1d = some c)
    (queued : unit.latencyQueue bank 0 = some mf) (sends : Sends c unit.l1d unit.pool mf l1d pool own) :
    ∀ q ∈ l1d.missQueue, q ∈ unit.l1d.missQueue ∨ q.serial < pool.nextSerial ∧
      ((pool.get q).isWrite = true → (pool.get q).isWriteBack = false → .queued q ∈ trace) := by
  intro q member
  obtain ⟨sent, queue, -, each⟩ := sends.queue
  rw [queue] at member
  rcases List.mem_append.mp member with before | new
  · exact .inl before
  · rcases each q new with rfl | made
    · have known := balanced.accepted q (.inl (balanced.queued _ _ _ queued))
      exact .inr ⟨Nat.lt_of_lt_of_le known.in_use sends.kinds.nextSerial,
        fun _ _ => balanced.queued _ _ _ queued⟩
    · refine .inr ⟨made.in_use, fun write forward => ?_⟩
      obtain ⟨alloc, wrbk⟩ := cfg.own_requests c present
      rcases made.kind with kind | kind
      · have read : (pool.get q).isWrite = MemAccessType.isWrite .l1WrAllocR :=
          congrArg MemAccessType.isWrite (kind.trans alloc)
        rw [write] at read
        cases read
      · have back : (pool.get q).isWriteBack = MemAccessType.isWriteBack .l1WrbkAcc :=
          congrArg MemAccessType.isWriteBack (kind.trans wrbk)
        rw [forward] at back
        cases back

/-- A request that leaves the latency queue is in the miss queue or has been acknowledged. -/
theorem Balanced.leaves (balanced : Balanced cfg trace unit) (acks : Nat) (present : cfg.l1d = some c)
    (queued : unit.latencyQueue bank 0 = some mf) (sends : Sends c unit.l1d unit.pool mf l1d pool own)
    (settled : (unit.pool.get mf).isWrite = true → acks + unit.acksOf cfg mf * own = unit.acksOf cfg mf)
    (read : (unit.pool.get mf).isWrite = false → acks = 0)
        (enough : acks ≤ unit.books.storesOutstanding (unit.wid mf))
    (stores : books.storesOutstanding = (unit.books.subStores (unit.wid mf) acks).storesOutstanding) :
    Balanced cfg (trace ++ .left mf :: List.replicate acks (.storeAck mf (unit.wid mf)))
      { ({ unit with l1d := l1d, pool := pool }.setQueued bank 0 none) with books := books } := by
  have known := balanced.accepted mf (.inl (balanced.queued _ _ _ queued))
  have grows : Grows
    { ({ unit with l1d := l1d, pool := pool }.setQueued bank 0 none) with books := books } unit :=
    ⟨sends.kinds, fun _ _ => rfl⟩
  have place : ∀ b s q,
    ({ unit with l1d := l1d, pool := pool }.setQueued bank 0 none).latencyQueue b s = some q →
      ¬ (b = bank ∧ s = 0) ∧ unit.latencyQueue b s = some q := by
    intro b s q held
    rw [latencyQueue_setQueued] at held
    split at held
    · cases held
    next elsewhere => exact ⟨elsewhere, held⟩
  refine balanced.keep grows balanced.dispatch ?_ ?_ (balanced.mem_sends present queued sends) ?_
    (fun q member => .inl member) ?_ ?_ ?_ ?_
  · intro b s b' s' q held held'
    exact balanced.once b s b' s' q (place b s q held).2 (place b' s' q held').2
  · intro b s q held
    exact ⟨b, s, (place b s q held).2⟩
  · intro q pended
    exact (sends.pending q pended).imp_right fun ⟨read, in_use⟩ => ⟨in_use, read⟩
  · intro event member
    rcases List.mem_cons.mp member with rfl | member
    · intro q
      simp
    · obtain ⟨-, rfl⟩ := List.mem_replicate.mp member
      intro q
      simp
  · intro q w member
    rcases List.mem_cons.mp member with same | member
    · cases same
    · obtain ⟨some_ack, same⟩ := List.mem_replicate.mp member
      obtain ⟨rfl, rfl⟩ := LdstEvent.storeAck.inj same
      refine ⟨.inl (balanced.queued _ _ _ queued), ?_, rfl⟩
      cases write : (unit.pool.get q).isWrite with
      | true => rfl
      | false => exact absurd (read write) some_ack
  · intro q counted
    have q_known := balanced.accepted q (counted.way.imp_right And.left)
    have same_acks := @Known.acksOf cfg _ _ _ q_known grows counted.write
    have missQueue := count_sends sends q_known.in_use
    by_cases same : q = mf
    · subst same
      have waited : unit.Waiting q := ⟨bank, 0, queued⟩
      have gone : ¬ Waiting
        { ({ unit with l1d := l1d, pool := pool }.setQueued bank 0 none) with books := books } q := by
        rintro ⟨b, s, held⟩
        obtain ⟨elsewhere, before⟩ := place b s q held
        exact elsewhere (balanced.once b s bank 0 q before queued)
      have acked : (LdstEvent.left q :: List.replicate acks (.storeAck q (unit.wid q))).count
          (.storeAck q (unit.wid q)) = acks := by
        rw [List.count_cons_of_ne (by simp), List.count_replicate_self]
      rw [acked, toCome, toCome, if_neg gone, if_pos waited, same_acks]
      simp only [l1d_setQueued, missQueue, if_true]
      change acks + (_ * (0 + (_ + own)) + List.count _ (unit.owed ++ unit.responseFifo)) = _
      have all := settled counted.write
      simp only [Nat.mul_add, Nat.mul_zero, Nat.mul_one]
      omega
    · have unacked : (LdstEvent.left mf :: List.replicate acks (.storeAck mf (unit.wid mf))).count
          (.storeAck q (unit.wid q)) = 0 := by
        refine List.count_eq_zero.mpr fun member => ?_
        rcases List.mem_cons.mp member with eq | member
        · cases eq
        · exact same (LdstEvent.storeAck.inj (List.mem_replicate.mp member).2).1
      rw [unacked, Nat.zero_add]
      refine toCome_congr same_acks ⟨?_, ?_⟩ ?_ rfl
      · rintro ⟨b, s, held⟩
        exact ⟨b, s, (place b s q held).2⟩
      · rintro ⟨b, s, held⟩
        refine ⟨b, s, (latencyQueue_setQueued none b s).trans ((if_neg ?_).trans held)⟩
        rintro ⟨rfl, rfl⟩
        rw [queued] at held
        exact same (Option.some.inj held).symm
      · rw [if_neg same, Nat.add_zero] at missQueue
        exact missQueue
  · intro w
    have acked : (storeAcksOf w (.left mf :: List.replicate acks (.storeAck mf (unit.wid mf)))).length =
        if unit.wid mf = w then acks else 0 := length_storeAcksOf_replicate _ _
    rw [acked, stores]
    by_cases same : unit.wid mf = w
    · subst same
      simp only [LdstBooks.subStores, Function.update_self, if_true]
      omega
    · simp only [LdstBooks.subStores, Function.update_of_ne (Ne.symm same), if_neg same, Nat.add_zero]

variable {acks : Nat}

/-- A request that is refused stays in the latency queue. -/
theorem Balanced.refused (balanced : Balanced cfg trace unit) (present : cfg.l1d = some c)
    (queued : unit.latencyQueue bank 0 = some mf) (sends : Sends c unit.l1d unit.pool mf l1d pool own)
    (unsent : (unit.pool.get mf).isWrite = true → own = 0) :
    Balanced cfg (trace ++ []) { unit with l1d := l1d, pool := pool } := by
  have grows : Grows { unit with l1d := l1d, pool := pool } unit := ⟨sends.kinds, fun _ _ => rfl⟩
  refine balanced.keep grows balanced.dispatch balanced.once (fun b s q held => ⟨b, s, held⟩)
    (balanced.mem_sends present queued sends) ?_ (fun q member => .inl member) nofun nofun ?_
        (fun w => rfl)
  · intro q pended
    exact (sends.pending q pended).imp_right fun ⟨read, in_use⟩ => ⟨in_use, read⟩
  · intro q counted
    have known := balanced.accepted q (counted.way.imp_right And.left)
    rw [List.count_nil, Nat.zero_add]
    refine toCome_congr (known.acksOf grows counted.write) Iff.rfl ?_ rfl
    rw [count_sends sends known.in_use]
    split
    next same =>
      rw [unsent (same ▸ counted.write)]
      rfl
    next => rfl

/-- The steps in which a store that the policy keeps in the cache leaves the latency queue on a hit. -/
def KeptStep (cfg : LdstConfig) (unit : LdstUnit) (events : List LdstEvent) (next : LdstUnit) : Prop :=
  LdstStep cfg unit events next ∧ ∀ c ∈ cfg.l1d, c.writeAllocPolicy.absorbs = true → ∀ mf,
    .left mf ∈ events →
    (unit.pool.get mf).isWrite = true → DataCache.Present c unit.l1d (unit.pool.get mf)

theorem Balanced.serveQueued (balanced : Balanced cfg trace unit) (present : cfg.l1d = some c)
    (queued : unit.latencyQueue bank 0 = some mf) (done : unit.serveQueued c cfg bank mf time = .ok (next, events))
    (hits : c.writeAllocPolicy.absorbs = true → .left mf ∈ events → (unit.pool.get mf).isWrite = true →
      DataCache.Present c unit.l1d (unit.pool.get mf)) : Balanced cfg (trace ++ events) next := by
  obtain ⟨in_use, inst, whose, served, typed⟩ := balanced.accepted mf
    (.inl (balanced.queued _ _ _ queued))
  have store_iff := (accessType_memory served typed).1
  have wid : unit.wid mf = inst.warpId := by
    rw [LdstUnit.wid, whose]
    rfl
  have reads : c.wrAllocType.isWrite = false := by
    rw [(cfg.own_requests c present).1]
    rfl
  obtain ⟨result, asked, accessed, rfl, outcome⟩ := serveQueued_ok whose done
  cases write : (unit.pool.get mf).isWrite with
  | false =>
      obtain ⟨own, -, sends⟩ := DataCache.ReadWrite.access_sends_read write in_use accessed
      have no_store : inst.isStore = false := store_iff.symm.trans write
      have left : ∀ {books : LdstBooks}, books.storesOutstanding = unit.books.storesOutstanding →
          Balanced cfg (trace ++ [.left mf])
            { ({ unit with l1d := result.cache, pool := result.pool }.setQueued bank 0 none) with
              books := books } := by
        intro books same
        refine balanced.leaves 0 present queued sends ?_ (fun _ => rfl) (Nat.zero_le _) ?_
        · intro written
          rw [write] at written
          cases written
        · rw [LdstBooks.subStores_zero, same]
      rcases outcome with ⟨-, -, rfl, rfl⟩ | ⟨-, books, completions, acks, hit, size, -, rfl, rfl⟩ |
        ⟨-, rfl, rfl⟩
      · refine balanced.refused present queued sends ?_
        intro written
        rw [write] at written
        cases written
      · obtain rfl : acks = 0 := by
          rw [size, no_store]
          rfl
        rw [LdstBooks.subStores_zero]
        exact left (LdstBooks.storesOutstanding_hitQueued hit)
      · exact left rfl
  | true =>
      obtain ⟨sending, present_hits, -⟩ :=
        DataCache.ReadWrite.access_sends_write reads write in_use accessed
      have store : inst.isStore = true := store_iff.symm.trans write
      have same_size : (result.pool.get mf).dataSize = (unit.pool.get mf).dataSize :=
        congrArg MemFetch.dataSize (sending.sends.kinds.write mf in_use write)
      rcases outcome with ⟨-, unsent, rfl, rfl⟩ | ⟨-, books, completions, acks, hit, size, enough, rfl,
        rfl⟩ |
        ⟨missed, rfl, rfl⟩
      · refine balanced.refused present queued sending.sends fun _ => ?_
        rw [unsent]
        rfl
      · have outstanding := LdstBooks.storesOutstanding_hitQueued hit
        rw [← wid] at enough ⊢
        refine balanced.leaves acks present queued sending.sends (fun _ => ?_) ?_
          (outstanding ▸ enough) ?_
        · rw [size, store, same_size]
          cases wasWriteSent result.events <;> simp [acksOf]
        · intro read
          rw [write] at read
          cases read
        · simp only [LdstBooks.subStores, outstanding]
      · have miss : result.status = .miss := by
          rcases sending.status with status | status | status <;> rw
            [status] at missed ⊢ <;> simp at missed
        have sent : wasWriteSent result.events = true := by
          rw [sending.missed miss]
          cases absorbs : c.writeAllocPolicy.absorbs with
          | false => rfl
          | true => exact absurd miss (present_hits (hits absorbs List.mem_cons_self write))
        refine balanced.leaves 0 present queued sending.sends (fun _ => ?_) (fun _ => rfl)
          (Nat.zero_le _) ?_
        · rw [sent]
          simp
        · rw [LdstBooks.subStores_zero]

end LdstUnit

namespace LdstUnit

variable {cfg : LdstConfig} {c : DataCacheConfig} {unit next : LdstUnit} {trace events : List LdstEvent}
  {mf q : MfId} {time bank : Nat} {rest : List (MfId × Bool)}

/-- A request moves to a place that is free. -/
theorem Balanced.shiftStage (balanced : Balanced cfg trace unit) (stage : Nat) :
    Balanced cfg trace (unit.shiftStage bank stage) := by
  unfold LdstUnit.shiftStage
  split
  next free =>
    have place : ∀ b s q,
      ((unit.setQueued bank stage (unit.latencyQueue bank (stage + 1))).setQueued bank (stage + 1)
        none).latencyQueue b s = some q ↔
        (b = bank ∧ s = stage ∧ unit.latencyQueue bank (stage + 1) = some q) ∨
          (¬ (b = bank ∧ (s = stage ∨ s = stage + 1)) ∧ unit.latencyQueue b s = some q) := by
      intro b s q
      simp only [latencyQueue_setQueued]
      by_cases here : b = bank
      · subst here
        by_cases front : s = stage
        · subst front
          simp
        · by_cases behind : s = stage + 1 <;> simp [front, behind]
      · simp [here]
    have moved := @Balanced.of_same cfg unit
      ((unit.setQueued bank stage (unit.latencyQueue bank (stage + 1))).setQueued bank
        (stage + 1) none) trace [] balanced
      (.same rfl rfl) balanced.dispatch ?_ ?_ rfl (fun q pended => pended) (fun q => rfl) nofun rfl
    · rwa [List.append_nil] at moved
    · intro b s b' s' q held held'
      rcases (place b s q).mp held with ⟨rfl, rfl, before⟩ | ⟨elsewhere, before⟩
      · rcases (place b' s' q).mp held' with ⟨rfl, rfl, -⟩ | ⟨elsewhere, before'⟩
        · exact ⟨rfl, rfl⟩
        · obtain ⟨rfl, rfl⟩ := balanced.once _ _ _ _ q before before'
          exact absurd ⟨rfl, .inr rfl⟩ elsewhere
      · rcases (place b' s' q).mp held' with ⟨rfl, rfl, before'⟩ | ⟨-, before'⟩
        · obtain ⟨rfl, rfl⟩ := balanced.once _ _ _ _ q before before'
          exact absurd ⟨rfl, .inr rfl⟩ elsewhere
        · exact balanced.once _ _ _ _ q before before'
    · intro q
      constructor
      · rintro ⟨b, s, held⟩
        rcases (place b s q).mp held with ⟨rfl, rfl, before⟩ | ⟨-, before⟩
        · exact ⟨_, _, before⟩
        · exact ⟨_, _, before⟩
      · rintro ⟨b, s, held⟩
        by_cases here : b = bank ∧ (s = stage ∨ s = stage + 1)
        · obtain ⟨rfl, rfl | rfl⟩ := here
          · rw [free] at held
            cases held
          · exact ⟨b, stage, (place _ _ _).mpr (.inl ⟨rfl, rfl, held⟩)⟩
        · exact ⟨b, s, (place _ _ _).mpr (.inr ⟨here, held⟩)⟩
  next => exact balanced

theorem Balanced.latencyQueueBank (balanced : Balanced cfg trace unit) (present : cfg.l1d = some c)
    (done : unit.latencyQueueBank c cfg time bank = .ok (next, events))
    (hits : c.writeAllocPolicy.absorbs = true → ∀ mf, .left mf ∈ events →
        (unit.pool.get mf).isWrite = true →
      DataCache.Present c unit.l1d (unit.pool.get mf)) : Balanced cfg (trace ++ events) next := by
  obtain ⟨⟨served, more⟩, first, done⟩ := bind_ok.mp done
  have front : events = more → Balanced cfg (trace ++ more) served := by
    rintro rfl
    unfold LdstUnit.serveBank at first
    split at first
    · cases first
      rwa [List.append_nil]
    next mf queued => exact balanced.serveQueued present queued first fun absorbs => hits absorbs mf
  cases done
  induction cfg.l1Latency - 1 with
  | zero => exact front rfl
  | succ stages ih =>
      rw [List.range_succ, List.foldl_append]
      exact ih.shiftStage stages

/-- A request that is sent is answered, a store with its acknowledgements. -/
theorem Balanced.l1dCycle (balanced : Balanced cfg trace unit) (memportFull : Bool) :
    Balanced cfg (trace ++ (unit.l1dCycle cfg memportFull).2) (unit.l1dCycle cfg memportFull).1 := by
  have extras : (unit.l1d.cycle memportFull).extraMfFields = unit.l1d.extraMfFields :=
    (Outstanding.cycle_same memportFull unit.l1d).1.extraMfFields
  unfold LdstUnit.l1dCycle
  split
  next empty =>
    refine balanced.of_books rfl rfl balanced.dispatch rfl ?_ extras (fun q => rfl) nofun rfl
    simp only [DataCache.cycle, empty]
    exact empty
  next mf later front =>
    cases memportFull with
    | true =>
        refine balanced.of_books rfl rfl balanced.dispatch rfl ?_ extras (fun q => rfl) nofun rfl
        simp only [DataCache.cycle, front, if_true]
        exact front
    | false =>
        have queue : (unit.l1d.cycle false).missQueue = later := by
          simp only [DataCache.cycle, front]
          rfl
        obtain ⟨in_use, sent⟩ := balanced.missQueue mf (by rw [front]; exact List.mem_cons_self)
        rw [if_neg Bool.false_ne_true]
        refine balanced.keep (.same rfl rfl) balanced.dispatch balanced.once
          (fun b s q held => ⟨b, s, held⟩) ?_ ?_ ?_ ?_
          (fun q w member => by simp at member) ?_ (fun w => rfl)
        · intro q member
          refine .inl ?_
          rw [front, ← queue]
          exact List.mem_cons_of_mem _ member
        · exact fun q pended => .inl (extras ▸ pended)
        · intro q member
          simp only [push, List.mem_append] at member ⊢
          rcases member with (before | new) | before
          · exact .inl (.inl before)
          · obtain ⟨rfl, write, forward⟩ := ack_of_answers new
            exact .inr ⟨.inl (sent write forward), write⟩
          · exact .inl (.inr before)
        · intro event member
          rw [List.mem_singleton.mp member]
          intro q
          simp
        · intro q counted
          have known := balanced.accepted q (counted.way.imp_right And.left)
          have answered : (answers cfg mf (unit.pool.get mf)).count
            (q, true) = if mf = q then unit.acksOf cfg q else 0 := by
            split
            next same =>
              subst same
              obtain ⟨inst, -, served, typed⟩ := known.inst
              rw [answers_write counted.write (not_isWriteBack_of_memory served typed),
                List.count_replicate_self]
              rfl
            next other => exact List.count_eq_zero.mpr fun member => other (ack_of_answers member).1.symm
          have queued : unit.l1d.missQueue.count q = later.count q + if mf = q then 1 else 0 := by
            rw [front, List.count_cons]
            simp only [beq_iff_eq]
          have unacked : [LdstEvent.sent mf .l1d].count (.storeAck q (unit.wid q)) = 0 := by simp
          rw [unacked]
          refine toCome_moved rfl Iff.rfl ?_
          simp only [push, queue, List.count_append, answered, queued]
          split <;> simp only [Nat.mul_add, Nat.mul_one, Nat.mul_zero] <;> omega

theorem Balanced.responseCycle {portFree : Bool} (balanced : Balanced cfg trace unit)
    (done : unit.responseCycle cfg portFree time = .ok (next, events)) : Balanced cfg
        (trace ++ events) next := by
  have stays : Balanced cfg (trace ++ []) unit := by rwa [List.append_nil]
  unfold LdstUnit.responseCycle at done
  split at done
  · cases done
    exact stays
  next mf ack rest front =>
    -- a reply to a read is no acknowledgement
    have acknowledges : ack = true → (unit.pool.get mf).isWrite = true := by
      rintro rfl
      refine (balanced.owed mf (List.mem_append_right _ ?_)).2
      rw [front]
      exact List.mem_cons_self
    have delivered : ∀ {requester nextGlobal}, ack = false →
        Balanced cfg (trace ++ [.delivered mf requester])
          { unit with responseFifo := rest, nextGlobal := nextGlobal } := by
      rintro requester nextGlobal rfl
      refine balanced.of_books rfl rfl balanced.dispatch rfl rfl rfl (fun q => ?_) ?_ rfl
      · simp only [front, List.count_append]
        rw [List.count_cons_of_ne (by simp)]
      · intro event member
        rw [List.mem_singleton.mp member]
        exact ⟨by intro q; simp, by simp⟩
    have read_type : ∀ type, (unit.pool.get mf).accessType = type → type.isWrite = false →
      ack = false := by
      intro type kind read
      have same : (unit.pool.get mf).isWrite = type.isWrite := congrArg MemAccessType.isWrite kind
      cases ack with
      | false => rfl
      | true =>
          rw [read, acknowledges rfl] at same
          cases same
    dsimp only at done
    split at done
    next texture =>
      split at done
      · cases done
        exact delivered (read_type _ texture rfl)
      · cases done
        exact stays
    next =>
      split at done
      next const =>
        split at done
        · cases done
          exact delivered (read_type _ const rfl)
        · cases done
          exact stays
      next =>
        split at done
        next acked =>
          obtain rfl := acked
          obtain ⟨enough, rfl, rfl⟩ := storeAcks_ok done
          obtain ⟨accepted, write⟩ := balanced.owed mf
            (List.mem_append_right _ (by rw [front]; exact List.mem_cons_self))
          have fifo : ∀ q, unit.responseFifo.count (q, true) = rest.count
            (q, true) + if mf = q then 1 else 0 := by
            intro q
            rw [front, List.count_cons]
            by_cases same : mf = q <;> simp [same]
          refine balanced.keep (.same rfl rfl) balanced.dispatch balanced.once
            (fun b s q held => ⟨b, s, held⟩)
            (fun q member => .inl member) (fun q pended => .inl pended) ?_ ?_ ?_ ?_ ?_
          · intro q member
            refine .inl ?_
            rw [front]
            rcases List.mem_append.mp member with before | before
            · exact List.mem_append_left _ before
            · exact List.mem_append_right _ (List.mem_cons_of_mem _ before)
          · intro event member
            rw [(List.mem_replicate.mp member).2]
            intro q
            simp
          · intro q w member
            obtain ⟨rfl, rfl⟩ := LdstEvent.storeAck.inj (List.mem_replicate.mp member).2
            exact ⟨accepted, write, rfl⟩
          · intro q counted
            have known := balanced.accepted q (counted.way.imp_right And.left)
            have acked : (List.replicate 1 (LdstEvent.storeAck mf (unit.wid mf))).count
              (.storeAck q (unit.wid q)) =
                if mf = q then 1 else 0 := by
              by_cases same : mf = q
              · subst same
                simp
              · simp [same]
            rw [acked]
            refine toCome_moved rfl Iff.rfl ?_
            simp only [List.count_append, fifo q]
            omega
          · intro w
            have positive : 1 ≤ unit.books.storesOutstanding (unit.wid mf) := enough
            rw [length_storeAcksOf_replicate]
            by_cases same : unit.wid mf = w
            · subst same
              simp only [LdstBooks.subStores, Function.update_self, if_true]
              exact Nat.sub_add_cancel positive
            · simp only
                [LdstBooks.subStores, Function.update_of_ne (Ne.symm same), if_neg same, Nat.add_zero]
        next read =>
          rw [Bool.not_eq_true] at read
          split at done
          · cases done
          · split at done
            · split at done
              · cases done
                exact delivered read
              · cases done
                exact stays
            · split at done
              · split at done
                · cases done
                next c present =>
                  split at done
                  · cases done
                  next l1d pool filled =>
                    cases done
                    obtain ⟨kinds, serial, queue, extras⟩ :=
                      DataCache.fill_sends (fun q pending => (balanced.pending q pending).2) filled
                    have filling := @delivered .l1d unit.nextGlobal read
                    rw [← List.append_nil (trace ++ [LdstEvent.delivered mf .l1d])]
                    exact filling.of_same ⟨kinds, fun _ _ => rfl⟩ filling.dispatch filling.once
                      (fun q => Iff.rfl) queue extras
                      (fun q => rfl) (fun _ none => absurd none List.not_mem_nil) rfl
              · cases done
                exact stays

theorem Balanced.step (balanced : Balanced cfg trace unit) (stepped : KeptStep cfg unit events next) :
    Balanced cfg (trace ++ events) next := by
  obtain ⟨stepped, hits⟩ := stepped
  cases stepped with
  | @issue inst accessq books free space typed counted =>
      refine balanced.of_books rfl rfl ?_ rfl rfl rfl (fun mf => rfl) nofun ?_
      · rintro i q held
        cases held
        exact typed
      · split at counted
        · exact LdstBooks.storesOutstanding_issueLoad counted
        · cases counted
          rfl
  | memory held served done =>
      obtain ⟨kept, subset⟩ := balanced.memoryCycle served (balanced.dispatch _ _ held) done
      exact kept.leaveDispatch fun access member => balanced.dispatch _ _ held access
        (subset access member)
  | readOnly held elsewhere done =>
      obtain ⟨kept, subset⟩ := balanced.readOnlyCycle elsewhere (balanced.dispatch _ _ held) done
      exact kept.leaveDispatch fun access member => balanced.dispatch _ _ held access
        (subset access member)
  | latencyQueue present inside done => exact balanced.latencyQueueBank present done (hits _ present)
  | l1d memportFull => exact balanced.l1dCycle memportFull
  | reply arrives =>
      refine balanced.of_books rfl rfl balanced.dispatch rfl rfl rfl (fun mf => ?_) nofun rfl
      simp only [arrives, List.count_append, List.count_cons, List.count_nil]
      omega
  | response done => exact balanced.responseCycle done
  | writeback held done =>
      exact balanced.of_books rfl rfl balanced.dispatch rfl rfl rfl (fun mf => rfl) nofun
        (LdstBooks.storesOutstanding_writeback done)
  | takeGlobal free held =>
      exact balanced.of_books rfl rfl balanced.dispatch rfl rfl rfl (fun mf => rfl) nofun rfl
  | takeL1d free done =>
      obtain ⟨⟨first, mshrs⟩, -, done⟩ := bind_ok.mp done
      cases done
      exact balanced.of_books rfl rfl balanced.dispatch rfl rfl rfl (fun mf => rfl) nofun rfl
  | takeReadOnly free held =>
      exact balanced.of_books rfl rfl balanced.dispatch rfl rfl rfl (fun mf => rfl) nofun rfl

/-- When nothing is to come for any store of a warp, its stores are done. -/
theorem Balanced.storesDone {w : Nat} (balanced : Balanced cfg trace unit)
    (around : ∀ mf, .sent mf .bypass ∈ trace → (unit.pool.get mf).isWrite = true → unit.wid mf = w →
      unit.acksOf cfg mf = 1)
    (served : ∀ mf, Accepted trace mf → (unit.pool.get mf).isWrite = true → unit.wid mf = w →
        unit.Served mf) :
    unit.StoresDone w := by
  have equal : ∀ mf, trace.count (.storeReq mf w) = trace.count (.storeAck mf w) := by
    intro mf
    by_cases happened : .storeReq mf w ∈ trace ∨ .storeAck mf w ∈ trace
    · obtain ⟨accepted, write, rfl⟩ := balanced.events mf w happened
      have counted : Counted cfg trace unit mf :=
        ⟨write, accepted.imp_right fun sent => ⟨sent, around mf sent write rfl⟩⟩
      obtain ⟨reqs, acks⟩ := balanced.settles mf counted
      rw [(served mf accepted write rfl).toCome, Nat.add_zero] at acks
      exact reqs.trans acks.symm
    · obtain ⟨no_req, no_ack⟩ := not_or.mp happened
      rw [List.count_eq_zero.mpr no_req, List.count_eq_zero.mpr no_ack]
  have same : (storeReqsOf w trace).length = (storeAcksOf w trace).length := by
    refine (List.perm_iff_count.mpr fun mf => ?_).length_eq
    rw [count_storeReqsOf, count_storeAcksOf, equal mf]
  have all := balanced.warps w
  rw [StoresDone]
  omega

/-- When the stores that an absorbing policy keeps leave the latency queue on hits, every store of the
latency queue is counted as often as it is acknowledged and is to be acknowledged, and a warp whose stores
are all served has no store outstanding. -/
theorem stores_balance (c : CacheConfig) (run : Reaches (KeptStep cfg) (create c) trace unit) :
    (∀ mf, .queued mf ∈ trace → (unit.pool.get mf).isWrite = true →
      trace.count (.storeReq mf (unit.wid mf)) = unit.acksOf cfg mf ∧
      trace.count (.storeAck mf (unit.wid mf)) + unit.toCome cfg mf = unit.acksOf cfg mf ∧
      (unit.Served mf →
        trace.count (.storeReq mf (unit.wid mf)) = trace.count (.storeAck mf (unit.wid mf)))) ∧
      ∀ w, (∀ mf, .sent mf .bypass ∈ trace → (unit.pool.get mf).isWrite = true → unit.wid mf = w →
          unit.acksOf cfg mf = 1) →
        (∀ mf, Accepted trace mf → (unit.pool.get mf).isWrite = true → unit.wid mf = w → unit.Served mf) →
        unit.StoresDone w := by
  have balanced : Balanced cfg trace unit :=
    @Reaches.invariant _ _ _ _ (fun trace unit => Balanced cfg trace unit) (.create cfg c)
      (fun _ balanced stepped => balanced.step stepped) _ _ run
  refine ⟨fun mf queued write => ?_, fun w around served => balanced.storesDone around served⟩
  obtain ⟨reqs, acks⟩ := balanced.settles mf ⟨write, .inl queued⟩
  refine ⟨reqs, acks, fun served => ?_⟩
  rw [served.toCome, Nat.add_zero] at acks
  exact reqs.trans acks.symm

/-! ## A store that is kept in the line it allocates -/

/-- `st.global` of one warp. -/
def globalStore : WarpInst where
  uid := 0
  warpId := 0
  space := .globalSpace
  cacheOp := .cacheAll
  memoryOp := .memoryStore
  out := []

/-- The store goes through the latency queue, and its acknowledgement comes back if it is sent. -/
def storeAndReturn : List LdstOp :=
  [.issue globalStore [requestTo .globalAccW 0], .memory false, .latencyQueue 0, .l1d false,
    .reply 0, .response true 0]

theorem stores_balance_sample :
    ∃ trace unit, Reaches (KeptStep (smallConfig false))
        (create (oneLine .localWbGlobalWt .noWriteAllocate).toCacheConfig) trace unit ∧
      .storeAck (.request 0) 0 ∈ trace ∧
      trace.count (.storeReq (.request 0) (unit.wid (.request 0))) = unit.acksOf (smallConfig false)
        (.request 0) := by
  have passed : (performAll (smallConfig false) storeAndReturn
      (create (oneLine .localWbGlobalWt .noWriteAllocate).toCacheConfig)).any (fun outcome =>
        decide (.queued (.request 0) ∈ outcome.2) && decide (.storeAck (.request 0) 0 ∈ outcome.2) &&
          (outcome.1.pool.get (.request 0)).isWrite) = true := rfl
  obtain ⟨trace, unit, run, outcome⟩ := @exists_run _ _ _ (fun unit trace =>
    decide (.queued (.request 0) ∈ trace) && decide (.storeAck (.request 0) 0 ∈ trace) &&
      (unit.pool.get (.request 0)).isWrite) passed
  simp only [Bool.and_eq_true, decide_eq_true_eq] at outcome
  obtain ⟨⟨queued, acked⟩, write⟩ := outcome
  have kept : Reaches (KeptStep (smallConfig false))
    (create (oneLine .localWbGlobalWt .noWriteAllocate).toCacheConfig)
      trace unit := by
    refine run.mono fun step => ⟨step, fun c present absorbs => ?_⟩
    obtain rfl := Option.some.inj (Option.mem_def.mp present)
    cases absorbs
  exact ⟨trace, unit, kept, acked, ((stores_balance _ kept).1 (.request 0) queued write).1⟩

/-- A unit whose L1 data cache writes back and keeps stores that miss. -/
def keepingConfig : LdstConfig where
  gmemSkipL1D := false
  perfectInstConstCache := false
  l1d := some (oneLine .writeBack .lazyFetchOnRead)
  l1Latency := 1
  l1Banks := 1
  setBank _ := 0
  latency_pos := Nat.one_pos
  own_requests := by
    intro c member
    obtain rfl := Option.some.inj (Option.mem_def.mp member)
    exact ⟨rfl, rfl⟩

/-- The store misses and is nowhere any more, but it has not been acknowledged: the stores of the warp are
never done. -/
theorem kept_store_unacknowledged :
    (oneLine .writeBack .lazyFetchOnRead).Accepted ∧
    ∃ trace unit, Reaches (LdstStep keepingConfig)
      (create (oneLine .writeBack .lazyFetchOnRead).toCacheConfig) trace unit ∧
      .queued (.request 0) ∈ trace ∧ unit.Served (.request 0) ∧
      trace.count (.storeReq (.request 0) 0) = 1 ∧ trace.count (.storeAck (.request 0) 0) = 0 ∧
        ¬ unit.StoresDone 0 := by
  refine ⟨oneLine_accepted _ _, ?_⟩
  obtain ⟨unit, trace, done, empty, facts⟩ : ∃ unit trace, performAll keepingConfig
    (storeAndReturn.take 3)
      (create (oneLine .writeBack .lazyFetchOnRead).toCacheConfig) = some (unit, trace) ∧
      (∀ b s, unit.latencyQueue b s = none) ∧
      (unit.l1d.missQueue = [] ∧ unit.owed ++ unit.responseFifo = [] ∧
        unit.books.storesOutstanding 0 = 1 ∧
        trace = [.queued (.request 0), .storeReq (.request 0) 0, .left (.request 0)]) := by
    refine ⟨_, _, rfl, ?_, ?_⟩
    · intro b s
      cases b with
      | zero => cases s <;> rfl
      | succ b => rfl
    · decide
  obtain ⟨missQueue, owed, one, rfl⟩ := facts
  refine ⟨_, unit, by simpa using performAll_run Reaches.refl done, List.mem_cons_self, ⟨?_, ?_, ?_⟩,
    by decide, by decide, ?_⟩
  · rintro ⟨b, s, held⟩
    rw [empty b s] at held
    cases held
  · rw [missQueue]
    exact List.not_mem_nil
  · rw [owed]
    exact List.not_mem_nil
  · rw [StoresDone, one]
    decide

end LdstUnit

end GpgpuSim.Shader
