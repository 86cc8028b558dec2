import GpgpuSim.Cache.Pinning
import GpgpuSim.Cache.Sending
import GpgpuSim.Shader.LoadStoreCycle

/-! Replies go back to where their requests came from. The unit decides about the bypass when it serves an
access and again when the reply arrives; a load with `CACHE_L1` makes the two disagree when
`gmem_skip_L1D` is set. -/
namespace GpgpuSim.Shader
open GpgpuSim.Memory GpgpuSim.Cache Transition

/-- The two decisions agree about the reads of the instruction. -/
def Agrees (cfg : LdstConfig) (inst : WarpInst) : Prop :=
  ¬ (cfg.gmemSkipL1D = true ∧ cfg.l1d ≠ none ∧ inst.isStore = false ∧ inst.space = .globalSpace ∧
    inst.cacheOp = .cacheL1)

/-- The requester that `memory_cycle` chooses. -/
def LdstConfig.requester (cfg : LdstConfig) (inst : WarpInst) : Requester :=
  if cfg.bypassAtIssue inst then .bypass else .l1d

theorem accessType_memory {inst : WarpInst} {type : MemAccessType} (served : inst.inMemoryCycle = true)
    (typed : inst.accessType = some type) : type.isWrite = inst.isStore ∧ type ≠ .textureAccR ∧ type ≠ .constAccR ∧
      (type = .globalAccR ∨ type = .globalAccW ↔ inst.space = .globalSpace) := by
  have spaces : inst.space = .globalSpace ∨ inst.space = .localSpace ∨ inst.space = .paramSpaceLocal := by
    unfold WarpInst.inMemoryCycle at served
    split at served
    · exact .inl (by assumption)
    · exact .inr (.inl (by assumption))
    · exact .inr (.inr (by assumption))
    · cases served
  rcases spaces with space | space | space
  all_goals
    simp only [WarpInst.accessType, space, Option.some.injEq] at typed
    subst typed
    cases inst.isStore <;> simp [MemAccessType.isWrite, space]

theorem accessType_readOnly {inst : WarpInst} {type : MemAccessType} (elsewhere : inst.inMemoryCycle = false)
    (typed : inst.accessType = some type) : type = if inst.inConstantCycle then .constAccR else .textureAccR := by
  unfold WarpInst.inMemoryCycle at elsewhere
  unfold WarpInst.accessType at typed
  unfold WarpInst.inConstantCycle
  cases space : inst.space <;> simp_all

/-- The choice at issue is the one at the reply, but for one kind of load. -/
theorem replyTo_eq_requester_iff {cfg : LdstConfig} {inst : WarpInst} {type : MemAccessType}
    (served : inst.inMemoryCycle = true) (typed : inst.accessType = some type) (load : inst.isStore = false) :
    cfg.replyTo type inst.cacheOp = cfg.requester inst ↔ Agrees cfg inst := by
  obtain ⟨-, texture, const, global⟩ := accessType_memory served typed
  simp only [LdstConfig.replyTo, LdstConfig.requester, LdstConfig.bypassAtReply, LdstConfig.bypassAtIssue, Agrees,
    texture, const, global, load, if_false, true_and]
  by_cases around : inst.cacheOp = .cacheGlobal ∨ cfg.l1d = none
  · rcases around with op | none_l1d
    · simp [op]
    · simp [none_l1d]
  · obtain ⟨op, some_l1d⟩ := not_or.mp around
    by_cases space : inst.space = .globalSpace
    · by_cases skip : cfg.gmemSkipL1D = true
      · by_cases l1 : inst.cacheOp = .cacheL1 <;> simp [skip, some_l1d, space, l1, op]
      · simp [skip, op, some_l1d, space]
    · simp [op, some_l1d, space]

namespace LdstUnit

variable {cfg : LdstConfig} {unit next last : LdstUnit} {trace events : List LdstEvent} {mf : MfId}

/-- Requests that are there keep their kind and their instruction. -/
structure Grows (next unit : LdstUnit) : Prop where
  kinds : next.pool.KeepsKinds unit.pool
  inst : ∀ mf, mf.serial < unit.pool.nextSerial → next.inst mf = unit.inst mf

theorem Grows.same (pool : next.pool = unit.pool) (inst : next.inst = unit.inst) : Grows next unit := by
  refine ⟨?_, fun mf _ => by rw [inst]⟩
  rw [pool]
  exact .refl _

/-- Who gets the reply to a request. -/
def replyOf (cfg : LdstConfig) (unit : LdstUnit) (mf : MfId) : Requester :=
  cfg.replyTo (unit.pool.get mf).accessType (unit.cacheOp mf)

theorem Grows.replyOf (grows : Grows next unit) (in_use : mf.serial < unit.pool.nextSerial) :
    next.replyOf cfg mf = unit.replyOf cfg mf := by
  simp only [LdstUnit.replyOf, LdstUnit.cacheOp, grows.kinds.accessType mf in_use, grows.inst mf in_use]

/-- A request in use whose reply, if it is a read, goes to the requester. -/
structure Bound (cfg : LdstConfig) (unit : LdstUnit) (requester : Requester) (mf : MfId) : Prop where
  in_use : mf.serial < unit.pool.nextSerial
  reply : (unit.pool.get mf).isWrite = false → unit.replyOf cfg mf = requester

theorem Bound.grows {requester : Requester} (bound : Bound cfg unit requester mf) (grows : Grows next unit) :
    Bound cfg next requester mf where
  in_use := Nat.lt_of_lt_of_le bound.in_use grows.kinds.nextSerial
  reply read := by
    rw [grows.replyOf bound.in_use]
    exact bound.reply ((grows.kinds.isWrite bound.in_use).symm.trans read)

/-- Every request is where its reply will go to, and every reply has gone there. -/
structure Routed (cfg : LdstConfig) (trace : List LdstEvent) (unit : LdstUnit) : Prop where
  blank : ∀ mf, unit.pool.nextSerial ≤ mf.serial → unit.inst mf = none
  dispatch : ∀ inst accessq, unit.dispatchReg = some (inst, accessq) →
    ∀ access ∈ accessq, inst.accessType = some access.accessType
  queued : ∀ bank stage mf, unit.latencyQueue bank stage = some mf → Bound cfg unit .l1d mf
  missQueue : ∀ mf ∈ unit.l1d.missQueue, Bound cfg unit .l1d mf
  pending : ∀ mf, (unit.l1d.extraMfFields mf).isSome →
    mf.serial < unit.pool.nextSerial ∧ (unit.pool.get mf).isWrite = false
  sent : ∀ mf requester, .sent mf requester ∈ trace → Bound cfg unit requester mf
  owed : ∀ answer ∈ unit.owed ++ unit.responseFifo, (∃ requester, .sent answer.1 requester ∈ trace) ∧
    (answer.2 = false → (unit.pool.get answer.1).isWrite = false)
  delivered : ∀ mf requester, .delivered mf requester ∈ trace → (unit.pool.get mf).isWrite = false ∧
    requester = unit.replyOf cfg mf ∧ ∃ other, .sent mf other ∈ trace

theorem Routed.create (c : CacheConfig) : Routed cfg [] (create c) where
  blank _ _ := rfl
  dispatch _ _ held := by cases held
  queued _ _ _ held := by cases held
  missQueue _ member := absurd member List.not_mem_nil
  pending _ pending := by cases pending
  sent _ _ member := absurd member List.not_mem_nil
  owed _ member := absurd member List.not_mem_nil
  delivered _ _ member := absurd member List.not_mem_nil

/-- A step that adds to the requests and the history. -/
theorem Routed.extend (routed : Routed cfg trace unit) (grows : Grows next unit)
    (blank : ∀ mf, next.pool.nextSerial ≤ mf.serial → next.inst mf = none)
    (dispatch : ∀ inst accessq, next.dispatchReg = some (inst, accessq) →
      ∀ access ∈ accessq, inst.accessType = some access.accessType)
    (queued : ∀ bank stage mf, next.latencyQueue bank stage = some mf →
      (∃ b s, unit.latencyQueue b s = some mf) ∨ Bound cfg next .l1d mf)
    (missQueue : ∀ mf ∈ next.l1d.missQueue, mf ∈ unit.l1d.missQueue ∨ Bound cfg next .l1d mf)
    (pending : ∀ mf, (next.l1d.extraMfFields mf).isSome → (unit.l1d.extraMfFields mf).isSome ∨
      mf.serial < next.pool.nextSerial ∧ (next.pool.get mf).isWrite = false)
    (sent : ∀ mf requester, .sent mf requester ∈ events → Bound cfg next requester mf)
    (owed : ∀ answer ∈ next.owed ++ next.responseFifo, answer ∈ unit.owed ++ unit.responseFifo ∨
      (∃ requester, .sent answer.1 requester ∈ events) ∧ (answer.2 = false → (next.pool.get answer.1).isWrite = false))
    (delivered : ∀ mf requester, .delivered mf requester ∈ events → (next.pool.get mf).isWrite = false ∧
      requester = next.replyOf cfg mf ∧ ∃ other, .sent mf other ∈ trace) :
    Routed cfg (trace ++ events) next where
  blank := blank
  dispatch := dispatch
  queued bank stage mf held := by
    rcases queued bank stage mf held with ⟨b, s, before⟩ | bound
    · exact (routed.queued b s mf before).grows grows
    · exact bound
  missQueue mf member := by
    rcases missQueue mf member with before | bound
    · exact (routed.missQueue mf before).grows grows
    · exact bound
  pending mf pended := by
    rcases pending mf pended with before | now
    · obtain ⟨in_use, read⟩ := routed.pending mf before
      exact ⟨Nat.lt_of_lt_of_le in_use grows.kinds.nextSerial, (grows.kinds.isWrite in_use).trans read⟩
    · exact now
  sent mf requester member := by
    rcases List.mem_append.mp member with before | now
    · exact (routed.sent mf requester before).grows grows
    · exact sent mf requester now
  owed answer member := by
    rcases owed answer member with before | ⟨⟨requester, now⟩, read⟩
    · obtain ⟨⟨requester, earlier⟩, read⟩ := routed.owed answer before
      refine ⟨⟨requester, List.mem_append_left _ earlier⟩, fun reply => ?_⟩
      exact (grows.kinds.isWrite (routed.sent _ _ earlier).in_use).trans (read reply)
    · exact ⟨⟨requester, List.mem_append_right _ now⟩, read⟩
  delivered mf requester member := by
    rcases List.mem_append.mp member with before | now
    · obtain ⟨read, place, other, earlier⟩ := routed.delivered mf requester before
      have in_use := (routed.sent mf other earlier).in_use
      exact ⟨(grows.kinds.isWrite in_use).trans read, place.trans (grows.replyOf in_use).symm, other,
        List.mem_append_left _ earlier⟩
    · obtain ⟨read, place, other, earlier⟩ := delivered mf requester now
      exact ⟨read, place, other, List.mem_append_left _ earlier⟩

variable {inst : WarpInst} {access : MemFetch} {accessq rest : List MemFetch}

theorem grows_alloc : Grows (unit.alloc inst access).2 unit where
  kinds := .alloc unit.pool access
  inst mf in_use := by
    refine Function.update_of_ne ?_ _ _
    rintro rfl
    exact Nat.lt_irrefl _ in_use

theorem blank_alloc (blank : ∀ mf, unit.pool.nextSerial ≤ mf.serial → unit.inst mf = none) :
    ∀ mf, (unit.alloc inst access).2.pool.nextSerial ≤ mf.serial → (unit.alloc inst access).2.inst mf = none := by
  intro mf unused
  have later : unit.pool.nextSerial + 1 ≤ mf.serial := unused
  refine (Function.update_of_ne ?_ _ _).trans (blank mf (by omega))
  rintro rfl
  exact Nat.not_succ_le_self _ later

theorem get_alloc : (unit.alloc inst access).2.pool.get (unit.alloc inst access).1 = access :=
  MfPool.get_alloc_self unit.pool access

theorem bound_alloc {requester : Requester}
    (reply : access.isWrite = false → cfg.replyTo access.accessType inst.cacheOp = requester) :
    Bound cfg (unit.alloc inst access).2 requester (unit.alloc inst access).1 where
  in_use := Nat.lt_succ_self _
  reply read := by
    rw [get_alloc] at read
    simp only [LdstUnit.replyOf, LdstUnit.cacheOp, get_alloc]
    simpa [LdstUnit.alloc] using reply read

theorem mem_answers {request : MemFetch} {answer : MfId × Bool} (member : answer ∈ answers cfg mf request) :
    answer.1 = mf ∧ (answer.2 = false → request.isWrite = false) := by
  unfold answers at member
  split at member
  next read =>
    obtain rfl := List.mem_singleton.mp member
    exact ⟨rfl, fun _ => by simpa using read⟩
  next =>
    split at member
    · cases member
    · obtain ⟨-, rfl⟩ := List.mem_replicate.mp member
      exact ⟨rfl, fun reply => by cases reply⟩

/-- Books and the registers of the write-back stage do not matter. -/
theorem Routed.of_same (routed : Routed cfg trace unit) (pool : next.pool = unit.pool) (inst : next.inst = unit.inst)
    (dispatch : next.dispatchReg = unit.dispatchReg) (queue : next.latencyQueue = unit.latencyQueue)
    (missQueue : next.l1d.missQueue = unit.l1d.missQueue) (extras : next.l1d.extraMfFields = unit.l1d.extraMfFields)
    (owed : ∀ answer ∈ next.owed ++ next.responseFifo, answer ∈ unit.owed ++ unit.responseFifo)
    (quiet : ∀ e ∈ events, ∀ mf requester, e ≠ .sent mf requester ∧ e ≠ .delivered mf requester) :
    Routed cfg (trace ++ events) next := by
  refine routed.extend (.same pool inst) ?_ ?_ ?_ ?_ ?_ ?_ ?_ ?_
  · rw [pool, inst]
    exact routed.blank
  · rw [dispatch]
    exact routed.dispatch
  · intro bank stage mf held
    rw [queue] at held
    exact .inl ⟨bank, stage, held⟩
  · intro mf member
    exact .inl (missQueue ▸ member)
  · intro mf pending
    exact .inl (extras ▸ pending)
  · intro mf requester member
    exact absurd rfl (quiet _ member mf requester).1
  · exact fun answer member => .inl (owed answer member)
  · intro mf requester member
    exact absurd rfl (quiet _ member mf requester).2

theorem quiet_replicate {n : Nat} {e : LdstEvent}
    (quiet : ∀ mf requester, e ≠ .sent mf requester ∧ e ≠ .delivered mf requester) :
    ∀ d ∈ List.replicate n e, ∀ mf requester, d ≠ .sent mf requester ∧ d ≠ .delivered mf requester := by
  intro d member
  obtain rfl := (List.mem_replicate.mp member).2
  exact quiet

/-- A request of an instruction goes into the L1 latency queue. -/
theorem Routed.enqueue (routed : Routed cfg trace unit) (bank stage : Nat)
    (reply : access.isWrite = false → cfg.replyTo access.accessType inst.cacheOp = .l1d) :
    Routed cfg (trace ++ [.queued (unit.alloc inst access).1])
      ((unit.alloc inst access).2.setQueued bank stage (some (unit.alloc inst access).1)) := by
  have grown : Grows (unit.alloc inst access).2 unit := grows_alloc
  refine routed.extend ⟨grown.kinds, grown.inst⟩ (blank_alloc routed.blank) routed.dispatch ?_ ?_ ?_ ?_ ?_ ?_
  · intro b s mf held
    rw [latencyQueue_setQueued] at held
    split at held
    · cases held
      have bound : Bound cfg (unit.alloc inst access).2 .l1d (unit.alloc inst access).1 := bound_alloc reply
      exact .inr ⟨bound.in_use, bound.reply⟩
    · exact .inl ⟨b, s, held⟩
  · exact fun mf member => .inl member
  · exact fun mf pending => .inl pending
  · intro mf requester member
    simp at member
  · exact fun answer member => .inl member
  · intro mf requester member
    simp at member

theorem Routed.countQueued (routed : Routed cfg trace unit) (inst : WarpInst) (mf : MfId) (dataSize : Nat) :
    Routed cfg (trace ++ (unit.countQueued cfg inst mf dataSize).2) (unit.countQueued cfg inst mf dataSize).1 := by
  unfold LdstUnit.countQueued
  split
  · rw [incStoreReqs_eq]
    exact routed.of_same rfl rfl rfl rfl rfl rfl (fun _ member => member)
      (quiet_replicate fun mf requester => ⟨nofun, nofun⟩)
  · rw [List.append_nil]
    exact routed

theorem Routed.queueAccesses {banks : Nat} (routed : Routed cfg trace unit)
    (reply : ∀ access ∈ accessq, access.isWrite = false → cfg.replyTo access.accessType inst.cacheOp = .l1d)
    (done : unit.queueAccesses cfg inst banks accessq = .ok (rest, next, events)) :
    Routed cfg (trace ++ events) next ∧ ∀ access ∈ rest, access ∈ accessq := by
  induction banks generalizing unit accessq trace events with
  | zero =>
      cases done
      rw [List.append_nil]
      exact ⟨routed, fun _ member => member⟩
  | succ banks ih =>
      cases accessq with
      | nil =>
          cases done
          rw [List.append_nil]
          exact ⟨routed, fun _ member => member⟩
      | cons access later =>
          simp only [LdstUnit.queueAccesses] at done
          split at done
          · cases done
          · split at done
            next =>
              obtain ⟨⟨left, reached, more⟩, queued, done⟩ := bind_ok.mp done
              cases done
              have entered := @Routed.enqueue cfg unit trace inst access routed (cfg.setBank access.addr)
                (cfg.l1Latency - 1) (reply access List.mem_cons_self)
              have counted := entered.countQueued inst (unit.alloc inst access).1 access.dataSize
              obtain ⟨kept, subset⟩ := ih counted (fun a member => reply a (List.mem_cons_of_mem _ member)) queued
              refine ⟨?_, fun a member => List.mem_cons_of_mem _ (subset a member)⟩
              simpa [List.append_assoc] using kept
            next =>
              cases done
              rw [List.append_nil]
              exact ⟨routed, fun _ member => member⟩

variable {c : DataCacheConfig} {requester : Requester} {time bank : Nat}

/-- A request of an instruction is sent. -/
theorem Routed.ask (routed : Routed cfg trace unit)
    (reply : access.isWrite = false → cfg.replyTo access.accessType inst.cacheOp = requester) :
    Routed cfg (trace ++ [.sent (unit.alloc inst access).1 requester])
      ((unit.alloc inst access).2.push cfg (unit.alloc inst access).1) := by
  have grown : Grows (unit.alloc inst access).2 unit := grows_alloc
  have bound : Bound cfg (unit.alloc inst access).2 requester (unit.alloc inst access).1 := bound_alloc reply
  refine routed.extend ⟨grown.kinds, grown.inst⟩ (blank_alloc routed.blank) routed.dispatch ?_ ?_ ?_ ?_ ?_ ?_
  · exact fun b s mf held => .inl ⟨b, s, held⟩
  · exact fun mf member => .inl member
  · exact fun mf pending => .inl pending
  · intro mf other member
    obtain ⟨rfl, rfl⟩ := LdstEvent.sent.inj (List.mem_singleton.mp member)
    exact ⟨bound.in_use, bound.reply⟩
  · intro answer member
    simp only [push, List.mem_append] at member
    rcases member with (before | new) | before
    · exact .inl (List.mem_append_left _ before)
    · obtain ⟨same, read⟩ := mem_answers new
      refine .inr ⟨⟨requester, ?_⟩, ?_⟩
      · rw [same]
        exact List.mem_singleton.mpr rfl
      · rw [same]
        exact read
    · exact .inl (List.mem_append_right _ before)
  · intro mf other member
    simp at member

theorem Routed.sendAround (routed : Routed cfg trace unit)
    (reply : access.isWrite = false → cfg.replyTo access.accessType inst.cacheOp = .bypass)
    (done : unit.sendAround cfg inst access = .ok (next, events)) : Routed cfg (trace ++ events) next := by
  have asked := @Routed.ask cfg unit trace inst access .bypass routed reply
  simp only [LdstUnit.sendAround] at done
  split at done
  · split at done
    · cases done
      exact asked
    · cases done
  · split at done
    · cases done
      have counted : Routed cfg ((trace ++ [.sent (unit.alloc inst access).1 .bypass]) ++
          [.storeReq (unit.alloc inst access).1 inst.warpId])
          { (unit.alloc inst access).2.push cfg (unit.alloc inst access).1 with
            books := ((unit.alloc inst access).2.push cfg (unit.alloc inst access).1).books.incStoreReq inst.warpId } :=
        asked.of_same rfl rfl rfl rfl rfl rfl (fun _ member => member) (by simp)
      simpa [List.append_assoc] using counted
    · cases done
      exact asked

theorem Routed.memoryCycle {icntFull : Bool} (routed : Routed cfg trace unit) (served : inst.inMemoryCycle = true)
    (agrees : Agrees cfg inst) (typed : ∀ access ∈ accessq, inst.accessType = some access.accessType)
    (done : unit.memoryCycle cfg inst accessq icntFull = .ok (rest, next, events)) :
    Routed cfg (trace ++ events) next ∧ ∀ access ∈ rest, access ∈ accessq := by
  have reply : ∀ access ∈ accessq, access.isWrite = false →
      cfg.replyTo access.accessType inst.cacheOp = cfg.requester inst := by
    intro access member read
    have store := (accessType_memory served (typed access member)).1
    exact (replyTo_eq_requester_iff served (typed access member) (store.symm.trans read)).mpr agrees
  unfold LdstUnit.memoryCycle at done
  split at done
  · cases done
    rw [List.append_nil]
    exact ⟨routed, fun _ member => member⟩
  next access later =>
    split at done
    next around =>
      split at done
      · cases done
        rw [List.append_nil]
        exact ⟨routed, fun _ member => member⟩
      · obtain ⟨⟨reached, more⟩, sent, done⟩ := bind_ok.mp done
        cases done
        refine ⟨routed.sendAround ?_ sent, fun a member => List.mem_cons_of_mem _ member⟩
        intro read
        rw [reply access List.mem_cons_self read, LdstConfig.requester, if_pos around]
    next direct =>
      split at done
      · cases done
      · refine routed.queueAccesses ?_ done
        intro a member read
        rw [reply a member read, LdstConfig.requester, if_neg direct]

theorem Routed.missReadOnly (routed : Routed cfg trace unit) (readSent : Bool) (elsewhere : inst.inMemoryCycle = false)
    (typed : inst.accessType = some access.accessType) :
    Routed cfg (trace ++ (unit.missReadOnly cfg inst access readSent).2)
      (unit.missReadOnly cfg inst access readSent).1 := by
  have waiting : Routed cfg (trace ++ []) { unit with readOnlyMisses := inst :: unit.readOnlyMisses } :=
    routed.of_same rfl rfl rfl rfl rfl rfl (fun _ member => member) (by simp)
  unfold LdstUnit.missReadOnly
  dsimp only
  split
  · rw [List.append_nil] at waiting
    refine waiting.ask ?_
    intro _
    rw [accessType_readOnly elsewhere typed]
    cases inst.inConstantCycle <;> simp [LdstConfig.replyTo]
  · exact waiting

theorem Routed.readOnlyCycle {status : CacheRequestStatus} {readSent : Bool} (routed : Routed cfg trace unit)
    (elsewhere : inst.inMemoryCycle = false) (typed : ∀ access ∈ accessq, inst.accessType = some access.accessType)
    (done : unit.readOnlyCycle cfg inst accessq status readSent = .ok (rest, next, events)) :
    Routed cfg (trace ++ events) next ∧ ∀ access ∈ rest, access ∈ accessq := by
  have same : ∀ {books readOnlyMisses}, Routed cfg (trace ++ [])
      { unit with books := books, readOnlyMisses := readOnlyMisses } := fun {_ _} =>
    routed.of_same rfl rfl rfl rfl rfl rfl (fun _ member => member) (by simp)
  simp only [LdstUnit.readOnlyCycle] at done
  split at done
  · cases done
    exact ⟨same, nofun⟩
  · split at done
    · cases done
      exact ⟨same, nofun⟩
    next access later =>
      have missed := routed.missReadOnly readSent elsewhere (typed access List.mem_cons_self)
      generalize unit.missReadOnly cfg inst access readSent = outcome at missed done
      obtain ⟨missing, sent⟩ := outcome
      split at done
      · split at done
        · cases done
        · cases done
          exact ⟨same, fun a member => List.mem_cons_of_mem _ member⟩
      · split at done
        · cases done
        · cases done
          exact ⟨same, fun a member => member⟩
      · cases done
        exact ⟨missed, fun a member => List.mem_cons_of_mem _ member⟩
      · cases done
        exact ⟨missed, fun a member => List.mem_cons_of_mem _ member⟩
      · cases done

/-- Only the books, the dispatch register and the accesses in it change. -/
theorem Routed.leaveDispatch (routed : Routed cfg trace unit)
    (typed : ∀ access ∈ rest, inst.accessType = some access.accessType) :
    Routed cfg trace (unit.leaveDispatch inst rest) := by
  have dispatched : ∀ {books dispatchReg}, (∀ i q, dispatchReg = some (i, q) →
      ∀ access ∈ q, i.accessType = some access.accessType) →
      Routed cfg (trace ++ []) { unit with books := books, dispatchReg := dispatchReg } := by
    intro books dispatchReg typed
    exact routed.extend (.same rfl rfl) routed.blank typed (fun b s mf held => .inl ⟨b, s, held⟩)
      (fun mf member => .inl member) (fun mf pending => .inl pending) (by simp) (fun answer member => .inl member)
      (by simp)
  unfold LdstUnit.leaveDispatch
  split
  · simpa using @dispatched _ none (by simp)
  · have held := @dispatched unit.books (some (inst, rest)) (by
      rintro i q held access member
      cases held
      exact typed access member)
    simpa using held

/-- What the L1 data cache sends is bound for it, its own reads included. -/
theorem Routed.l1dSends {l1d : DataCache} {pool : MfPool} {own : Nat} (routed : Routed cfg trace unit)
    (present : cfg.l1d = some c) (sends : Sends c unit.l1d unit.pool mf l1d pool own) (bound : Bound cfg unit .l1d mf) :
    Routed cfg trace { unit with l1d := l1d, pool := pool } := by
  have grows : Grows { unit with l1d := l1d, pool := pool } unit := ⟨sends.kinds, fun _ _ => rfl⟩
  have kept : Routed cfg (trace ++ []) { unit with l1d := l1d, pool := pool } := by
    refine routed.extend grows ?_ routed.dispatch (fun b s mf held => .inl ⟨b, s, held⟩) ?_ ?_ (by simp)
      (fun answer member => .inl member) (by simp)
    · exact fun mf unused => routed.blank mf (Nat.le_trans sends.kinds.nextSerial unused)
    · intro q member
      obtain ⟨sent, queue, -, each⟩ := sends.queue
      have found : q ∈ l1d.missQueue := member
      rw [queue] at found
      rcases List.mem_append.mp found with before | new
      · exact .inl before
      · rcases each q new with rfl | made
        · exact .inr (bound.grows grows)
        · refine .inr ⟨made.in_use, fun read => ?_⟩
          obtain ⟨alloc, wrbk⟩ := cfg.own_requests c present
          simp only [LdstUnit.replyOf, LdstUnit.cacheOp, routed.blank q made.fresh]
          rcases made.kind with kind | kind
          · rw [kind, alloc]
            simp [LdstConfig.replyTo, LdstConfig.bypassAtReply, present]
          · exfalso
            have write : (pool.get q).isWrite = MemAccessType.isWrite .l1WrbkAcc :=
              congrArg MemAccessType.isWrite (kind.trans wrbk)
            rw [show (pool.get q).isWrite = false from read] at write
            cases write
    · intro q pending
      exact (sends.pending q pending).imp_right fun ⟨read, in_use⟩ => ⟨in_use, read⟩
  simpa using kept

theorem Routed.serveQueued (routed : Routed cfg trace unit) (present : cfg.l1d = some c)
    (queued : unit.latencyQueue bank 0 = some mf) (done : unit.serveQueued c cfg bank mf time = .ok (next, events)) :
    Routed cfg (trace ++ events) next := by
  have bound := routed.queued bank 0 mf queued
  unfold LdstUnit.serveQueued at done
  split at done
  · cases done
  next result accessed =>
    have sends : ∃ own, Sends c unit.l1d unit.pool mf result.cache result.pool own := by
      cases write : (unit.pool.get mf).isWrite with
      | false =>
          obtain ⟨own, -, sends⟩ := DataCache.ReadWrite.access_sends_read write bound.in_use accessed
          exact ⟨own, sends⟩
      | true =>
          have reads : c.wrAllocType.isWrite = false := by
            rw [(cfg.own_requests c present).1]
            rfl
          exact ⟨_, (DataCache.ReadWrite.access_sends_write reads write bound.in_use accessed).1.sends⟩
    obtain ⟨own, sends⟩ := sends
    have asked := routed.l1dSends present sends bound
    -- whatever the outcome, the request leaves the queue or stays, and the books change
    have served : ∀ {books} {more : List LdstEvent},
        (∀ e ∈ more, ∀ mf requester, e ≠ .sent mf requester ∧ e ≠ .delivered mf requester) →
        Routed cfg (trace ++ more)
          { ({ unit with l1d := result.cache, pool := result.pool }.setQueued bank 0 none) with books := books } := by
      intro books more quiet
      refine asked.extend (.same rfl rfl) asked.blank asked.dispatch ?_ (fun mf member => .inl member)
        (fun mf pending => .inl pending) ?_ (fun answer member => .inl member) ?_
      · intro b s q held
        have held : ({ unit with l1d := result.cache, pool := result.pool }.setQueued bank 0 none).latencyQueue b s =
            some q := held
        rw [latencyQueue_setQueued] at held
        split at held
        · cases held
        · exact .inl ⟨b, s, held⟩
      · intro q requester member
        exact absurd rfl (quiet _ member q requester).1
      · intro q requester member
        exact absurd rfl (quiet _ member q requester).2
    have plain := @served unit.books [.left mf] (by simp)
    dsimp only at done
    split at done
    · split at done
      · cases done
      · split at done
        · cases done
          exact plain
        · obtain ⟨⟨reached, acked⟩, finished, done⟩ := bind_ok.mp done
          obtain ⟨books, completions, acks, -, -, -, rfl, rfl⟩ := finishHit_ok finished
          cases done
          refine served ?_
          intro e member
          rcases List.mem_cons.mp member with rfl | ack
          · simp
          · exact quiet_replicate (by simp) e ack
    · split at done
      · cases done
      · cases done
        rw [List.append_nil]
        exact asked
    · cases done
      exact plain
    · cases done
      exact plain
    · cases done

theorem Routed.shiftStage (routed : Routed cfg trace unit) (stage : Nat) :
    Routed cfg trace (unit.shiftStage bank stage) := by
  unfold LdstUnit.shiftStage
  split
  · have moved : Routed cfg (trace ++ [])
        ((unit.setQueued bank stage (unit.latencyQueue bank (stage + 1))).setQueued bank (stage + 1) none) := by
      refine routed.extend (.same rfl rfl) routed.blank routed.dispatch ?_ (fun mf member => .inl member)
        (fun mf pending => .inl pending) (by simp) (fun answer member => .inl member) (by simp)
      intro b s q held
      simp only [latencyQueue_setQueued] at held
      split at held
      · cases held
      · split at held
        · exact .inl ⟨_, _, held⟩
        · exact .inl ⟨_, _, held⟩
    simpa using moved
  · exact routed

theorem Routed.latencyQueueBank (routed : Routed cfg trace unit) (present : cfg.l1d = some c)
    (done : unit.latencyQueueBank c cfg time bank = .ok (next, events)) : Routed cfg (trace ++ events) next := by
  obtain ⟨⟨served, more⟩, first, done⟩ := bind_ok.mp done
  have front : Routed cfg (trace ++ more) served := by
    unfold LdstUnit.serveBank at first
    split at first
    · cases first
      rwa [List.append_nil]
    next mf queued => exact routed.serveQueued present queued first
  cases done
  induction cfg.l1Latency - 1 with
  | zero => exact front
  | succ stages ih =>
      rw [List.range_succ, List.foldl_append]
      exact ih.shiftStage stages

theorem Routed.l1dCycle (routed : Routed cfg trace unit) (memportFull : Bool) :
    Routed cfg (trace ++ (unit.l1dCycle cfg memportFull).2) (unit.l1dCycle cfg memportFull).1 := by
  have kept : (unit.l1d.cycle memportFull).extraMfFields = unit.l1d.extraMfFields :=
    (Outstanding.cycle_same memportFull unit.l1d).1.extraMfFields
  have queue : ∀ mf ∈ (unit.l1d.cycle memportFull).missQueue, mf ∈ unit.l1d.missQueue := by
    intro mf member
    unfold DataCache.cycle at member
    split at member
    · exact member
    next front later shape =>
      cases memportFull
      · rw [shape]
        exact List.mem_cons_of_mem _ member
      · exact member
  have cycled : ∀ {more : List LdstEvent} {owed},
    (∀ mf requester, .sent mf requester ∈ more → Bound cfg unit requester mf) →
      (∀ mf requester, .delivered mf requester ∉ more) →
      (∀ answer ∈ owed ++ unit.responseFifo, answer ∈ unit.owed ++ unit.responseFifo ∨
        (∃ requester, .sent answer.1 requester ∈ more) ∧
          (answer.2 = false → (unit.pool.get answer.1).isWrite = false)) →
      Routed cfg (trace ++ more) { unit with l1d := unit.l1d.cycle memportFull, owed := owed } := by
    intro more owed sent quiet answers
    refine routed.extend (.same rfl rfl) routed.blank routed.dispatch (fun b s mf held => .inl ⟨b, s, held⟩)
      (fun mf member => .inl (queue mf member)) (fun mf pending => .inl ?_) (fun mf requester member => ?_) answers
      (fun mf requester member => absurd member (quiet mf requester))
    · exact kept ▸ pending
    · exact ⟨(sent mf requester member).in_use, (sent mf requester member).reply⟩
  unfold LdstUnit.l1dCycle
  split
  · exact cycled (by simp) (by simp) fun answer member => .inl member
  next mf later front =>
    have bound := routed.missQueue mf (by rw [front]; exact List.mem_cons_self)
    split
    · exact cycled (by simp) (by simp) fun answer member => .inl member
    · refine cycled ?_ (by simp) ?_
      · intro q requester member
        obtain ⟨rfl, rfl⟩ := LdstEvent.sent.inj (List.mem_singleton.mp member)
        exact bound
      · intro answer member
        simp only [List.mem_append] at member
        rcases member with (before | new) | before
        · exact .inl (List.mem_append_left _ before)
        · obtain ⟨same, read⟩ := mem_answers new
          refine .inr ⟨⟨.l1d, ?_⟩, same ▸ read⟩
          rw [same]
          exact List.mem_singleton.mpr rfl
        · exact .inl (List.mem_append_right _ before)

/-- The reply at the front of the queue is handed over. -/
theorem Routed.deliver {requester : Requester} {rest : List (MfId × Bool)} {ack : Bool} {nextGlobal : Option MfId}
    (routed : Routed cfg trace unit) (front : unit.responseFifo = (mf, ack) :: rest)
    (read : (unit.pool.get mf).isWrite = false) (place : requester = unit.replyOf cfg mf) :
    Routed cfg (trace ++ [.delivered mf requester]) { unit with responseFifo := rest, nextGlobal := nextGlobal } := by
  refine routed.extend (.same rfl rfl) routed.blank routed.dispatch (fun b s mf held => .inl ⟨b, s, held⟩)
    (fun mf member => .inl member) (fun mf pending => .inl pending) (by simp) ?_ ?_
  · intro answer member
    rcases List.mem_append.mp member with before | before
    · exact .inl (List.mem_append_left _ before)
    · refine .inl (List.mem_append_right _ ?_)
      rw [front]
      exact List.mem_cons_of_mem _ before
  · intro q other member
    obtain ⟨rfl, rfl⟩ := LdstEvent.delivered.inj (List.mem_singleton.mp member)
    refine ⟨read, place, (routed.owed (q, ack) (List.mem_append_right _ ?_)).1⟩
    rw [front]
    exact List.mem_cons_self

theorem Routed.responseCycle {portFree : Bool} (routed : Routed cfg trace unit)
    (done : unit.responseCycle cfg portFree time = .ok (next, events)) : Routed cfg (trace ++ events) next := by
  have stays : Routed cfg (trace ++ []) unit := by rwa [List.append_nil]
  unfold LdstUnit.responseCycle at done
  split at done
  · cases done
    exact stays
  next mf ack rest front =>
    have isWrite_eq : ∀ type, (unit.pool.get mf).accessType = type → (unit.pool.get mf).isWrite = type.isWrite :=
      fun type kind => congrArg MemAccessType.isWrite kind
    dsimp only at done
    split at done
    next texture =>
      split at done
      · cases done
        exact routed.deliver front (isWrite_eq _ texture) (by simp [LdstUnit.replyOf, LdstConfig.replyTo, texture])
      · cases done
        exact stays
    next not_texture =>
      split at done
      next const =>
        split at done
        · cases done
          exact routed.deliver front (isWrite_eq _ const) (by simp [LdstUnit.replyOf, LdstConfig.replyTo, const])
        · cases done
          exact stays
      next not_const =>
        split at done
        · obtain ⟨-, rfl, rfl⟩ := storeAcks_ok done
          refine routed.of_same rfl rfl rfl rfl rfl rfl ?_ (quiet_replicate fun mf requester => ⟨nofun, nofun⟩)
          intro answer member
          rw [front]
          rcases List.mem_append.mp member with before | before
          · exact List.mem_append_left _ before
          · exact List.mem_append_right _ (List.mem_cons_of_mem _ before)
        · split at done
          · cases done
          next read =>
            rw [Bool.not_eq_true] at read
            split at done
            next around =>
              split at done
              · cases done
                exact routed.deliver front read
                  (by simp [LdstUnit.replyOf, LdstConfig.replyTo, not_texture, not_const, around])
              · cases done
                exact stays
            next direct =>
              split at done
              · split at done
                · cases done
                next c present =>
                  split at done
                  · cases done
                  next l1d pool filled =>
                    cases done
                    have delivered := @Routed.deliver cfg unit trace mf .l1d rest ack unit.nextGlobal routed front read
                      (by simp [LdstUnit.replyOf, LdstConfig.replyTo, not_texture, not_const, direct])
                    obtain ⟨kinds, serial, queue, extras⟩ :=
                      DataCache.fill_sends (fun q pending => (routed.pending q pending).2) filled
                    have grows : Grows { unit with responseFifo := rest, l1d := l1d, pool := pool }
                        { unit with responseFifo := rest } := ⟨kinds, fun _ _ => rfl⟩
                    rw [← List.append_nil (trace ++ [LdstEvent.delivered mf .l1d])]
                    refine delivered.extend ⟨kinds, fun _ _ => rfl⟩ ?_ delivered.dispatch
                      (fun b s mf held => .inl ⟨b, s, held⟩) ?_ (fun q pending => .inl (extras q pending)) (by simp)
                      (fun answer member => .inl member) (by simp)
                    · exact fun q unused => routed.blank q (serial ▸ unused)
                    · exact fun q member => .inl (queue ▸ member)
              · cases done
                exact stays

end LdstUnit

/-- The steps in which the load/store unit serves no load whose reply it would take for a bypass. -/
def AgreeingStep (cfg : LdstConfig) (unit : LdstUnit) (events : List LdstEvent) (next : LdstUnit) : Prop :=
  LdstStep cfg unit events next ∧ ∀ inst accessq, unit.dispatchReg = some (inst, accessq) → Agrees cfg inst

namespace LdstUnit

variable {cfg : LdstConfig} {unit next : LdstUnit} {trace events : List LdstEvent}

theorem Routed.step (routed : Routed cfg trace unit) (stepped : AgreeingStep cfg unit events next) :
    Routed cfg (trace ++ events) next := by
  obtain ⟨stepped, agrees⟩ := stepped
  cases stepped with
  | issue free space typed counted =>
      refine routed.extend (.same rfl rfl) routed.blank ?_ (fun b s mf held => .inl ⟨b, s, held⟩)
        (fun mf member => .inl member) (fun mf pending => .inl pending) (by simp) (fun answer member => .inl member)
        (by simp)
      rintro i q held
      cases held
      exact typed
  | memory held served done =>
      obtain ⟨kept, subset⟩ := routed.memoryCycle served (agrees _ _ held) (routed.dispatch _ _ held) done
      exact kept.leaveDispatch fun access member => routed.dispatch _ _ held access (subset access member)
  | readOnly held elsewhere done =>
      obtain ⟨kept, subset⟩ := routed.readOnlyCycle elsewhere (routed.dispatch _ _ held) done
      exact kept.leaveDispatch fun access member => routed.dispatch _ _ held access (subset access member)
  | latencyQueue present inside done => exact routed.latencyQueueBank present done
  | l1d memportFull => exact routed.l1dCycle memportFull
  | reply arrives =>
      refine routed.of_same rfl rfl rfl rfl rfl rfl ?_ (by simp)
      intro answer member
      simp only [List.mem_append, List.mem_cons, arrives, List.not_mem_nil] at member ⊢
      tauto
  | response done => exact routed.responseCycle done
  | writeback held done => exact routed.of_same rfl rfl rfl rfl rfl rfl (fun _ member => member) (by simp)
  | takeGlobal free held => exact routed.of_same rfl rfl rfl rfl rfl rfl (fun _ member => member) (by simp)
  | takeL1d free done =>
      obtain ⟨⟨first, mshrs⟩, -, done⟩ := bind_ok.mp done
      cases done
      exact routed.of_same rfl rfl rfl rfl rfl rfl (fun _ member => member) (by simp)
  | takeReadOnly free held => exact routed.of_same rfl rfl rfl rfl rfl rfl (fun _ member => member) (by simp)

/-- When no global load with `CACHE_L1` meets `gmem_skip_L1D`, every reply goes to the one that sent its
request, the L1 data cache or the bypass, and to no other. For a load of these spaces the two decisions
agree exactly then. -/
theorem replies_go_to_requester (c : CacheConfig) (run : Reaches (AgreeingStep cfg) (create c) trace unit) :
    (∀ mf place, .delivered mf place ∈ trace → ∀ requester, .sent mf requester ∈ trace ↔ requester = place) ∧
      ∀ (inst : WarpInst) type, inst.inMemoryCycle = true → inst.accessType = some type → inst.isStore = false →
        (cfg.replyTo type inst.cacheOp = cfg.requester inst ↔ Agrees cfg inst) := by
  have routed : Routed cfg trace unit :=
    @Reaches.invariant _ _ _ _ (fun trace unit => Routed cfg trace unit) (.create c)
      (fun _ routed stepped => routed.step stepped) _ _ run
  refine ⟨?_, fun inst type served typed load => replyTo_eq_requester_iff served typed load⟩
  intro mf place delivered requester
  obtain ⟨read, rfl, other, sent⟩ := routed.delivered mf place delivered
  constructor
  · intro also
    exact ((routed.sent mf requester also).reply read).symm
  · rintro rfl
    rw [(routed.sent mf other sent).reply read]
    exact sent

/-! ## A load with `CACHE_L1` -/

/-- A unit whose L1 data cache has one line. -/
def smallConfig (gmemSkipL1D : Bool) : LdstConfig where
  gmemSkipL1D := gmemSkipL1D
  perfectInstConstCache := false
  l1d := some (oneLine .localWbGlobalWt .noWriteAllocate)
  l1Latency := 1
  l1Banks := 1
  setBank _ := 0
  latency_pos := Nat.one_pos
  own_requests := by
    intro c member
    obtain rfl := Option.some.inj (Option.mem_def.mp member)
    exact ⟨rfl, rfl⟩

/-- `ld.global` with a cache operator, to register 1. -/
def globalLoad (cacheOp : CacheOperator) : WarpInst where
  uid := 0
  warpId := 0
  space := .globalSpace
  cacheOp := cacheOp
  memoryOp := .memoryLoad
  out := [1]

/-- The load misses, and its reply comes back. -/
def missAndReturn (cacheOp : CacheOperator) : List LdstOp :=
  [.issue (globalLoad cacheOp) [requestTo .globalAccR 0], .memory false, .latencyQueue 0, .l1d false, .reply 0,
    .response true 0]

theorem replies_go_to_requester_sample :
    ∃ trace unit, Reaches (AgreeingStep (smallConfig false))
        (create (oneLine .localWbGlobalWt .noWriteAllocate).toCacheConfig) trace unit ∧
      .delivered (.request 0) .l1d ∈ trace ∧
      ∀ requester, .sent (.request 0) requester ∈ trace ↔ requester = .l1d := by
  have passed : (performAll (smallConfig false) (missAndReturn .cacheAll)
      (create (oneLine .localWbGlobalWt .noWriteAllocate).toCacheConfig)).any (fun outcome =>
        decide (.delivered (.request 0) .l1d ∈ outcome.2)) = true := rfl
  obtain ⟨trace, unit, run, delivered⟩ :=
    @exists_run _ _ _ (fun _ trace => decide (.delivered (.request 0) .l1d ∈ trace)) passed
  have agreeing : Reaches (AgreeingStep (smallConfig false))
      (create (oneLine .localWbGlobalWt .noWriteAllocate).toCacheConfig) trace unit :=
    run.mono fun step => ⟨step, fun inst accessq _ skips => absurd skips.1 Bool.false_ne_true⟩
  have member := of_decide_eq_true delivered
  exact ⟨trace, unit, agreeing, member, (replies_go_to_requester _ agreeing).1 _ _ member⟩

/-- With `gmem_skip_L1D` the L1 data cache sends the request of a load with `CACHE_L1`, and the reply goes
around it. -/
theorem l1_reply_goes_around :
    ∃ trace unit, Reaches (LdstStep (smallConfig true))
        (create (oneLine .localWbGlobalWt .noWriteAllocate).toCacheConfig) trace unit ∧
      .sent (.request 0) .l1d ∈ trace ∧ .delivered (.request 0) .bypass ∈ trace ∧
      (unit.l1d.extraMfFields (.request 0)).isSome := by
  have passed : (performAll (smallConfig true) (missAndReturn .cacheL1)
      (create (oneLine .localWbGlobalWt .noWriteAllocate).toCacheConfig)).any (fun outcome =>
        decide (.sent (.request 0) .l1d ∈ outcome.2) && decide (.delivered (.request 0) .bypass ∈ outcome.2) &&
          (outcome.1.l1d.extraMfFields (.request 0)).isSome) = true := rfl
  obtain ⟨trace, unit, run, outcome⟩ := @exists_run _ _ _ (fun unit trace =>
    decide (.sent (.request 0) .l1d ∈ trace) && decide (.delivered (.request 0) .bypass ∈ trace) &&
      (unit.l1d.extraMfFields (.request 0)).isSome) passed
  simp only [Bool.and_eq_true, decide_eq_true_eq] at outcome
  exact ⟨trace, unit, run, outcome.1.1, outcome.1.2, outcome.2⟩

end LdstUnit

end GpgpuSim.Shader
