import GpgpuSim.Cache.TexOrder
import GpgpuSim.Transition.Runs

/-! Runs of a texture cache: accesses, cycles, answers of the memory and results that leave, in any order. Requests
leave in the order in which they were accepted, and no assertion fails. -/
namespace GpgpuSim.Cache
open Containers Memory Transition

inductive TexAction
  | access (mf : MfId) (time : Nat)
  | cycle (memportFull : Bool)
  | fill (mf : MfId) (time : Nat)
  | nextAccess
  /-- Requests are made and changed elsewhere. -/
  | elsewhere (pool : MfPool)

/-- A texture cache in use. The last three fields say what has happened: the requests that were accepted, those that
have left, and the number of answers that the line of a request still needs. -/
structure TexSystem (cfg : TexCacheConfig) where
  cache : TexCache cfg
  pool : MfPool
  accepted : List MfId := []
  left : List MfId := []
  due : MfId → Option Nat := fun _ => none

namespace TexSystem

variable {cfg : TexCacheConfig} {s t : TexSystem cfg} {pool : MfPool} {history : List TexAction}

def create (cfg : TexCacheConfig) (accepted : cfg.Accepted) (pool : MfPool) : TexSystem cfg where
  cache := .create cfg accepted
  pool

def block (s : TexSystem cfg) (mf : MfId) : Nat := cfg.blockAddr (s.pool.get mf).addr

def perform (s : TexSystem cfg) : TexAction → Except CacheFault (TexSystem cfg)
  | .access mf time => do
      let result ← s.cache.access s.pool (s.pool.get mf).addr mf time
      let s := { s with cache := result.cache, pool := result.pool }
      match result.status with
      | .reservationFail => return s
      | .miss => return { s with accepted := s.accepted ++ [mf], due := Function.update s.due mf (some cfg.answers) }
      | _ => return { s with accepted := s.accepted ++ [mf] }
  | .cycle memportFull => do
      let (cache, _) ← s.cache.cycle cfg s.pool memportFull
      return { s with cache }
  | .fill mf time => do
      let cache ← s.cache.fill cfg s.pool mf time
      match cfg.credited s.pool mf with
      | some target => return { s with cache, due := Function.update s.due target (oneLess (s.due target)) }
      | none => return { s with cache }
  | .nextAccess => do
      let (mf, cache) ← s.cache.nextAccess
      return { s with cache, left := s.left ++ [mf] }
  | .elsewhere pool => return { s with pool }

/-- A request is presented once at a time and asks for no more than a line, an answer comes for a line that still needs
one, `next_access` is guarded by `access_ready`, and the requests inside keep their addresses. -/
def Allowed (s : TexSystem cfg) : TexAction → Prop
  | .access mf time => time < noTimestamp ∧ (s.pool.get mf).dataSize ≤ cfg.lineSize ∧ mf ∉ s.cache.inside
  | .cycle _ => True
  | .fill mf _ => ∃ target ∈ cfg.credited s.pool mf, 0 < (s.due target).getD 0
  | .nextAccess => s.cache.accessReady = true
  | .elsewhere pool => ∀ mf ∈ s.cache.inside, (pool.get mf).addr = (s.pool.get mf).addr

instance (s : TexSystem cfg) (action : TexAction) : Decidable (s.Allowed action) :=
  match action with
  | .access mf time => inferInstanceAs (Decidable (time < noTimestamp ∧ (s.pool.get mf).dataSize ≤ cfg.lineSize ∧
      mf ∉ s.cache.inside))
  | .cycle _ => inferInstanceAs (Decidable True)
  | .fill mf _ => inferInstanceAs (Decidable (∃ target ∈ cfg.credited s.pool mf, 0 < (s.due target).getD 0))
  | .nextAccess => inferInstanceAs (Decidable (s.cache.accessReady = true))
  | .elsewhere pool => inferInstanceAs (Decidable (∀ mf ∈ s.cache.inside, (pool.get mf).addr = (s.pool.get mf).addr))

def Step (s : TexSystem cfg) (actions : List TexAction) (t : TexSystem cfg) : Prop :=
  ∃ action, actions = [action] ∧ s.Allowed action ∧ s.perform action = .ok t

def Run (cfg : TexCacheConfig) (accepted : cfg.Accepted) (pool : MfPool) (history : List TexAction)
    (s : TexSystem cfg) : Prop :=
  Reaches Step (create cfg accepted pool) history s

/-- What holds between two actions. -/
structure Good (s : TexSystem cfg) : Prop where
  sound : s.cache.Sound s.block s.due
  order : s.accepted = s.left ++ s.cache.inside

theorem Good.access (accepted : cfg.Accepted) (good : s.Good) {mf : MfId} {time : Nat}
    (allowed : s.Allowed (.access mf time)) : ∃ t, s.perform (.access mf time) = .ok t ∧ t.Good := by
  obtain ⟨early, fits, fresh⟩ := allowed
  obtain ⟨result, accessed, addresses, answered⟩ :=
    good.sound.access accepted (fun _ => rfl) early fits fresh
  have same_block : (fun mf => cfg.blockAddr (result.pool.get mf).addr) = s.block := by
    funext other
    rw [addresses, block]
  simp only [perform, accessed, bind, Except.bind, pure, Except.pure]
  cases answered with
  | refused status same =>
    refine ⟨_, by rw [status], ?_, ?_⟩
    · change result.cache.Sound (fun mf => cfg.blockAddr (result.pool.get mf).addr) s.due
      rw [same_block, same]
      exact good.sound
    · simpa only [same] using good.order
  | hit status entered sound =>
    refine ⟨_, by rw [status], ?_, ?_⟩
    · change result.cache.Sound (fun mf => cfg.blockAddr (result.pool.get mf).addr) s.due
      rw [same_block]
      exact sound
    · simp only [entered, good.order, List.append_assoc]
  | missed status entered sound =>
    refine ⟨_, by rw [status], ?_, ?_⟩
    · change result.cache.Sound (fun mf => cfg.blockAddr (result.pool.get mf).addr) _
      rw [same_block]
      exact sound
    · simp only [entered, good.order, List.append_assoc]

/-- The oldest fragment moves on if its line is there and the result FIFO has room. -/
theorem Good.cycle (good : s.Good) (memportFull : Bool) :
    ∃ t, s.perform (.cycle memportFull) = .ok t ∧ t.Good ∧ t.accepted = s.accepted ∧ t.left = s.left ∧ t.due = s.due ∧
      t.cache.inside = s.cache.inside ∧
      (s.cache.resultFifo.full = false → (∀ e ∈ s.cache.fragmentFifo.toList.head?, s.due e.request = none) →
        t.cache.fragmentFifo.toList = s.cache.fragmentFifo.toList.tail) := by
  obtain ⟨next, sent, cycled, sound, inside, moves⟩ := good.sound.cycle (fun _ => rfl) memportFull
  refine ⟨{ s with cache := next }, ?_, ⟨sound, ?_⟩, rfl, rfl, rfl, inside, moves⟩
  · simp only [perform, cycled, bind, Except.bind, pure, Except.pure]
  · rw [good.order, inside]

theorem Good.fill (good : s.Good) {mf : MfId} {time : Nat} (allowed : s.Allowed (.fill mf time)) :
    ∃ t, s.perform (.fill mf time) = .ok t ∧ t.Good := by
  obtain ⟨target, credited, needed⟩ := allowed
  have credited : cfg.credited s.pool mf = some target := credited
  obtain ⟨n, wait⟩ : ∃ n, s.due target = some (n + 1) := by
    cases wait : s.due target with
    | none => rw [wait] at needed; exact absurd needed (Nat.lt_irrefl 0)
    | some n => exact ⟨n - 1, congrArg some (by rw [wait] at needed; exact (Nat.succ_pred_eq_of_pos needed).symm)⟩
  obtain ⟨next, filled, inside, sound⟩ := good.sound.fill (fun _ => rfl) credited wait time
  refine ⟨{ s with cache := next, due := Function.update s.due target (oneLess (s.due target)) }, ?_, sound, ?_⟩
  · simp only [perform, filled, credited, bind, Except.bind, pure, Except.pure]
  · rw [good.order, inside]

theorem Good.nextAccess (good : s.Good) (allowed : s.Allowed .nextAccess) :
    ∃ t, s.perform .nextAccess = .ok t ∧ t.Good ∧ t.accepted = s.accepted ∧ t.due = s.due ∧
      s.cache.inside.length = t.cache.inside.length + 1 ∧ t.cache.fragmentFifo = s.cache.fragmentFifo ∧
      t.cache.resultFifo.full = false := by
  obtain ⟨mf, next, left, sound, inside, -, fragments, room⟩ := good.sound.nextAccess allowed
  refine ⟨{ s with cache := next, left := s.left ++ [mf] }, ?_, ⟨sound, ?_⟩, rfl, rfl, ?_, fragments, room⟩
  · simp only [perform, left, bind, Except.bind, pure, Except.pure]
  · rw [good.order, inside, List.append_assoc, List.singleton_append]
  · rw [inside, List.length_cons]

/-- An allowed action fails no assertion. -/
theorem Good.perform (accepted : cfg.Accepted) (good : s.Good) {action : TexAction} (allowed : s.Allowed action) :
    ∃ t, s.perform action = .ok t ∧ t.Good := by
  cases action with
  | access mf time => exact good.access accepted allowed
  | cycle memportFull =>
    obtain ⟨t, cycled, still, -⟩ := good.cycle memportFull
    exact ⟨t, cycled, still⟩
  | fill mf time => exact good.fill allowed
  | nextAccess =>
    obtain ⟨t, left, still, -⟩ := good.nextAccess allowed
    exact ⟨t, left, still⟩
  | elsewhere pool =>
    exact ⟨{ s with pool }, rfl, good.sound.congr fun mf inside => congrArg cfg.blockAddr (allowed mf inside),
      good.order⟩

theorem Run.good {accepted : cfg.Accepted} (run : Run cfg accepted pool history s) : s.Good := by
  refine run.invariant (P := fun _ s => s.Good) ⟨.create accepted, rfl⟩ ?_
  rintro trace s events t - good ⟨action, -, allowed, done⟩
  obtain ⟨t', done', still⟩ := good.perform accepted allowed
  obtain rfl := Except.ok.inj (done.symm.trans done')
  exact still

/-! ## Draining -/

/-- A result leaves if there is one, then the cache has a cycle. -/
def round (s : TexSystem cfg) (memportFull : Bool) : Except CacheFault (TexSystem cfg) := do
  let s ← if s.cache.accessReady then s.perform .nextAccess else .ok s
  s.perform (.cycle memportFull)

def rounds (s : TexSystem cfg) (memportFull : List Bool) : Except CacheFault (TexSystem cfg) :=
  memportFull.foldlM round s

/-- The moves until everything inside has left: a fragment has two to go, a result one. -/
def remaining (s : TexSystem cfg) : Nat := s.cache.inside.length + s.cache.fragmentFifo.toList.length

theorem remaining_le (s : TexSystem cfg) : s.remaining ≤ 2 * s.cache.inside.length := by
  have fewer : s.cache.fragmentFifo.toList.length ≤ s.cache.inside.length := by
    rw [TexCache.inside, List.length_append, List.length_map]
    exact Nat.le_add_left _ _
  rw [remaining]
  omega

/-- Every line has come, and the accepted requests are those of `s`. -/
structure Filled (s t : TexSystem cfg) : Prop where
  good : t.Good
  accepted : t.accepted = s.accepted
  due : ∀ mf, t.due mf = none

/-- A cycle with room for a result moves the oldest fragment, if there is one. -/
theorem Filled.cycle (filled : s.Filled t) (room : t.cache.resultFifo.full = false) (memportFull : Bool) :
    ∃ u, t.perform (.cycle memportFull) = .ok u ∧ s.Filled u ∧
      u.remaining = t.cache.inside.length + (t.cache.fragmentFifo.toList.length - 1) := by
  obtain ⟨u, cycled, good, accepted, -, due, inside, moves⟩ := filled.good.cycle memportFull
  refine ⟨u, cycled, ⟨good, accepted.trans filled.accepted, due ▸ filled.due⟩, ?_⟩
  rw [remaining, inside, moves room fun e _ => filled.due e.request, List.length_tail]

/-- With no result waiting, a cycle has room for one, and only fragments are inside. -/
theorem Filled.round (filled : s.Filled t) (memportFull : Bool) :
    ∃ u, t.round memportFull = .ok u ∧ s.Filled u ∧ u.remaining ≤ t.remaining - 1 := by
  unfold TexSystem.round
  cases ready : t.cache.accessReady with
  | true =>
    obtain ⟨left, leaves, good, accepted, due, shorter, fragments, room⟩ := filled.good.nextAccess ready
    have still : s.Filled left := ⟨good, accepted.trans filled.accepted, due ▸ filled.due⟩
    obtain ⟨u, cycled, filled, counted⟩ := still.cycle room memportFull
    refine ⟨u, ?_, filled, ?_⟩
    · simp only [if_true, leaves, cycled, bind, Except.bind]
    · rw [counted, remaining, shorter, fragments]
      omega
  | false =>
    have no_result : t.cache.resultFifo.toList = [] := by
      rw [← RingBuffer.empty_iff]
      simpa [TexCache.accessReady] using ready
    have room : t.cache.resultFifo.full = false := by
      rw [← Bool.not_eq_true, RingBuffer.full_iff, no_result, List.length_nil]
      exact Nat.ne_of_lt (Nat.zero_lt_of_lt t.cache.resultFifo.tail_lt)
    obtain ⟨u, cycled, filled, counted⟩ := filled.cycle room memportFull
    refine ⟨u, cycled, filled, ?_⟩
    rw [counted, remaining, TexCache.inside, no_result, List.nil_append, List.length_map]
    omega

/-- Enough rounds empty the cache. -/
theorem Filled.rounds (filled : s.Filled t) (memportFull : List Bool) (enough : t.remaining ≤ memportFull.length) :
    ∃ u, t.rounds memportFull = .ok u ∧ u.accepted = s.accepted ∧ u.left = s.accepted := by
  induction memportFull generalizing t with
  | nil =>
    have empty : t.cache.inside = [] :=
      List.length_eq_zero_iff.mp (Nat.eq_zero_of_add_eq_zero_right (Nat.le_zero.mp enough))
    refine ⟨t, rfl, filled.accepted, ?_⟩
    rw [← filled.accepted, filled.good.order, empty, List.append_nil]
  | cons full memportFull ih =>
    obtain ⟨u, stepped, still, fewer⟩ := filled.round full
    rw [List.length_cons] at enough
    obtain ⟨v, rest, done⟩ := ih still (by omega)
    refine ⟨v, ?_, done⟩
    rw [TexSystem.rounds, List.foldlM_cons, stepped]
    exact rest

/-- Requests leave in the order of their acceptance, after their lines have come; a hit at the head of the fragment FIFO
finds its block, no assertion fails, and when every line has come, everything inside leaves. -/
theorem texture_cache_in_order {accepted : cfg.Accepted} (run : Run cfg accepted pool history s) :
    s.accepted = s.left ++ s.cache.inside ∧ s.cache.inside.Nodup ∧
      (∀ mf ∈ s.cache.resultFifo.toList, s.due mf = none) ∧
      (∀ e rest, s.cache.fragmentFifo.toList = e :: rest → e.miss = false →
        s.cache.data e.cacheIndex = ⟨true, s.block e.request⟩) ∧
      (∀ action, s.Allowed action → ∃ t, s.perform action = .ok t) ∧
      ((∀ mf, s.due mf = none) → ∀ memportFull : List Bool, 2 * s.cache.inside.length ≤ memportFull.length →
        ∃ t, s.rounds memportFull = .ok t ∧ t.accepted = s.accepted ∧ t.left = s.accepted) := by
  have good := run.good
  refine ⟨good.order, good.sound.distinct, fun mf => good.sound.due_of_result, fun e rest => good.sound.readHit, ?_, ?_⟩
  · intro action allowed
    obtain ⟨t, done, -⟩ := good.perform accepted allowed
    exact ⟨t, done⟩
  · intro due memportFull enough
    exact Filled.rounds ⟨good, rfl, due⟩ memportFull (s.remaining_le.trans enough)

/-- Actions in turn, while they are allowed. -/
def follow (s : TexSystem cfg) : List TexAction → Option (TexSystem cfg)
  | [] => some s
  | action :: actions =>
      if s.Allowed action then
        match s.perform action with
        | .ok t => t.follow actions
        | .error _ => none
      else none

theorem Run.follow {accepted : cfg.Accepted} (run : Run cfg accepted pool history s) {actions : List TexAction}
    (followed : s.follow actions = some t) : Run cfg accepted pool (history ++ actions) t := by
  induction actions generalizing history s with
  | nil =>
    obtain rfl := Option.some.inj followed
    rwa [List.append_nil]
  | cons action actions ih =>
    rw [TexSystem.follow] at followed
    split at followed
    · next allowed =>
      split at followed
      next u done =>
        rw [List.append_cons]
        exact ih (run.next ⟨action, rfl, allowed, done⟩) followed
      next => cases followed
    · cases followed

/-- A texture cache of one line. -/
def oneTexLine : TexCacheConfig where
  toCacheConfig := (oneLine .readOnly .noWriteAllocate).toCacheConfig
  texMshrType := .texFifo
  resultFifoEntries := 4

theorem oneTexLine_accepted : oneTexLine.Accepted where
  readOnly := rfl
  onMiss := rfl
  normal := rfl
  fragmentFifo := by decide
  requestFifo := by decide
  rob := by decide
  resultFifo := by decide
  ways := by decide
  sets _ := Nat.one_pos

/-- Requests for two parts of one block and for another block that takes the line. -/
def threeReads : MfPool :=
  poolOf [requestTo .textureAccR 0, requestTo .textureAccR 32, requestTo .textureAccR 128]

/-- The line of a hit has been given away when the hit is about to read it. -/
theorem texture_cache_in_order_overtaken :
    ∃ history s, Run oneTexLine oneTexLine_accepted threeReads history s ∧ s.cache.tags.resident 0 = some 128 ∧
      s.cache.fragmentFifo.toList = [⟨.request 1, 0, false, 32⟩, ⟨.request 2, 0, true, 32⟩] ∧
      s.cache.data 0 = ⟨true, s.block (.request 1)⟩ := by
  let actions : List TexAction :=
    [.access (.request 0) 0, .access (.request 1) 1, .access (.request 2) 2, .cycle false, .fill (.request 2) 3,
      .fill (.request 0) 4, .cycle false]
  have passed : (((create oneTexLine oneTexLine_accepted threeReads).follow actions).map fun s =>
      (s.cache.tags.resident 0, s.cache.fragmentFifo.toList)) =
        some (some 128, [⟨.request 1, 0, false, 32⟩, ⟨.request 2, 0, true, 32⟩]) := rfl
  obtain ⟨s, followed, seen⟩ := Option.map_eq_some_iff.mp passed
  obtain ⟨resident, fragments⟩ := Prod.mk.inj seen
  have run : Run oneTexLine oneTexLine_accepted threeReads actions s := Run.follow .refl followed
  obtain ⟨-, -, -, hit, -⟩ := texture_cache_in_order run
  exact ⟨actions, s, run, resident, fragments, hit _ _ fragments rfl⟩

end TexSystem

end GpgpuSim.Cache
