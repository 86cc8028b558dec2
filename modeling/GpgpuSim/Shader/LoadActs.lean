import GpgpuSim.Shader.LoadBooks

/-! The loads of the load/store unit, whatever its caches answer and in whatever order. An access that waits
is known by its load: in the dispatch register, in the L1 latency queue, or missed, which is in a cache, in
memory or on the way back. -/
namespace GpgpuSim.Shader
open Transition

/-- What serves an access: a hit of the constant or texture cache, the perfect constant cache, a hit at the
head of the L1 latency queue, or the write-back of a reply. -/
inductive ServedBy
  | readOnlyCache
  | perfectCache
  | latencyQueue
  | writeback
  deriving DecidableEq, Repr

inductive LoadEvent
  | issued (inst : WarpInst) (accesses : Nat)
  | served (inst : WarpInst) (place : ServedBy)
  | completion (event : CompletionEvent)
  deriving DecidableEq, Repr

/-- The registers in `elsewhere` are reserved by instructions of other units and of shared memory. -/
structure LoadUnit where
  books : LdstBooks
  dispatchReg : Option (WarpInst × Nat)
  latencyQueue : List WarpInst
  missed : List WarpInst
  nextWb : Option WarpInst
  elsewhere : List (Nat × Nat)
  nextUid : Nat

namespace LoadUnit

def create : LoadUnit where
  books := ⟨fun _ _ => none, fun _ => ∅, fun _ => 0⟩
  dispatchReg := none
  latencyQueue := []
  missed := []
  nextWb := none
  elsewhere := []
  nextUid := 0

def atDispatch (unit : LoadUnit) : Option WarpInst := unit.dispatchReg.map Prod.fst

/-- The accesses that have left the dispatch register. -/
def departed (unit : LoadUnit) : List WarpInst := unit.latencyQueue ++ unit.missed ++ unit.nextWb.toList

/-- The accesses that are not served, each by its load. -/
def waiting (unit : LoadUnit) : List WarpInst :=
  (unit.dispatchReg.elim [] fun held => List.replicate held.2 held.1) ++ unit.departed

/-- The accesses of the load that are not served. -/
def unserved (unit : LoadUnit) (inst : WarpInst) : Nat := unit.waiting.count inst

/-- The load is in the dispatch register, or a register of it waits for an access. -/
def Pending (unit : LoadUnit) (inst : WarpInst) : Prop :=
  unit.atDispatch = some inst ∨ inst.outputs ≠ [] ∧ 0 < unit.unserved inst

instance (unit : LoadUnit) (inst : WarpInst) : Decidable (unit.Pending inst) :=
  inferInstanceAs (Decidable (_ ∨ _))

/-- The end of `cycle` for the load in the dispatch register, by the accesses that are left. -/
def leave (inst : WarpInst) : Nat → LoadUnit → LoadUnit × List CompletionEvent
  | 0, unit =>
      let (books, completions) := unit.books.dispatchLoad inst
      ({ unit with books, dispatchReg := none }, completions)
  | left + 1, unit => ({ unit with dispatchReg := some (inst, left + 1) }, [])

/-- An access is sent or has missed. -/
def miss (inst : WarpInst) (unit : LoadUnit) : LoadUnit := { unit with missed := inst :: unit.missed }

/-- Accesses go into the L1 latency queue. -/
def enqueue (inst : WarpInst) (accesses : Nat) (unit : LoadUnit) : LoadUnit :=
  { unit with latencyQueue := unit.latencyQueue ++ List.replicate accesses inst }

/-- The registers' counts go down by one. -/
def hit (inst : WarpInst) (unit : LoadUnit) : LoadUnit :=
    { unit with books := unit.books.hitReadOnly inst }

end LoadUnit

/-- The unit handles accesses of one load: which are served, and what is reported complete. -/
inductive LoadAct (cfg : LdstConfig) (unit : LoadUnit) (inst : WarpInst) :
    List ServedBy → List CompletionEvent → LoadUnit → Prop
  /-- A load without accesses goes through the dispatch register. -/
  | pass : unit.dispatchReg = some (inst, 0) → LoadAct cfg unit inst [] (unit.leave inst 0).2
      (unit.leave inst 0).1
  /-- `memory_cycle` sends an access around the L1 cache. -/
  | bypass {left : Nat} : unit.dispatchReg = some (inst, left + 1) → inst.inMemoryCycle = true →
      cfg.bypassAtIssue inst = true → (∀ reg ∈ inst.outputs, 0 < unit.books.pending inst.warpId reg) →
      LoadAct cfg unit inst [] ((unit.miss inst).leave inst left).2 ((unit.miss inst).leave inst left).1
  /-- `memory_cycle` puts accesses into the L1 latency queue, as many as find their banks free. -/
  | enqueue {accesses left : Nat} : unit.dispatchReg = some (inst, accesses + left) →
      inst.inMemoryCycle = true →
      cfg.bypassAtIssue inst = false →
      LoadAct cfg unit inst [] ((unit.enqueue inst accesses).leave inst left).2
        ((unit.enqueue inst accesses).leave inst left).1
  /-- `constant_cycle` and `texture_cycle`, for a cache that hits. -/
  | readOnlyHit {left : Nat} : unit.dispatchReg = some (inst, left + 1) → inst.inMemoryCycle = false →
      (cfg.perfectInstConstCache && inst.inConstantCycle) = false →
      LoadAct cfg unit inst [.readOnlyCache] ((unit.hit inst).leave inst left).2
        ((unit.hit inst).leave inst left).1
  | readOnlyMiss {left : Nat} : unit.dispatchReg = some (inst, left + 1) → inst.inMemoryCycle = false →
      (cfg.perfectInstConstCache && inst.inConstantCycle) = false →
      LoadAct cfg unit inst [] ((unit.miss inst).leave inst left).2 ((unit.miss inst).leave inst left).1
  /-- The perfect constant cache takes all accesses at once. -/
  | perfect {left : Nat} : unit.dispatchReg = some (inst, left + 1) →
      (cfg.perfectInstConstCache && inst.inConstantCycle) = true →
      LoadAct cfg unit inst (List.replicate (left + 1) .perfectCache) ((unit.hit inst).leave inst 0).2
        ((unit.hit inst).leave inst 0).1
  /-- The head of a bank of the L1 latency queue hits. -/
  | queueHit {before after : List WarpInst} {books : LdstBooks} {completions : List CompletionEvent} :
      unit.latencyQueue = before ++ inst :: after → unit.books.hitQueued inst = .ok (books, completions) →
      LoadAct cfg unit inst [.latencyQueue] completions
        { unit with books, latencyQueue := before ++ after }
  | queueMiss {before after : List WarpInst} : unit.latencyQueue = before ++ inst :: after →
      LoadAct cfg unit inst [] []
        { unit with latencyQueue := before ++ after, missed := inst :: unit.missed }
  /-- A reply comes to the write-back register. -/
  | take {before after : List WarpInst} : unit.nextWb = none → unit.missed = before ++ inst :: after →
      LoadAct cfg unit inst [] [] { unit with missed := before ++ after, nextWb := some inst }
  | writeback {books : LdstBooks} {completions : List CompletionEvent} : unit.nextWb = some inst →
      unit.books.writeback inst = .ok (books, completions) →
      LoadAct cfg unit inst [.writeback] completions { unit with books, nextWb := none }

/-- The events of an act. -/
def actEvents (inst : WarpInst) (served : List ServedBy) (completions : List CompletionEvent) :
    List LoadEvent :=
  served.map (.served inst ·) ++ completions.map .completion

/-- The steps of the unit, in any order. Every instruction has a `uid` of its own. -/
inductive LoadStep (cfg : LdstConfig) (unit : LoadUnit) : List LoadEvent → LoadUnit → Prop
  /-- A load that is not of shared memory comes to the dispatch register. -/
  | issue {inst : WarpInst} {accesses : Nat} {books : LdstBooks} : unit.dispatchReg = none →
      inst.isLoad = true →
      inst.space ≠ .sharedSpace → unit.nextUid ≤ inst.uid → accesses < 2 ^ 32 →
      LdstBooks.issueLoad inst accesses inst.outputs unit.books = .ok books →
      LoadStep cfg unit [.issued inst accesses]
        { unit with books, dispatchReg := some (inst, accesses), nextUid := inst.uid + 1 }
  | act {inst : WarpInst} {served : List ServedBy} {completions : List CompletionEvent}
      {next : LoadUnit} :
      LoadAct cfg unit inst served completions next → LoadStep cfg unit
        (actEvents inst served completions) next
  /-- Another instruction reserves a register. -/
  | reserve {warpId reg : Nat} : reg ∉ unit.books.regTable warpId →
      LoadStep cfg unit [] { unit with
        books.regTable := Function.update unit.books.regTable warpId
          (insert reg (unit.books.regTable warpId))
        elsewhere := (warpId, reg) :: unit.elsewhere }
  /-- It releases a register that it has reserved. -/
  | release {warpId reg : Nat} : (warpId, reg) ∈ unit.elsewhere →
      LoadStep cfg unit [] { unit with
        books := unit.books.releaseRegister warpId reg
        elsewhere := unit.elsewhere.filter fun held => decide (held ≠ (warpId, reg)) }

namespace LoadUnit

/-- An access whose service underflows a count or fails an assertion. -/
inductive Faults (unit : LoadUnit) : Prop
  | dispatch {inst : WarpInst} {left reg : Nat} : unit.dispatchReg = some (inst, left + 1) →
      reg ∈ inst.outputs →
      unit.books.pending inst.warpId reg = 0 → Faults unit
  | queueHit {inst : WarpInst} {fault : LdstFault} : inst ∈ unit.latencyQueue →
      unit.books.hitQueued inst = .error fault → Faults unit
  | writeback {inst : WarpInst} {fault : LdstFault} : unit.nextWb = some inst →
      unit.books.writeback inst = .error fault → Faults unit

/-- No load of several registers has its last access served at the head of the L1 latency queue, and no load
of several accesses goes to the perfect constant cache. -/
def Careful (unit : LoadUnit) (events : List LoadEvent) : Prop :=
  ∀ inst, (.served inst .latencyQueue ∈ events → unit.unserved inst = 1 → inst.outputs.length ≤ 1) ∧
    (.served inst .perfectCache ∈ events → inst.outputs ≠ [] → unit.dispatchReg = some (inst, 1))

end LoadUnit

def CarefulStep (cfg : LdstConfig) (unit : LoadUnit) (events : List LoadEvent) (next : LoadUnit) : Prop :=
  LoadStep cfg unit events next ∧ unit.Careful events

/-! ## What an act does -/

namespace LoadUnit

open LdstBooks

variable {cfg : LdstConfig} {unit next : LoadUnit} {inst : WarpInst} {left served : Nat}
  {completions : List CompletionEvent}

/-- What is known of a load that the unit handles. -/
structure Sound (unit : LoadUnit) (inst : WarpInst) : Prop where
  load : inst.isLoad = true
  outside : inst.space ≠ .sharedSpace
  distinct : inst.outputs.Nodup
  fits : unit.unserved inst < 2 ^ 32
  vacant : unit.dispatchReg = some (inst, 0) → unit.unserved inst = 0
  counted : unit.Pending inst → unit.books.Counted inst.warpId inst.outputs (unit.unserved inst)

/-- Some accesses of one load are served, and it completes once when none waits any more. -/
structure Effect (unit : LoadUnit) (inst : WarpInst) (served : Nat) (completions : List CompletionEvent)
    (next : LoadUnit) : Prop where
  waiting : unit.waiting.Perm (List.replicate served inst ++ next.waiting)
  dispatch : ∀ other, other ≠ inst → (next.atDispatch = some other ↔ unit.atDispatch = some other)
  vacant : ∀ other, next.dispatchReg = some (other, 0) → unit.dispatchReg = some (other, 0)
  kept : next.Pending inst → unit.Pending inst
  books : Assigned inst.warpId inst.outputs
    (if next.Pending inst then some (next.unserved inst) else none)
    unit.books next.books
  completes : unit.Pending inst → ¬ next.Pending inst → CompletesOnce inst completions
  silent : (unit.Pending inst → next.Pending inst) → completions = []
  elsewhere : next.elsewhere = unit.elsewhere
  nextUid : next.nextUid = unit.nextUid

theorem waiting_held (held : unit.dispatchReg = some (inst, left)) :
    unit.waiting = List.replicate left inst ++ unit.departed := by
  simp only [waiting, held, Option.elim_some]

theorem unserved_held (held : unit.dispatchReg = some (inst, left)) :
    unit.unserved inst = left + unit.departed.count inst := by
  rw [unserved, waiting_held held, List.count_append, List.count_replicate_self]

theorem unserved_empty (held : unit.dispatchReg = none) :
    unit.unserved inst = unit.departed.count inst := by
  simp only [unserved, waiting, held, Option.elim_none, List.nil_append]

theorem pending_held (held : unit.dispatchReg = some (inst, left)) : unit.Pending inst := by
  simp only [Pending, atDispatch, held, Option.map_some, true_or]

@[simp] theorem departed_leave : (unit.leave inst left).1.departed = unit.departed := by
  cases left <;> rfl

/-- A load with no output register has nothing to assign. -/
theorem assigned_nil {value early : Option Nat} {books after : LdstBooks} (none : inst.outputs = [])
    (assigned : Assigned inst.warpId inst.outputs early books after) :
    Assigned inst.warpId inst.outputs value books after where
  inside reg member := by
    rw [none] at member
    contradiction
  outside := assigned.outside

/-- The load in the dispatch register stays there, or leaves and is complete when nothing is pending. -/
theorem leave_effect {middle : LoadUnit} {before : Nat} (held : unit.dispatchReg = some (inst, before))
    (distinct : inst.outputs.Nodup) (waiting : unit.waiting.Perm
        (List.replicate served inst ++ (List.replicate left inst ++ middle.departed)))
    (books : Assigned inst.warpId inst.outputs
        (some (left + middle.departed.count inst)) unit.books middle.books)
    (elsewhere : middle.elsewhere = unit.elsewhere) (nextUid : middle.nextUid = unit.nextUid) :
    Effect unit inst served (middle.leave inst left).2 (middle.leave inst left).1 := by
  have here : unit.atDispatch = some inst := by rw [atDispatch, held, Option.map_some]
  have apart : ∀ other, other ≠ inst → unit.atDispatch ≠ some other := by
    intro other different same
    exact different (Option.some.inj (same.symm.trans here))
  cases left with
  | succ left =>
      have stays : (middle.leave inst (left + 1)).1.dispatchReg = some (inst, left + 1) := rfl
      have pending := pending_held stays
      refine ⟨?_, ?_, ?_, fun _ => pending_held held, ?_, fun _ done => absurd pending done, fun _ => rfl,
        elsewhere, nextUid⟩
      · rwa [waiting_held stays, departed_leave]
      · intro other different
        refine iff_of_false ?_ (apart other different)
        rw [atDispatch, stays, Option.map_some]
        exact fun same => different (Option.some.inj same).symm
      · intro other same
        cases stays.symm.trans same
      · rw [if_pos pending, unserved_held stays, departed_leave]
        exact books
  | zero =>
      rw [Nat.zero_add] at books
      rw [List.replicate_zero, List.nil_append] at waiting
      have gone : (middle.leave inst 0).1.dispatchReg = none := rfl
      have empty : (middle.leave inst 0).1.atDispatch = none := by rw [atDispatch, gone, Option.map_none]
      have left_over : (middle.leave inst 0).1.waiting = middle.departed := by
        simp only [LoadUnit.waiting, gone, Option.elim_none, List.nil_append, departed_leave]
      have unserved_eq : (middle.leave inst 0).1.unserved inst = middle.departed.count inst := by
        rw [unserved, left_over]
      have frame : ∀ other, other ≠ inst →
          ((middle.leave inst 0).1.atDispatch = some other ↔ unit.atDispatch = some other) := by
        intro other different
        rw [empty]
        exact iff_of_false nofun (apart other different)
      have pending_iff : (middle.leave inst 0).1.Pending inst ↔
          inst.outputs ≠ [] ∧ 0 < middle.departed.count inst := by
        simp only [Pending, empty, unserved_eq, false_or, reduceCtorEq]
      by_cases waits : inst.outputs ≠ [] ∧ 0 < middle.departed.count inst
      · have stay : middle.books.dispatchLoad inst = (middle.books, []) :=
          dispatchLoad_pending books.counted waits.2 waits.1
        have pending := pending_iff.mpr waits
        refine ⟨left_over ▸ waiting, frame, by simp [gone], fun _ => pending_held held, ?_,
          fun _ done => absurd pending done, fun _ => ?_, elsewhere, nextUid⟩
        · rw [if_pos pending, unserved_eq]
          simpa only [leave, stay] using books
        · simp only [leave, stay]
      · have zero : middle.books.Counted inst.warpId inst.outputs 0 := by
          intro reg member
          have some : inst.outputs ≠ [] := List.ne_nil_of_mem member
          have none : middle.departed.count inst = 0 := by
            by_contra positive
            exact waits ⟨some, Nat.pos_of_ne_zero positive⟩
          exact none ▸ books.counted reg member
        obtain ⟨after, left_dispatch, assigned⟩ := dispatchLoad_zero zero distinct
        have over_now : ¬ (middle.leave inst 0).1.Pending inst := fun pending => waits
          (pending_iff.mp pending)
        refine ⟨left_over ▸ waiting, frame, by simp [gone], fun _ => pending_held held, ?_, fun _ _ => ?_,
          fun keeps => absurd (keeps (pending_held held)) over_now, elsewhere, nextUid⟩
        · rw [if_neg over_now]
          simpa only [leave, left_dispatch] using books.trans assigned
        · simpa only [leave, left_dispatch] using dispatchEvents_once distinct

theorem count_waiting {accesses : Nat} {other : WarpInst} (held : unit.dispatchReg = some (other, accesses)) :
    unit.waiting.count inst = (if other = inst then accesses else 0) + unit.departed.count inst := by
  rw [waiting_held held, List.count_append, List.count_replicate]
  simp only [beq_iff_eq]

/-- An access that has left the dispatch register is served. -/
theorem serve_effect (sound : unit.Sound inst) (waiting : unit.waiting.Perm (inst :: next.waiting))
    (same : next.dispatchReg = unit.dispatchReg)
    (books : Assigned inst.warpId inst.outputs (remaining (unit.unserved inst)) unit.books next.books)
    (last : unit.unserved inst = 1 → inst.outputs ≠ [] → CompletesOnce inst completions)
    (more : unit.unserved inst ≠ 1 ∨ inst.outputs = [] → completions = [])
    (elsewhere : next.elsewhere = unit.elsewhere) (nextUid : next.nextUid = unit.nextUid) :
    Effect unit inst 1 completions next := by
  have counts : unit.unserved inst = next.unserved inst + 1 := by
    rw [unserved, unserved, waiting.count_eq, List.count_cons_self]
  have at_dispatch : next.atDispatch = unit.atDispatch := by rw [atDispatch, atDispatch, same]
  have frame : ∀ other, other ≠ inst → (next.atDispatch = some other ↔ unit.atDispatch = some other) := by
    intro other _
    rw [at_dispatch]
  have vacant : ∀ other, next.dispatchReg = some (other, 0) → unit.dispatchReg = some (other, 0) := by
    intro other held
    rwa [same] at held
  by_cases none : inst.outputs = []
  · have pending : next.Pending inst ↔ unit.Pending inst := by
      simp only [Pending, at_dispatch, none, ne_eq, not_true_eq_false, false_and, or_false]
    exact ⟨waiting, frame, vacant, pending.mp, assigned_nil none books, fun before after => absurd
      (pending.mpr before) after,
      fun _ => more (.inr none), elsewhere, nextUid⟩
  · have before : unit.Pending inst := .inr ⟨none, by omega⟩
    by_cases one : unit.unserved inst = 1
    · have zero : next.unserved inst = 0 := by omega
      have done : ¬ next.Pending inst := by
        rintro (held | waits)
        · obtain ⟨⟨other, accesses⟩, holds, name⟩ := Option.map_eq_some_iff.mp held
          obtain rfl : other = inst := name
          have total := unserved_held holds
          obtain rfl : accesses = 0 := by omega
          have empty := sound.vacant (vacant _ holds)
          omega
        · omega
      refine ⟨waiting, frame, vacant, fun pending => absurd pending done, ?_, fun _ _ => last one none,
        fun keeps => absurd (keeps before) done, elsewhere, nextUid⟩
      rw [if_neg done]
      simpa only [remaining, if_pos one] using books
    · have after : next.Pending inst := .inr ⟨none, by omega⟩
      refine ⟨waiting, frame, vacant, fun _ => before, ?_, fun _ gone => absurd after gone,
        fun _ => more (.inl one), elsewhere, nextUid⟩
      have left : remaining (unit.unserved inst) = some (next.unserved inst) := by
        rw [remaining, if_neg one, counts, Nat.add_sub_cancel]
      rwa [if_pos after, ← left]

/-- An access goes from one place to another. -/
theorem move_effect (sound : unit.Sound inst) (waits : 0 < unit.unserved inst)
    (waiting : unit.waiting.Perm next.waiting)
    (same : next.dispatchReg = unit.dispatchReg) (books : next.books = unit.books)
    (elsewhere : next.elsewhere = unit.elsewhere) (nextUid : next.nextUid = unit.nextUid) :
    Effect unit inst 0 [] next := by
  have counts : next.unserved inst = unit.unserved inst := waiting.symm.count_eq inst
  have at_dispatch : next.atDispatch = unit.atDispatch := by rw [atDispatch, atDispatch, same]
  have pending : next.Pending inst ↔ unit.Pending inst := by simp only [Pending, at_dispatch, counts]
  refine ⟨waiting, fun other _ => by rw [at_dispatch], fun other held => by rwa [same] at held,
    pending.mp, ?_,
    fun before after => absurd (pending.mpr before) after, fun _ => rfl, elsewhere, nextUid⟩
  rw [books]
  by_cases held : next.Pending inst
  · rw [if_pos held, counts]
    exact .of_counted (sound.counted (pending.mp held))
  · have none : inst.outputs = [] := by
      by_contra some
      exact held (.inr ⟨some, by omega⟩)
    rw [if_neg held, none]
    exact .nil

theorem sound_counted (sound : unit.Sound inst) (waits : 0 < unit.unserved inst) :
    unit.books.Counted inst.warpId inst.outputs (unit.unserved inst) := by
  intro reg member
  exact sound.counted (.inr ⟨List.ne_nil_of_mem member, waits⟩) reg member

/-- Accesses leave the dispatch register for another place. -/
theorem leave_move {middle : LoadUnit} {before : Nat} (held : unit.dispatchReg = some (inst, before))
    (sound : unit.Sound inst) (moved : (List.replicate before inst ++ unit.departed).Perm
        (List.replicate left inst ++ middle.departed))
    (books : middle.books = unit.books) (elsewhere : middle.elsewhere = unit.elsewhere)
    (nextUid : middle.nextUid = unit.nextUid) :
    Effect unit inst 0 (middle.leave inst left).2 (middle.leave inst left).1 := by
  have counts : unit.unserved inst = left + middle.departed.count inst := by
    rw [unserved, waiting_held held, moved.count_eq, List.count_append, List.count_replicate_self]
  refine leave_effect held sound.distinct (by rwa [waiting_held held]) ?_ elsewhere nextUid
  rw [books, ← counts]
  exact .of_counted (sound.counted (pending_held held))

/-- Accesses are served in the dispatch register, and the counts go down by one. -/
theorem leave_hit {before : Nat} (held : unit.dispatchReg = some (inst, before)) (sound : unit.Sound inst)
    (split : before = served + left) (waits : 0 < before) (one : inst.outputs ≠ [] → served = 1) :
    Effect unit inst served ((unit.hit inst).leave inst left).2 ((unit.hit inst).leave inst left).1 := by
  have counts := unserved_held held
  refine leave_effect held sound.distinct ?_ ?_ rfl rfl
  · rw [waiting_held held, split, List.replicate_add, List.append_assoc]
    rfl
  · have assigned := hitReadOnly_assigned (sound_counted sound (by omega)) sound.distinct
      (by omega) sound.fits
    by_cases none : inst.outputs = []
    · exact assigned_nil none assigned
    · have single := one none
      have left_over : unit.unserved inst - 1 = left + (unit.hit inst).departed.count inst := by
        change unit.unserved inst - 1 = left + unit.departed.count inst
        omega
      rw [← left_over]
      exact assigned

theorem act_effect {places : List ServedBy} (act : LoadAct cfg unit inst places completions next)
    (careful : unit.Careful (actEvents inst places completions)) (sound : unit.Sound inst) :
    Effect unit inst places.length completions next := by
  cases act with
  | pass held => exact leave_move held sound (.refl _) rfl rfl rfl
  | bypass held _ _ _ =>
      refine leave_move held sound (List.perm_iff_count.mpr fun other => ?_) rfl rfl rfl
      simp only [departed, miss, List.replicate_succ, List.count_append, List.count_cons]
      omega
  | enqueue held _ _ =>
      refine leave_move held sound (List.perm_iff_count.mpr fun other => ?_) rfl rfl rfl
      simp only [departed, enqueue, List.replicate_add, List.count_append]
      omega
  | readOnlyHit held _ _ => exact leave_hit held sound (Nat.add_comm ..) (Nat.succ_pos _) fun _ => rfl
  | readOnlyMiss held _ _ =>
      refine leave_move held sound (List.perm_iff_count.mpr fun other => ?_) rfl rfl rfl
      simp only [departed, miss, List.replicate_succ, List.count_append, List.count_cons]
      omega
  | @perfect left held _ =>
      refine leave_hit held sound (by simp) (Nat.succ_pos _) fun some => ?_
      have single := (careful inst).2 (by simp [actEvents, List.replicate_succ]) some
      rw [single] at held
      rw [List.length_replicate]
      exact (Prod.mk.inj (Option.some.inj held)).2.symm
  | @queueHit before after books _ queue done =>
      have waits : 0 < unit.unserved inst := by
        refine List.count_pos_iff.mpr ?_
        simp [LoadUnit.waiting, departed, queue]
      obtain ⟨reached, served, assigned⟩ :=
        hitQueued_assigned sound.load (sound_counted sound waits) sound.distinct waits
      obtain ⟨rfl, rfl⟩ := Prod.mk.inj (Except.ok.inj (done.symm.trans served))
      refine serve_effect sound (List.perm_iff_count.mpr fun other => ?_) rfl assigned ?_ ?_ rfl rfl
      · simp only [LoadUnit.waiting, departed, queue, List.count_append, List.count_cons]
        omega
      · intro last some
        have few := (careful inst).1 (by simp [actEvents]) last
        obtain ⟨reg, one⟩ := List.length_eq_one_iff.mp
          (Nat.le_antisymm few (List.length_pos_iff.mpr some))
        rw [last]
        exact hitEvents_once one rfl
      · rintro (more | none)
        · rw [hitEvents, if_neg more]
        · simp [hitEvents, none]
  | queueMiss queue =>
      refine move_effect sound (List.count_pos_iff.mpr ?_)
        (List.perm_iff_count.mpr fun other => ?_) rfl rfl rfl rfl
      · simp [LoadUnit.waiting, departed, queue]
      · simp only [LoadUnit.waiting, departed, queue, List.count_append, List.count_cons]
        omega
  | take free found =>
      refine move_effect sound (List.count_pos_iff.mpr ?_)
        (List.perm_iff_count.mpr fun other => ?_) rfl rfl rfl rfl
      · simp [LoadUnit.waiting, departed, found]
      · simp only
          [LoadUnit.waiting, departed, free, found, List.count_append, List.count_cons,
            Option.toList_none,
          Option.toList_some, List.count_nil]
        omega
  | writeback held done =>
      have waits : 0 < unit.unserved inst := by
        refine List.count_pos_iff.mpr ?_
        simp [LoadUnit.waiting, departed, held]
      obtain ⟨reached, served, assigned⟩ :=
        writeback_assigned sound.outside (sound_counted sound waits) sound.distinct waits
      obtain ⟨rfl, rfl⟩ := Prod.mk.inj (Except.ok.inj (done.symm.trans served))
      refine serve_effect sound (List.perm_iff_count.mpr fun other => ?_) rfl assigned ?_ ?_ rfl rfl
      · simp only
          [LoadUnit.waiting, departed, held, List.count_append, List.count_cons, Option.toList_none,
          Option.toList_some, List.count_nil]
        omega
      · intro last some
        rw [last]
        exact writebackEvents_once sound.distinct some
      · rintro (more | none)
        · simp [writebackEvents, releaseEvents, more]
        · simp [writebackEvents, releaseEvents, none]

end LoadUnit

end GpgpuSim.Shader
