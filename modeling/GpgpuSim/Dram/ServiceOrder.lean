import GpgpuSim.Dram.Scheduling
import GpgpuSim.Dram.Timing

/-! Runs of the FR-FCFS scheduler by itself. The requests of a bank, a row and a queue are returned in the order of
their arrival, and what has not been returned is the bin of that row. -/
namespace GpgpuSim.Dram
open GpgpuSim.Memory Transition

inductive SchedEvent
  | added (req : Nat)
  | returned (bank req : Nat)
  deriving DecidableEq, Repr

namespace SchedEvent

def request? : SchedEvent → Option Nat
  | added req => some req
  | returned _ _ => none

def answer? : SchedEvent → Option Nat
  | added _ => none
  | returned _ req => some req

end SchedEvent

/-- The requests of a history that were queued, and those that were returned, in order. -/
def added (trace : List SchedEvent) : List Nat := trace.filterMap SchedEvent.request?

def returned (trace : List SchedEvent) : List Nat := trace.filterMap SchedEvent.answer?

/-- The two operations, the first within the size limits. -/
inductive SchedStep (cfg : MemoryConfig) (reqs : Nat → DramReq) :
    FrfcfsScheduler → List SchedEvent → FrfcfsScheduler → Prop
  | addReq {s t} (req : Nat) (room : FrfcfsScheduler.Room cfg (reqs req) s) (inside : (reqs req).bk < cfg.nbk)
      (ok : s.addReq cfg reqs req = .ok t) : SchedStep cfg reqs s [.added req] t
  | schedule {s t} (bank currRow : Nat) (result : Option Nat) (inside : bank < cfg.nbk)
      (ok : s.schedule cfg reqs bank currRow = .ok (result, t)) :
      SchedStep cfg reqs s (result.map (.returned bank)).toList t

variable {cfg : MemoryConfig} {reqs : Nat → DramReq} {s t : FrfcfsScheduler} {trace shown : List SchedEvent}
  {bank currRow row req b : Nat} {kind : Bool}

namespace FrfcfsScheduler

/-- The queues for one kind of request: those of the write queue, and all others. -/
def queues (sched : FrfcfsScheduler) : Bool → RequestQueues
  | true => sched.writes
  | false => sched.reads

/-- The kind of request that the scheduler turns to now. -/
def turn (cfg : MemoryConfig) (sched : FrfcfsScheduler) : Bool := decide (sched.nextMode cfg = .writeMode)

theorem Sound.binned (sound : Sound cfg reqs s) (kind : Bool) : (s.queues kind).Binned reqs := by
  cases kind with
  | true => exact sound.writes
  | false => exact sound.reads

theorem Sound.kind_eq (sound : Sound cfg reqs s) {b r : Nat} (mem : r ∈ (s.queues kind).queue b) :
    separateWrite cfg (reqs r) = kind := by
  cases kind with
  | true => exact sound.writeKind b r mem
  | false => exact sound.readKind b r mem

theorem nextRow_none_iff {queues : RequestQueues} (binned : queues.Binned reqs) :
    queues.nextRow reqs bank currRow = .ok none ↔ queues.queue bank = [] := by
  unfold RequestQueues.nextRow
  cases serving : queues.lastRow bank with
  | some row =>
      refine iff_of_false nofun fun empty => binned.lastRow bank row serving ?_
      rw [binned.bins, empty, List.filter_nil]
  | none =>
      cases oldest : (queues.queue bank).getLast? with
      | none => exact iff_of_true rfl (List.getLast?_eq_none_iff.mp oldest)
      | some req =>
          refine iff_of_false ?_ fun empty => by
            rw [empty] at oldest
            contradiction
          dsimp only
          split
          · exact nofun
          · split <;> exact nofun

theorem queues_uncount (ok : s.uncount cfg reqs req = .ok t) : t.queues kind = s.queues kind := by
  unfold uncount at ok
  split at ok <;> split at ok <;> cases ok <;> cases kind <;> rfl

/-- What `schedule` does, by whether the queue that it turns to has a request of the bank. -/
theorem Sound.schedule_cases (sound : Sound cfg reqs s) (inside : bank < cfg.nbk) (currRow : Nat) :
    ∃ t, Sound cfg reqs t ∧
      ((s.queues (s.turn cfg)).queue bank = [] ∧ s.schedule cfg reqs bank currRow = .ok (none, t) ∧
          (∀ kind, t.queues kind = s.queues kind) ∨
        ∃ row req taken, (s.queues (s.turn cfg)).nextRow reqs bank currRow = .ok (some row) ∧
          (s.queues (s.turn cfg)).takeRow bank row = .ok (req, taken) ∧
          s.schedule cfg reqs bank currRow = .ok (some req, t) ∧
          ∀ kind, t.queues kind = if kind = s.turn cfg then taken else s.queues kind) := by
  obtain ⟨result, t, done, sound', -⟩ := sound.schedule inside currRow
  refine ⟨t, sound', ?_⟩
  have current : { s with mode := s.nextMode cfg }.current = s.queues (s.turn cfg) := by
    unfold FrfcfsScheduler.current turn
    cases s.nextMode cfg <;> rfl
  have ran := done
  obtain ⟨found, located, ended⟩ := bind_ok.mp done
  rw [current] at located
  cases found with
  | none =>
      cases ended
      exact .inl ⟨(nextRow_none_iff (sound.binned _)).mp located, ran, fun kind => by cases kind <;> rfl⟩
  | some row =>
      obtain ⟨⟨req, taken⟩, took, ended⟩ := bind_ok.mp ended
      obtain ⟨u, counted, ended⟩ := bind_ok.mp ended
      cases ended
      rw [current] at took
      refine .inr ⟨row, req, taken, located, took, ran, fun kind => ?_⟩
      rw [queues_uncount counted]
      unfold setCurrent turn
      cases s.nextMode cfg <;> cases kind <;> rfl

end FrfcfsScheduler

/-! ## The order of arrival -/

/-- The requests of a kind, a bank and a row. -/
def inClass (cfg : MemoryConfig) (reqs : Nat → DramReq) (kind : Bool) (b row r : Nat) : Bool :=
  FrfcfsScheduler.separateWrite cfg (reqs r) == kind && (reqs r).bk == b && (reqs r).row == row

theorem inClass_iff {r : Nat} : inClass cfg reqs kind b row r = true ↔
    FrfcfsScheduler.separateWrite cfg (reqs r) = kind ∧ (reqs r).bk = b ∧ (reqs r).row = row := by
  simp only [inClass, Bool.and_eq_true, beq_iff_eq, and_assoc]

/-- The requests of every class have arrived as they were returned and then as they wait, oldest first. -/
def Ordered (cfg : MemoryConfig) (reqs : Nat → DramReq) (trace : List SchedEvent) (s : FrfcfsScheduler) : Prop :=
  ∀ kind b row, (added trace).filter (inClass cfg reqs kind b row) =
    (returned trace).filter (inClass cfg reqs kind b row) ++ ((s.queues kind).bins b row).reverse

variable {r : Nat}

theorem Ordered.of_queued (ordered : Ordered cfg reqs trace s) (sound : s.Sound cfg reqs)
    (mem : r ∈ (s.queues kind).queue b) :
    r ∈ added trace ∧ (reqs r).bk = b := by
  have binned : r ∈ (s.queues kind).bins b (reqs r).row := by
    rw [(sound.binned kind).bins, List.mem_filter]
    exact ⟨mem, by simp⟩
  have filtered : r ∈ (added trace).filter (inClass cfg reqs kind b (reqs r).row) := by
    rw [ordered kind b]
    exact List.mem_append_right _ (List.mem_reverse.mpr binned)
  obtain ⟨arrived, same⟩ := List.mem_filter.mp filtered
  exact ⟨arrived, (inClass_iff.mp same).2.1⟩

theorem queues_add (ok : s.addReq cfg reqs req = .ok t) :
    t.queues (FrfcfsScheduler.separateWrite cfg (reqs req)) =
        (s.queues (FrfcfsScheduler.separateWrite cfg (reqs req))).add req (reqs req).bk (reqs req).row ∧
      ∀ kind, kind ≠ FrfcfsScheduler.separateWrite cfg (reqs req) → t.queues kind = s.queues kind := by
  unfold FrfcfsScheduler.addReq at ok
  dsimp only at ok
  cases separate : FrfcfsScheduler.separateWrite cfg (reqs req) with
  | true =>
      rw [if_pos separate] at ok
      split at ok
      · split at ok
        · cases ok
          exact ⟨rfl, fun kind other => by cases kind <;> [rfl; contradiction]⟩
        · contradiction
      · contradiction
  | false =>
      rw [if_neg (by simp [separate])] at ok
      split at ok
      · split at ok
        · cases ok
          exact ⟨rfl, fun kind other => by cases kind <;> [contradiction; rfl]⟩
        · contradiction
      · contradiction

theorem Ordered.add (ordered : Ordered cfg reqs trace s) (ok : s.addReq cfg reqs req = .ok t) :
    Ordered cfg reqs (trace ++ [.added req]) t := by
  obtain ⟨same, others⟩ := queues_add ok
  intro kind b row
  have arrives : added (trace ++ [.added req]) = added trace ++ [req] := by simp [added, SchedEvent.request?]
  have returns : returned (trace ++ [.added req]) = returned trace := by simp [returned, SchedEvent.answer?]
  rw [arrives, returns, List.filter_append, ordered kind b row, List.append_assoc]
  refine congrArg _ ?_
  by_cases kinds : kind = FrfcfsScheduler.separateWrite cfg (reqs req)
  · subst kinds
    rw [same]
    by_cases there : (reqs req).bk = b ∧ (reqs req).row = row
    · obtain ⟨rfl, rfl⟩ := there
      simp [RequestQueues.add, inClass_iff]
    · have elsewhere : inClass cfg reqs (FrfcfsScheduler.separateWrite cfg (reqs req)) b row req = false := by
        rw [Bool.eq_false_iff, ne_eq, inClass_iff]
        exact fun same => there same.2
      have kept : ((s.queues (FrfcfsScheduler.separateWrite cfg (reqs req))).add req (reqs req).bk (reqs req).row).bins
          b row = (s.queues (FrfcfsScheduler.separateWrite cfg (reqs req))).bins b row := by
        by_cases bank : b = (reqs req).bk
        · subst bank
          have other : row ≠ (reqs req).row := fun same => there ⟨rfl, same.symm⟩
          simp [RequestQueues.add, other]
        · simp [RequestQueues.add, bank]
      simp [elsewhere, kept]
  · have elsewhere : inClass cfg reqs kind b row req = false := by
      rw [Bool.eq_false_iff, ne_eq, inClass_iff]
      exact fun same => kinds same.1.symm
    simp [elsewhere, others kind kinds]

theorem takeRow_eq {queues taken : RequestQueues} (took : queues.takeRow bank row = .ok (req, taken)) :
    queues.bins bank row = (queues.bins bank row).dropLast ++ [req] ∧
      taken.bins = Function.update queues.bins bank
        (Function.update (queues.bins bank) row (queues.bins bank row).dropLast) ∧
      taken.queue = Function.update queues.queue bank ((queues.queue bank).erase req) ∧
      taken.lastRow = Function.update queues.lastRow bank
        (if (queues.bins bank row).dropLast = [] then none else some row) := by
  unfold RequestQueues.takeRow at took
  split at took
  · contradiction
  next r last =>
    cases took
    obtain ⟨front, split⟩ := List.getLast?_eq_some_iff.mp last
    refine ⟨?_, rfl, rfl, rfl⟩
    rw [split, List.dropLast_concat]

/-- A request that is taken from a bin is of the bin's class. -/
theorem Ordered.class_of_taken (ordered : Ordered cfg reqs trace s) (sound : s.Sound cfg reqs)
    {taken : RequestQueues} (took : (s.queues kind).takeRow bank row = .ok (req, taken)) :
    inClass cfg reqs kind bank row req = true ∧ req ∈ (s.queues kind).queue bank := by
  have mem : req ∈ (s.queues kind).bins bank row := by
    rw [(takeRow_eq took).1]
    simp
  rw [(sound.binned kind).bins, List.mem_filter, decide_eq_true_eq] at mem
  exact ⟨inClass_iff.mpr ⟨sound.kind_eq mem.1, (ordered.of_queued sound mem.1).2, mem.2⟩, mem.1⟩

theorem Ordered.take (ordered : Ordered cfg reqs trace s) (sound : s.Sound cfg reqs) {taken : RequestQueues}
    (took : (s.queues kind).takeRow bank row = .ok (req, taken))
    (after : ∀ other, t.queues other = if other = kind then taken else s.queues other) :
    Ordered cfg reqs (trace ++ [.returned bank req]) t := by
  have its_class := (ordered.class_of_taken sound took).1
  obtain ⟨whole, bins, -, -⟩ := takeRow_eq took
  intro kind' b row'
  have arrives : added (trace ++ [.returned bank req]) = added trace := by simp [added, SchedEvent.request?]
  have returns : returned (trace ++ [.returned bank req]) = returned trace ++ [req] := by
    simp [returned, SchedEvent.answer?]
  rw [arrives, returns, List.filter_append, ordered kind' b row', List.append_assoc, after]
  refine congrArg _ ?_
  by_cases here : kind' = kind ∧ b = bank ∧ row' = row
  · obtain ⟨rfl, rfl, rfl⟩ := here
    rw [if_pos rfl, bins, Function.update_self, Function.update_self, List.filter_singleton, its_class]
    conv_lhs => rw [whole, List.reverse_concat]
    rfl
  · have elsewhere : inClass cfg reqs kind' b row' req = false := by
      rw [Bool.eq_false_iff, ne_eq, inClass_iff]
      rintro ⟨rfl, rfl, rfl⟩
      obtain ⟨rfl, rfl, rfl⟩ := inClass_iff.mp its_class
      exact here ⟨rfl, rfl, rfl⟩
    rw [List.filter_singleton, elsewhere]
    split
    next same =>
      subst same
      rw [bins]
      by_cases banks : b = bank
      · subst banks
        rw [Function.update_self, Function.update_of_ne fun rows => here ⟨rfl, rfl, rows⟩]
        rfl
      · rw [Function.update_of_ne banks]
        rfl
    next => rfl

/-! ## What is served -/

/-- The row that a bank is served from: the one in service, else the open one if there is a request for it, else that
of the oldest request. -/
def servedRow (reqs : Nat → DramReq) (queues : RequestQueues) (bank currRow : Nat) : Option Nat :=
  match queues.lastRow bank with
  | some row => some row
  | none =>
      if ∃ r ∈ queues.queue bank, (reqs r).row = currRow then some currRow
      else (queues.queue bank).getLast?.map fun oldest => (reqs oldest).row

theorem nextRow_served {queues : RequestQueues} (binned : queues.Binned reqs)
    (located : queues.nextRow reqs bank currRow = .ok (some row)) : servedRow reqs queues bank currRow = some row := by
  unfold RequestQueues.nextRow at located
  unfold servedRow
  cases serving : queues.lastRow bank with
  | some last =>
      rw [serving] at located
      exact Except.ok.inj located
  | none =>
      simp only [serving] at located
      cases oldest : (queues.queue bank).getLast? with
      | none => simp [oldest] at located
      | some first =>
          simp only [oldest] at located
          have hit : queues.bins bank currRow ≠ [] ↔ ∃ r ∈ queues.queue bank, (reqs r).row = currRow := by
            rw [binned.bins, ne_eq, List.filter_eq_nil_iff]
            simp
          split at located
          next open_row =>
            rw [if_pos (hit.mp open_row)]
            exact Except.ok.inj located
          next closed =>
            rw [if_neg fun found => closed (hit.mpr found)]
            split at located
            · exact Except.ok.inj located
            · contradiction

/-- The state of a run is sound, its requests have kept their order, and each was returned for its own bank. -/
structure Kept (cfg : MemoryConfig) (reqs : Nat → DramReq) (trace : List SchedEvent) (s : FrfcfsScheduler) : Prop where
  sound : s.Sound cfg reqs
  ordered : Ordered cfg reqs trace s
  own : ∀ bank r, .returned bank r ∈ trace → (reqs r).bk = bank

theorem Kept.empty : Kept cfg reqs [] {} :=
  ⟨.empty, fun kind _ _ => by cases kind <;> rfl, by simp⟩

theorem Kept.absent (kept : Kept cfg reqs trace s) (new : req ∉ added trace) (b : Nat) :
    req ∉ s.reads.queue b ∧ req ∉ s.writes.queue b := by
  have gone (kind : Bool) : req ∉ (s.queues kind).queue b := fun mem => new (kept.ordered.of_queued kept.sound mem).1
  exact ⟨gone false, gone true⟩

theorem Kept.step (kept : Kept cfg reqs trace s) (step : SchedStep cfg reqs s shown t)
    (fresh : (added (trace ++ shown)).Nodup) : Kept cfg reqs (trace ++ shown) t := by
  cases step with
  | addReq req room inside ok =>
      have new : req ∉ added trace := by
        have distinct : (added trace ++ [req]).Nodup := by simpa [added, SchedEvent.request?] using fresh
        exact fun member => (List.nodup_append.mp distinct).2.2 req member req List.mem_cons_self rfl
      obtain ⟨t', ok', sound, -⟩ := kept.sound.addReq room inside (kept.absent new)
      obtain rfl := Except.ok.inj (ok.symm.trans ok')
      exact ⟨sound, kept.ordered.add ok, by simpa using kept.own⟩
  | schedule bank currRow result inside ok =>
      obtain ⟨t', sound, ⟨-, ok', same⟩ | ⟨row, req, taken, -, took, ok', after⟩⟩ :=
        kept.sound.schedule_cases inside currRow
      · cases ok.symm.trans ok'
        rw [Option.map_none, Option.toList_none, List.append_nil]
        exact ⟨sound, fun kind b row => by rw [same]; exact kept.ordered kind b row, kept.own⟩
      · cases ok.symm.trans ok'
        refine ⟨sound, kept.ordered.take kept.sound took after, fun b r mem => ?_⟩
        rcases List.mem_append.mp mem with old | now
        · exact kept.own b r old
        · cases List.mem_singleton.mp now
          exact (inClass_iff.mp (kept.ordered.class_of_taken kept.sound took).1).2.1

theorem Kept.run (run : Reaches (SchedStep cfg reqs) {} trace s) (fresh : (added trace).Nodup) :
    Kept cfg reqs trace s := by
  refine run.invariant (P := fun trace s => (added trace).Nodup → Kept cfg reqs trace s) (fun _ => .empty) ?_ fresh
  intro trace s shown t _ ih step fresh
  have before : (added trace).Nodup := by
    rw [added, List.filterMap_append] at fresh
    exact (List.nodup_append.mp fresh).1
  exact (ih before).step step fresh

theorem count_added (kept : Kept cfg reqs trace s) (r : Nat) : (added trace).count r = (returned trace).count r +
    ((s.queues (FrfcfsScheduler.separateWrite cfg (reqs r))).queue (reqs r).bk).count r := by
  have its_class : inClass cfg reqs (FrfcfsScheduler.separateWrite cfg (reqs r)) (reqs r).bk (reqs r).row r = true :=
    inClass_iff.mpr ⟨rfl, rfl, rfl⟩
  have counts := congrArg (List.count r) (kept.ordered (FrfcfsScheduler.separateWrite cfg (reqs r)) (reqs r).bk
    (reqs r).row)
  rwa [List.count_append, List.count_filter its_class, List.count_filter its_class, List.count_reverse,
    (kept.sound.binned _).bins, List.count_filter (by simp)] at counts

/-- The row in service stays until the bank's queue is served again. -/
theorem Kept.service_kept (kept : Kept cfg reqs trace s) (step : SchedStep cfg reqs s shown t)
    (unserved : ∀ r, .returned b r ∈ shown → FrfcfsScheduler.separateWrite cfg (reqs r) ≠ kind) :
    (t.queues kind).lastRow b = (s.queues kind).lastRow b := by
  cases step with
  | addReq req room inside ok =>
      obtain ⟨same, others⟩ := queues_add ok
      by_cases here : kind = FrfcfsScheduler.separateWrite cfg (reqs req)
      · subst here
        rw [same]
        rfl
      · rw [others kind here]
  | schedule bank currRow result inside ok =>
      obtain ⟨t', -, ⟨-, ok', same⟩ | ⟨row, req, taken, -, took, ok', after⟩⟩ :=
        kept.sound.schedule_cases inside currRow
      · cases ok.symm.trans ok'
        rw [same]
      · cases ok.symm.trans ok'
        rw [after]
        split
        next turn =>
          have other : b ≠ bank := by
            rintro rfl
            have its_class := (kept.ordered.class_of_taken kept.sound took).1
            exact unserved req (by simp) ((inClass_iff.mp its_class).1.trans turn.symm)
          rw [(takeRow_eq took).2.2.2, Function.update_of_ne other, turn]
        next => rfl

theorem Kept.service_runs (kept : Kept cfg reqs trace s) {more : List SchedEvent}
    (run : Reaches (SchedStep cfg reqs) s more t) (fresh : (added (trace ++ more)).Nodup)
    (unserved : ∀ r, .returned b r ∈ more → FrfcfsScheduler.separateWrite cfg (reqs r) ≠ kind) :
    Kept cfg reqs (trace ++ more) t ∧ (t.queues kind).lastRow b = (s.queues kind).lastRow b := by
  induction run with
  | refl =>
      rw [List.append_nil]
      exact ⟨kept, rfl⟩
  | @next earlier events u v _ step ih =>
      rw [← List.append_assoc] at fresh ⊢
      have before : (added (trace ++ earlier)).Nodup := by
        rw [added, List.filterMap_append] at fresh
        exact (List.nodup_append.mp fresh).1
      obtain ⟨kept', same⟩ := ih before fun r mem => unserved r (List.mem_append_left _ mem)
      refine ⟨kept'.step step fresh, ?_⟩
      rw [kept'.service_kept step fun r mem => unserved r (List.mem_append_right _ mem), same]

/-- What a call of `schedule` returns, and the row that is in service after it. -/
structure Schedules (cfg : MemoryConfig) (reqs : Nat → DramReq) (s : FrfcfsScheduler) (bank currRow : Nat)
    (result : Option Nat) (t : FrfcfsScheduler) : Prop where
  null : result = none ↔ (s.queues (s.turn cfg)).queue bank = []
  member : ∀ r ∈ result, r ∈ (s.queues (s.turn cfg)).queue bank
  row : ∀ r ∈ result, servedRow reqs (s.queues (s.turn cfg)) bank currRow = some (reqs r).row
  service : ∀ r ∈ result, (t.queues (s.turn cfg)).lastRow bank =
    if ∃ x ∈ (t.queues (s.turn cfg)).queue bank, (reqs x).row = (reqs r).row then some (reqs r).row else none

theorem Kept.schedules (kept : Kept cfg reqs trace s) (inside : bank < cfg.nbk) (currRow : Nat) :
    ∃ result t, s.schedule cfg reqs bank currRow = .ok (result, t) ∧ Schedules cfg reqs s bank currRow result t := by
  obtain ⟨t, sound, ⟨empty, ok, -⟩ | ⟨row, req, taken, located, took, ok, after⟩⟩ :=
    kept.sound.schedule_cases inside currRow
  · exact ⟨none, t, ok, iff_of_true rfl empty, by simp, by simp, by simp⟩
  · obtain ⟨its_class, mem⟩ := kept.ordered.class_of_taken kept.sound took
    obtain ⟨-, -, rfl⟩ := inClass_iff.mp its_class
    have served := nextRow_served (kept.sound.binned _) located
    have there : t.queues (s.turn cfg) = taken := by rw [after, if_pos rfl]
    refine ⟨some req, t, ok, iff_of_false nofun fun empty => ?_, ?_, ?_, ?_⟩
    · rw [empty] at mem
      contradiction
    · rintro r ⟨⟩
      exact mem
    · rintro r ⟨⟩
      exact served
    · rintro r ⟨⟩
      obtain ⟨-, bins, -, lastRow⟩ := takeRow_eq took
      have left : (taken.bins bank (reqs req).row) = ((s.queues (s.turn cfg)).bins bank (reqs req).row).dropLast := by
        rw [bins, Function.update_self, Function.update_self]
      have binned := (sound.binned (s.turn cfg)).bins bank (reqs req).row
      rw [there] at binned ⊢
      rw [lastRow, Function.update_self, ← left, binned]
      by_cases more : ∃ x ∈ taken.queue bank, (reqs x).row = (reqs req).row
      · rw [if_pos more, if_neg]
        rw [List.filter_eq_nil_iff]
        obtain ⟨x, member, same⟩ := more
        exact fun none => none x member (by simpa using same)
      · rw [if_neg more, if_pos]
        rw [List.filter_eq_nil_iff]
        exact fun x member same => more ⟨x, member, by simpa using same⟩

/-- What holds of the scheduler in every state of every run. -/
structure Serves (cfg : MemoryConfig) (reqs : Nat → DramReq) (trace : List SchedEvent) (s : FrfcfsScheduler) :
    Prop where
  /-- The queue of a bank is divided into its bins by row, and the row in service has a request. -/
  bins : ∀ kind b row, (s.queues kind).bins b row = ((s.queues kind).queue b).filter fun r => (reqs r).row = row
  lastRow : ∀ kind b row, (s.queues kind).lastRow b = some row → (s.queues kind).bins b row ≠ []
  pending : s.numPending = s.reads.total cfg ∧ s.numWritePending = s.writes.total cfg
  /-- A request that was added was returned once, or waits, and is returned for its own bank. -/
  once : ∀ r ∈ added trace, (returned trace).count r +
    ((s.queues (FrfcfsScheduler.separateWrite cfg (reqs r))).queue (reqs r).bk).count r = 1
  own : ∀ bank r, .returned bank r ∈ trace → r ∈ added trace ∧ (reqs r).bk = bank
  /-- In the order of their arrival, among those of the same queue, bank and row. -/
  ordered : Ordered cfg reqs trace s
  /-- No assertion fails. -/
  addReq : ∀ req ∉ added trace, FrfcfsScheduler.Room cfg (reqs req) s → (reqs req).bk < cfg.nbk →
    ∃ t, s.addReq cfg reqs req = .ok t
  schedule : ∀ bank < cfg.nbk, ∀ currRow, ∃ result t, s.schedule cfg reqs bank currRow = .ok (result, t) ∧
    Schedules cfg reqs s bank currRow result t
  /-- The row in service is not changed but by the requests that are returned. -/
  drains : ∀ kind b more t, Reaches (SchedStep cfg reqs) s more t → (added (trace ++ more)).Nodup →
    (∀ r, .returned b r ∈ more → FrfcfsScheduler.separateWrite cfg (reqs r) ≠ kind) →
    (t.queues kind).lastRow b = (s.queues kind).lastRow b

/-- In every run of requests that are each added once, for all watermarks and with or without the write queue. -/
theorem scheduler_serves (run : Reaches (SchedStep cfg reqs) {} trace s) (fresh : (added trace).Nodup) :
    Serves cfg reqs trace s := by
  have kept := Kept.run run fresh
  have counts (r : Nat) (mem : r ∈ added trace) : (added trace).count r = 1 := List.count_eq_one_of_mem fresh mem
  refine ⟨fun kind => (kept.sound.binned kind).bins, fun kind => (kept.sound.binned kind).lastRow,
    ⟨kept.sound.pending, kept.sound.writePending⟩, fun r mem => ?_, fun bank r mem => ⟨?_, kept.own bank r mem⟩,
    kept.ordered, fun req new room inside => ?_, fun bank inside currRow => kept.schedules inside currRow,
    fun kind b more t run fresh unserved => (kept.service_runs run fresh unserved).2⟩
  · rw [← count_added kept r, counts r mem]
  · have answered : r ∈ returned trace := List.mem_filterMap.mpr ⟨_, mem, rfl⟩
    have positive := List.count_pos_iff.mpr answered
    have total := count_added kept r
    exact List.count_pos_iff.mp (by omega)
  · obtain ⟨t, ok, -⟩ := kept.sound.addReq room inside (kept.absent new)
    exact ⟨t, ok⟩

/-- Reads of bank 1, of row 7 but for request 1. -/
def readsOfBank (r : Nat) : DramReq :=
  { row := if r = 1 then 5 else 7, bk := 1, nbytes := 32, rw := .read, data := .request r, accessType := .globalAccR }

/-- Request 2 overtakes request 1, of another row. -/
theorem scheduler_serves_open_row : ∃ trace s, added trace = [0, 1, 2] ∧ returned trace = [0, 2] ∧
    Serves (smallConfig 1) readsOfBank trace s := by
  have first : Reaches (SchedStep (smallConfig 1) readsOfBank) {} _ _ :=
    Reaches.next .refl (.addReq 0 (show 0 < 4 by decide) (by decide) rfl)
  have second := Reaches.next first (.addReq 1 (show 1 < 4 by decide) (by decide) rfl)
  have third := Reaches.next second (.addReq 2 (show 2 < 4 by decide) (by decide) rfl)
  have fourth := Reaches.next third (.schedule 1 7 (some 0) (by decide) rfl)
  have fifth := Reaches.next fourth (.schedule 1 5 (some 2) (by decide) rfl)
  exact ⟨_, _, rfl, rfl, scheduler_serves fifth (by decide)⟩

end GpgpuSim.Dram
