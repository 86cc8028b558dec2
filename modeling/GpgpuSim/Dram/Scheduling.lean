import GpgpuSim.Dram.Scheduler
import GpgpuSim.Transition.Fallible
import Mathlib.Algebra.BigOperators.Group.Finset.Basic

/-! The bins of the scheduler list the requests of each row of a bank, oldest last,
and the counts of pending requests are the lengths of the queues. What is scheduled
is then always found, and the counts never run out. -/
namespace GpgpuSim.Dram
open GpgpuSim.Memory Transition

variable {cfg : MemoryConfig} {reqs : Nat → DramReq}

/-- Erasing the last of the entries that satisfy `p`. -/
theorem filter_erase_last {l : List Nat} {p : Nat → Bool} {a : Nat} (nodup : l.Nodup)
    (last : (l.filter p).getLast? = some a) : (l.erase a).filter p = (l.filter p).dropLast := by
  obtain ⟨front, split⟩ := List.getLast?_eq_some_iff.mp last
  have distinct : (front ++ [a]).Nodup := split ▸ nodup.filter p
  have absent : a ∉ front := by
    intro mem
    have disjoint := List.disjoint_of_nodup_append distinct
    exact disjoint mem (List.mem_singleton_self a)
  rw [nodup.erase_eq_filter, List.filter_filter, List.filter_congr (fun x _ => Bool.and_comm _ _),
    ← List.filter_filter, ← (nodup.filter p).erase_eq_filter, split, List.dropLast_concat,
    List.erase_append_right _ absent]
  simp

namespace RequestQueues

/-- The bins of a bank partition its queue by row. -/
structure Binned (reqs : Nat → DramReq) (queues : RequestQueues) : Prop where
  nodup : ∀ b, (queues.queue b).Nodup
  bins : ∀ b row, queues.bins b row = (queues.queue b).filter fun r => (reqs r).row = row
  lastRow : ∀ b row, queues.lastRow b = some row → queues.bins b row ≠ []

variable {queues : RequestQueues} {bank row : Nat}

theorem Binned.empty : Binned reqs {} :=
  ⟨fun _ => List.nodup_nil, fun _ _ => rfl, fun _ _ none => by cases none⟩

/-- Only the rows of the queued requests count. -/
theorem Binned.congr {reqs' : Nat → DramReq} (binned : Binned reqs queues)
    (same : ∀ b, ∀ r ∈ queues.queue b, (reqs' r).row = (reqs r).row) : Binned reqs' queues := by
  refine ⟨binned.nodup, fun b row => ?_, binned.lastRow⟩
  rw [binned.bins]
  apply List.filter_congr
  intro r mem
  rw [same b r mem]

theorem Binned.add (binned : Binned reqs queues) {req : Nat} (absent : req ∉ queues.queue bank)
    (at_row : (reqs req).row = row) : Binned reqs (queues.add req bank row) := by
  constructor
  · intro b
    by_cases here : b = bank
    · subst here
      simpa [RequestQueues.add] using ⟨absent, binned.nodup b⟩
    · simpa [RequestQueues.add, here] using binned.nodup b
  · intro b other
    by_cases here : b = bank
    · subst here
      by_cases same : other = row
      · subst same
        simp [RequestQueues.add, at_row, binned.bins]
      · have apart : ¬ row = other := fun h => same h.symm
        simp [RequestQueues.add, at_row, apart, same, binned.bins]
    · simp [RequestQueues.add, here, binned.bins]
  · intro b other last
    by_cases here : b = bank
    · subst here
      by_cases same : other = row
      · subst same
        simp [RequestQueues.add]
      · simpa [RequestQueues.add, same] using binned.lastRow b other last
    · simpa [RequestQueues.add, here] using binned.lastRow b other last

/-- A row is found for every bank that has a request, and its bin is not empty. -/
theorem Binned.nextRow (binned : Binned reqs queues) (bank currRow : Nat) :
    ∃ row, queues.nextRow reqs bank currRow = .ok row ∧ ∀ found, row = some found →
      queues.bins bank found ≠ [] := by
  unfold RequestQueues.nextRow
  cases last : queues.lastRow bank with
  | some row =>
      refine ⟨some row, rfl, ?_⟩
      rintro found ⟨⟩
      exact binned.lastRow bank row last
  | none =>
      cases oldest : (queues.queue bank).getLast? with
      | none => exact ⟨none, rfl, fun _ none => by cases none⟩
      | some req =>
          dsimp only
          split
          next hit =>
            refine ⟨some currRow, rfl, ?_⟩
            rintro found ⟨⟩
            exact hit
          next miss =>
            have found : queues.bins bank (reqs req).row ≠ [] := by
              rw [binned.bins]
              have mem := List.mem_of_getLast? oldest
              exact List.ne_nil_of_mem (List.mem_filter.mpr ⟨mem, by simp⟩)
            rw [if_pos found]
            refine ⟨some (reqs req).row, rfl, ?_⟩
            rintro _ ⟨⟩
            exact found

/-- A request is taken from its queue, and nothing else changes. -/
theorem Binned.takeRow (binned : Binned reqs queues) (some_left : queues.bins bank row ≠ []) :
    ∃ req taken, queues.takeRow bank row = .ok (req, taken) ∧ req ∈ queues.queue bank ∧
      taken.queue = Function.update queues.queue bank ((queues.queue bank).erase req) ∧
        Binned reqs taken := by
  unfold RequestQueues.takeRow
  cases last : (queues.bins bank row).getLast? with
  | none => exact absurd (List.getLast?_eq_none_iff.mp last) some_left
  | some req =>
      have last_row := last
      rw [binned.bins] at last_row
      have mem := List.mem_filter.mp (List.mem_of_getLast? last_row)
      have at_row : (reqs req).row = row := by simpa using mem.2
      refine ⟨req, _, rfl, mem.1, rfl, ?_, ?_, ?_⟩
      · intro b
        by_cases here : b = bank
        · subst here
          simpa using (binned.nodup b).erase req
        · simpa [here] using binned.nodup b
      · intro b other
        by_cases here : b = bank
        · subst here
          by_cases same : other = row
          · subst same
            simp [binned.bins, filter_erase_last (binned.nodup b) last_row]
          · have elsewhere : ¬ (reqs req).row = other := fun h => same (h.symm.trans at_row)
            simp only [Function.update_self, Function.update_of_ne same, binned.bins]
            rw [← List.erase_filter, List.erase_of_not_mem]
            simp [elsewhere]
        · simp [here, binned.bins]
      · intro b other last'
        by_cases here : b = bank
        · subst here
          simp only [Function.update_self] at last'
          split at last'
          · cases last'
          next nonempty =>
            cases last'
            simpa using nonempty
        · simp only [Function.update_of_ne here] at last' ⊢
          exact binned.lastRow b other last'

/-- The requests in the queues of all banks. -/
def total (cfg : MemoryConfig) (queues : RequestQueues) : Nat :=
  ∑ b ∈ Finset.range cfg.nbk, (queues.queue b).length

theorem total_update (queues taken : RequestQueues) (inside : bank < cfg.nbk) {list : List Nat}
    (changed : taken.queue = Function.update queues.queue bank list) :
    taken.total cfg + (queues.queue bank).length = queues.total cfg + list.length := by
  have mem := Finset.mem_range.mpr inside
  unfold total
  rw [changed, ← Finset.add_sum_erase _ _ mem, ← Finset.add_sum_erase _ _ mem, Function.update_self]
  have others : ∑ b ∈ (Finset.range cfg.nbk).erase bank,
    (Function.update queues.queue bank list b).length =
      ∑ b ∈ (Finset.range cfg.nbk).erase bank, (queues.queue b).length := by
    apply Finset.sum_congr rfl
    intro b mem
    rw [Function.update_of_ne (Finset.ne_of_mem_erase mem)]
  rw [others]
  omega

end RequestQueues

namespace FrfcfsScheduler

variable {sched : FrfcfsScheduler} {bank : Nat}

/-- The queues hold the requests of their kind, and the counts are their lengths. -/
structure Sound (cfg : MemoryConfig) (reqs : Nat → DramReq) (sched : FrfcfsScheduler) : Prop where
  reads : sched.reads.Binned reqs
  writes : sched.writes.Binned reqs
  readKind : ∀ b, ∀ r ∈ sched.reads.queue b, separateWrite cfg (reqs r) = false
  writeKind : ∀ b, ∀ r ∈ sched.writes.queue b, separateWrite cfg (reqs r) = true
  pending : sched.numPending = sched.reads.total cfg
  writePending : sched.numWritePending = sched.writes.total cfg

theorem Sound.empty : Sound cfg reqs {} := by
  refine ⟨.empty, .empty, ?_, ?_, ?_, ?_⟩ <;> simp [RequestQueues.total]

theorem Sound.congr {reqs' : Nat → DramReq} (sound : Sound cfg reqs sched)
    (same : ∀ b r, r ∈ sched.reads.queue b ∨ r ∈ sched.writes.queue b →
      (reqs' r).row = (reqs r).row ∧ (reqs' r).accessType = (reqs r).accessType) :
        Sound cfg reqs' sched := by
  refine ⟨sound.reads.congr fun b r mem => (same b r (.inl mem)).1,
    sound.writes.congr fun b r mem => (same b r (.inr mem)).1, ?_, ?_, sound.pending, sound.writePending⟩
  · intro b r mem
    rw [separateWrite, DramReq.isWrite, (same b r (.inl mem)).2]
    exact sound.readKind b r mem
  · intro b r mem
    rw [separateWrite, DramReq.isWrite, (same b r (.inr mem)).2]
    exact sound.writeKind b r mem

/-- There is room for a request of its kind, as `full` says. -/
def Room (cfg : MemoryConfig) (req : DramReq) (sched : FrfcfsScheduler) : Prop :=
  if separateWrite cfg req then sched.numWritePending < cfg.gpgpuFrfcfsDramWriteQueueSize
  else sched.numPending < cfg.gpgpuFrfcfsDramSchedQueueSize

/-- With room, the request goes to the front of its queue. -/
theorem Sound.addReq (sound : Sound cfg reqs sched) {req : Nat} (room : Room cfg (reqs req) sched)
    (inside : (reqs req).bk < cfg.nbk) (absent : ∀ b, req ∉ sched.reads.queue b ∧ req ∉ sched.writes.queue b) :
    ∃ added, sched.addReq cfg reqs req = .ok added ∧ Sound cfg reqs added ∧
      if separateWrite cfg (reqs req) then
        added.reads = sched.reads ∧ added.writes = sched.writes.add req (reqs req).bk (reqs req).row
      else added.writes = sched.writes ∧ added.reads = sched.reads.add req (reqs req).bk
        (reqs req).row := by
  unfold FrfcfsScheduler.addReq
  unfold Room at room
  cases kind : separateWrite cfg (reqs req) with
  | true =>
      rw [if_pos kind] at room
      refine ⟨{ sched with
        numWritePending := sched.numWritePending + 1
        writes := sched.writes.add req (reqs req).bk (reqs req).row }, by simp [room, inside], ?_,
          by simp⟩
      refine ⟨sound.reads, sound.writes.add (absent _).2 rfl, sound.readKind, ?_, sound.pending, ?_⟩
      · intro b r mem
        by_cases here : b = (reqs req).bk
        · subst here
          simp only [RequestQueues.add, Function.update_self, List.mem_cons] at mem
          rcases mem with rfl | mem
          · exact kind
          · exact sound.writeKind _ r mem
        · simp only [RequestQueues.add, Function.update_of_ne here] at mem
          exact sound.writeKind b r mem
      · have change := RequestQueues.total_update sched.writes
          (sched.writes.add req (reqs req).bk (reqs req).row)
          inside rfl
        simp only [List.length_cons] at change
        dsimp only
        rw [sound.writePending]
        omega
  | false =>
      rw [if_neg (by simp [kind])] at room
      refine ⟨{ sched with
        numPending := sched.numPending + 1
        reads := sched.reads.add req (reqs req).bk (reqs req).row }, by simp [room, inside], ?_, by simp⟩
      refine ⟨sound.reads.add (absent _).1 rfl, sound.writes, ?_, sound.writeKind, ?_, sound.writePending⟩
      · intro b r mem
        by_cases here : b = (reqs req).bk
        · subst here
          simp only [RequestQueues.add, Function.update_self, List.mem_cons] at mem
          rcases mem with rfl | mem
          · exact kind
          · exact sound.readKind _ r mem
        · simp only [RequestQueues.add, Function.update_of_ne here] at mem
          exact sound.readKind b r mem
      · have change := RequestQueues.total_update sched.reads
          (sched.reads.add req (reqs req).bk (reqs req).row)
          inside rfl
        simp only [List.length_cons] at change
        dsimp only
        rw [sound.pending]
        omega

/-- `req` has left the read queue or the write queue of a bank. -/
def Scheduled (bank req : Nat) (sched next : FrfcfsScheduler) : Prop :=
  (req ∈ sched.reads.queue bank ∧ next.writes.queue = sched.writes.queue ∧
    next.reads.queue = Function.update sched.reads.queue bank ((sched.reads.queue bank).erase req)) ∨
  (req ∈ sched.writes.queue bank ∧ next.reads.queue = sched.reads.queue ∧
    next.writes.queue = Function.update sched.writes.queue bank ((sched.writes.queue bank).erase req))

theorem mem_of_mem_update_erase {queue : Nat → List Nat} {bank b req r : Nat}
    (mem : r ∈ Function.update queue bank ((queue bank).erase req) b) : r ∈ queue b := by
  by_cases here : b = bank
  · subst here
    rw [Function.update_self] at mem
    exact List.mem_of_mem_erase mem
  · rwa [Function.update_of_ne here] at mem

/-- `schedule` meets its assertions. -/
theorem Sound.schedule (sound : Sound cfg reqs sched) (inside : bank < cfg.nbk) (currRow : Nat) :
    ∃ result next, sched.schedule cfg reqs bank currRow = .ok (result, next) ∧ Sound cfg reqs next ∧
      match result with
      | none => next.reads = sched.reads ∧ next.writes = sched.writes
      | some req => Scheduled bank req sched next := by
  have moded : ∀ mode, Sound cfg reqs { sched with mode } := fun _ =>
    ⟨sound.reads, sound.writes, sound.readKind, sound.writeKind, sound.pending, sound.writePending⟩
  unfold FrfcfsScheduler.schedule
  generalize sched.nextMode cfg = mode
  cases mode with
  | readMode =>
      obtain ⟨row, found, nonempty⟩ := sound.reads.nextRow bank currRow
      cases row with
      | none => exact ⟨none, { sched with mode := .readMode }, by simp
          [current, found, bind, Except.bind, pure, Except.pure], moded _, rfl, rfl⟩
      | some row =>
          obtain ⟨req, taken, took, mem, queue, binned⟩ := sound.reads.takeRow (nonempty row rfl)
          have kind := sound.readKind bank req mem
          have change := RequestQueues.total_update sched.reads taken inside queue
          have one_less := List.length_erase_of_mem mem
          have pos := List.length_pos_of_mem mem
          have pending := sound.pending
          refine ⟨some req,
            { sched with mode := .readMode, reads := taken, numPending := sched.numPending - 1 }, ?_, ?_,
            .inl ⟨mem, rfl, queue⟩⟩
          · have some_pending : sched.numPending ≠ 0 := by omega
            simp [current, found, took, bind, Except.bind, pure, Except.pure, setCurrent, uncount,
              kind, some_pending]
          · refine ⟨binned, sound.writes, ?_, sound.writeKind, ?_, sound.writePending⟩
            · intro b r mem'
              rw [show taken.queue = _ from queue] at mem'
              exact sound.readKind b r (mem_of_mem_update_erase mem')
            · dsimp only
              omega
  | writeMode =>
      obtain ⟨row, found, nonempty⟩ := sound.writes.nextRow bank currRow
      cases row with
      | none => exact ⟨none, { sched with mode := .writeMode }, by simp
          [current, found, bind, Except.bind, pure, Except.pure], moded _, rfl, rfl⟩
      | some row =>
          obtain ⟨req, taken, took, mem, queue, binned⟩ := sound.writes.takeRow (nonempty row rfl)
          have kind := sound.writeKind bank req mem
          have change := RequestQueues.total_update sched.writes taken inside queue
          have one_less := List.length_erase_of_mem mem
          have pos := List.length_pos_of_mem mem
          have pending := sound.writePending
          refine ⟨some req,
            { sched with mode := .writeMode, writes := taken, numWritePending :=
              sched.numWritePending - 1 },
            ?_, ?_, .inr ⟨mem, rfl, queue⟩⟩
          · have some_pending : sched.numWritePending ≠ 0 := by omega
            simp [current, found, took, bind, Except.bind, pure, Except.pure, setCurrent, uncount,
              kind, some_pending]
          · refine ⟨sound.reads, binned, sound.readKind, ?_, sound.pending, ?_⟩
            · intro b r mem'
              rw [show taken.queue = _ from queue] at mem'
              exact sound.writeKind b r (mem_of_mem_update_erase mem')
            · dsimp only
              omega

end FrfcfsScheduler

end GpgpuSim.Dram
