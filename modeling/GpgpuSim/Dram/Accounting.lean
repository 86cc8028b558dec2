import GpgpuSim.Dram.Scheduling
import GpgpuSim.Dram.Timing
import GpgpuSim.Transition.Custody

/-! What becomes of the requests of the memory controller. A request waits at one
place until its last transfer is issued; its transfers are in the pipe of the data
bus until they arrive; and it is freed with the last of them. -/
namespace GpgpuSim.Dram
open GpgpuSim.Memory Transition

/-- Where a request waits that still has transfers to issue. -/
inductive Station
  | arriving
  | reading (b : Nat)
  | writing (b : Nat)
  | serving (b : Nat)
  deriving DecidableEq, Repr

namespace DramT

def view (s : DramT) : Station → List Nat
  | .arriving => s.mrqq.nodes.filterMap fun node => node
  | .reading b => s.frfcfsScheduler.reads.queue b
  | .writing b => s.frfcfsScheduler.writes.queue b
  | .serving b => (s.bk b).mrq.toList

end DramT

/-- The column commands that were issued for a request. -/
def columns (trace : List DramEvent) (r : Nat) : Nat :=
  (commands trace).countP fun c => !c.isRow && c.req = r

namespace DramEvent

def leaves (r : Nat) : DramEvent → Bool
  | .returned req _ | .setDone req _ => req = r
  | _ => false

def enters (r : Nat) : DramEvent → Bool
  | .pushed req _ => req = r
  | _ => false

end DramEvent

def departures (trace : List DramEvent) (r : Nat) : Nat := trace.countP (·.leaves r)

def entries (trace : List DramEvent) (r : Nat) : Nat := trace.countP (·.enters r)

/-- The column commands that a request needs. -/
def bursts (cfg : MemoryConfig) (req : DramReq) : Nat :=
  max 1 ((req.nbytes + cfg.dramAtomSize - 1) / cfg.dramAtomSize)

/-- The requests that may wait at a station. -/
def Station.Fits (cfg : MemoryConfig) (req : DramReq) : Station → Prop
  | .arriving => True
  | .reading b | .writing b => req.bk = b
  | .serving b => req.bk = b ∧ b < cfg.nbk

/-- How far a request in use has come: `popped` of its transfers have arrived. -/
structure Underway (cfg : MemoryConfig) (trace : List DramEvent) (s : DramT) (place : Option Station)
    (r popped : Nat) :
    Prop where
  sent : columns trace r = popped + s.rwq.copies r
  txbytes : (s.reqs r).txbytes = columns trace r * cfg.dramAtomSize
  dqbytes : (s.reqs r).dqbytes = popped * cfg.dramAtomSize
  bound : columns trace r ≤ bursts cfg (s.reqs r)
  placed : place = none ↔ columns trace r = bursts cfg (s.reqs r)
  left : departures trace r = if popped = bursts cfg (s.reqs r) then 1 else 0
  entered : entries trace r = 1

/-- A request object that was never in use. -/
structure Unused (trace : List DramEvent) (s : DramT) (place : Option Station) (r : Nat) : Prop where
  place : place = none
  copies : s.rwq.copies r = 0
  columns : columns trace r = 0
  left : departures trace r = 0
  entered : entries trace r = 0

/-- What an event says about the request it names. -/
def EventSound (s : DramT) : DramEvent → Prop
  | .pushed r data => r < s.nextReq ∧ data = (s.reqs r).data
  | .command c => c.isRow = false → c.req < s.nextReq ∧ c.bank = (s.reqs c.req).bk ∧ c.row =
      (s.reqs c.req).row
  | .returned r data => r < s.nextReq ∧ data = (s.reqs r).data ∧ (s.reqs r).accessType.isWriteBack = false
  | .setDone r data => r < s.nextReq ∧ data = (s.reqs r).data ∧ (s.reqs r).accessType.isWriteBack = true

/-- A request leaves after its last column command. -/
def LeavesLast (cfg : MemoryConfig) (s : DramT) (before : List DramEvent) (event : DramEvent) : Prop :=
  ∀ r, event.leaves r → columns before r = bursts cfg (s.reqs r)

/-- The latency that the pipe of the data bus is kept at. -/
def MemoryConfig.busLatency (cfg : MemoryConfig) : ReadWrite → Nat
  | .read => cfg.cl
  | .write => cfg.wl

structure Pipes (cfg : MemoryConfig) (s : DramT) : Prop where
  rwq : s.rwq.Sound
  rwqMin : s.rwq.minLen = cfg.busLatency s.rw
  rwqMax : s.rwq.maxLen = cfg.cl + 1
  rw : cfg.busLatency s.rw ≤ cfg.cl
  mrqqMin : s.mrqq.minLen = 0
  mrqqMax : s.mrqq.maxLen = 2
  mrqq : none ∉ s.mrqq.nodes
  returnq : s.returnq.Sound
  returnqMax : s.returnq.maxLen ≠ 0

/-- Under FR-FCFS at most one request arrives between two cycles, and there is room for it. -/
def Arrivals (cfg : MemoryConfig) (s : DramT) : Prop :=
  cfg.schedulerType = .dramFrfcfs →
    s.mrqq.nodes = [] ∨ ∃ r, s.mrqq.nodes = [some r] ∧ FrfcfsScheduler.Room cfg
      (s.reqs r) s.frfcfsScheduler

def Drained (cfg : MemoryConfig) (s : DramT) : Prop := cfg.schedulerType = .dramFrfcfs → s.mrqq.nodes = []

/-- Every request is accounted for. -/
structure Accounted (cfg : MemoryConfig) (trace : List DramEvent) (s : DramT) (place : Nat → Option Station) :
    Prop where
  custody : Custody s.view place
  fits : ∀ r station, place r = some station → station.Fits cfg (s.reqs r)
  underway : ∀ r < s.nextReq, ∃ popped, Underway cfg trace s (place r) r popped
  unused : ∀ r, s.nextReq ≤ r → Unused trace s (place r) r
  sched : s.frfcfsScheduler.Sound cfg s.reqs
  pipes : Pipes cfg s
  latency : ∀ r < s.nextReq, cfg.busLatency (s.reqs r).rw ≤ cfg.cl
  events : ∀ event ∈ trace, EventSound s event
  ordered : Along (LeavesLast cfg s) trace

variable {cfg : MemoryConfig} {trace shown : List DramEvent} {s t : DramT} {place : Nat → Option Station}

/-! ## Counting -/

theorem columns_append (r : Nat) : columns (trace ++ shown) r = columns trace r + columns shown r := by
  simp [columns, commands_append]

theorem departures_append (r : Nat) : departures
    (trace ++ shown) r = departures trace r + departures shown r := by
  simp [departures]

theorem entries_append (r : Nat) : entries (trace ++ shown) r = entries trace r + entries shown r := by
  simp [entries]

/-- The events that count for no request. -/
def Silent (shown : List DramEvent) : Prop :=
  ∀ r, columns shown r = 0 ∧ departures shown r = 0 ∧ entries shown r = 0

theorem Silent.nil : Silent [] := fun _ => ⟨rfl, rfl, rfl⟩

/-- A step that counts for another request. -/
theorem Underway.other {station : Option Station} {r popped : Nat} (underway : Underway cfg trace s station r popped)
    (silent : columns shown r = 0 ∧ departures shown r = 0 ∧ entries shown r = 0)
    (copies : t.rwq.copies r = s.rwq.copies r) (reqs : t.reqs r = s.reqs r) :
    Underway cfg (trace ++ shown) t station r popped := by
  obtain ⟨sent, tx, dq, bound, placed, left, entered⟩ := underway
  obtain ⟨no_columns, no_departures, no_entries⟩ := silent
  constructor
  · rw [columns_append, no_columns, copies]
    exact sent
  · rw [columns_append, no_columns, reqs]
    exact tx
  · rw [reqs]
    exact dq
  · rw [columns_append, no_columns, reqs]
    exact bound
  · rw [columns_append, no_columns, reqs]
    exact placed
  · rw [departures_append, no_departures, reqs]
    exact left
  · rw [entries_append, no_entries]
    exact entered

theorem Unused.other {station : Option Station} {r : Nat} (unused : Unused trace s station r)
    (silent : Dram.columns shown r = 0 ∧ departures shown r = 0 ∧ entries shown r = 0)
    (copies : t.rwq.copies r = s.rwq.copies r) : Unused (trace ++ shown) t station r := by
  obtain ⟨no_columns, no_departures, no_entries⟩ := silent
  refine ⟨unused.place, copies.trans unused.copies, ?_, ?_, ?_⟩
  · rw [columns_append, no_columns, unused.columns]
  · rw [departures_append, no_departures, unused.left]
  · rw [entries_append, no_entries, unused.entered]

theorem le_mul_iff_bursts_le {req : DramReq} {n : Nat} (positive : 0 < cfg.dramAtomSize) (some : 0 < n) :
    req.nbytes ≤ n * cfg.dramAtomSize ↔ bursts cfg req ≤ n := by
  unfold bursts
  rw [max_le_iff, Nat.div_le_iff_le_mul_add_pred positive, Nat.mul_comm]
  omega

/-! ## What a step may change -/

/-- The fields of a request that never change. -/
structure SameRequest (req req' : DramReq) : Prop where
  row : req'.row = req.row
  bk : req'.bk = req.bk
  nbytes : req'.nbytes = req.nbytes
  rw : req'.rw = req.rw
  data : req'.data = req.data
  accessType : req'.accessType = req.accessType

theorem SameRequest.refl (req : DramReq) : SameRequest req req := ⟨rfl, rfl, rfl, rfl, rfl, rfl⟩

theorem SameRequest.bursts {req req' : DramReq} (same : SameRequest req req') :
    Dram.bursts cfg req' = Dram.bursts cfg req := by
  rw [Dram.bursts, same.nbytes, Dram.bursts]

theorem SameRequest.fits {req req' : DramReq} (same : SameRequest req req') {station : Station}
    (fits : station.Fits cfg req) : station.Fits cfg req' := by
  cases station with
  | arriving => trivial
  | reading b => exact same.bk.trans fits
  | writing b => exact same.bk.trans fits
  | serving b => exact ⟨same.bk.trans fits.1, fits.2⟩

theorem EventSound.congr {event : DramEvent} (sound : EventSound s event) (next : s.nextReq ≤ t.nextReq)
    (same : ∀ r < s.nextReq, SameRequest (s.reqs r) (t.reqs r)) : EventSound t event := by
  cases event with
  | pushed r data => exact ⟨sound.1.trans_le next, sound.2.trans (same r sound.1).data.symm⟩
  | command c =>
      intro column
      obtain ⟨used, bank, row⟩ := sound column
      exact ⟨used.trans_le next, bank.trans (same _ used).bk.symm, row.trans (same _ used).row.symm⟩
  | returned r data =>
      obtain ⟨used, same_data, type⟩ := sound
      exact ⟨used.trans_le next, same_data.trans (same r used).data.symm, (same r used).accessType ▸ type⟩
  | setDone r data =>
      obtain ⟨used, same_data, type⟩ := sound
      exact ⟨used.trans_le next, same_data.trans (same r used).data.symm, (same r used).accessType ▸ type⟩

theorem used_of_leaves {event : DramEvent} (sound : EventSound s event) {r : Nat} (leaves : event.leaves r) :
    r < s.nextReq := by
  cases event with
  | pushed req data => cases leaves
  | command c => cases leaves
  | returned req data =>
      obtain rfl : req = r := by simpa [DramEvent.leaves] using leaves
      exact sound.1
  | setDone req data =>
      obtain rfl : req = r := by simpa [DramEvent.leaves] using leaves
      exact sound.1

theorem ordered_congr (ordered : Along (LeavesLast cfg s) trace) (sound : ∀ event ∈ trace, EventSound s event)
    (same : ∀ r < s.nextReq, SameRequest (s.reqs r) (t.reqs r)) : Along (LeavesLast cfg t) trace := by
  refine Along.imp ordered fun before event mem last r leaves => ?_
  rw [(same r (used_of_leaves (sound event mem) leaves)).bursts]
  exact last r leaves

/-- The waiting places look the same. -/
theorem view_congr (mrqq : t.mrqq = s.mrqq) (reads : t.frfcfsScheduler.reads.queue = s.frfcfsScheduler.reads.queue)
    (writes : t.frfcfsScheduler.writes.queue = s.frfcfsScheduler.writes.queue)
    (mrq : ∀ b, (t.bk b).mrq = (s.bk b).mrq) : t.view = s.view := by
  funext station
  cases station with
  | arriving => simp only [DramT.view, mrqq]
  | reading b => simp only [DramT.view, reads]
  | writing b => simp only [DramT.view, writes]
  | serving b => simp only [DramT.view, mrq]

theorem Pipes.congr (pipes : Pipes cfg s) (rwq : t.rwq = s.rwq) (rw_same : t.rw = s.rw) (mrqq : t.mrqq = s.mrqq)
    (returnq : t.returnq = s.returnq) : Pipes cfg t := by
  constructor
  · rw [rwq]
    exact pipes.rwq
  · rw [rwq, rw_same]
    exact pipes.rwqMin
  · rw [rwq]
    exact pipes.rwqMax
  · rw [rw_same]
    exact pipes.rw
  · rw [mrqq]
    exact pipes.mrqqMin
  · rw [mrqq]
    exact pipes.mrqqMax
  · rw [mrqq]
    exact pipes.mrqq
  · rw [returnq]
    exact pipes.returnq
  · rw [returnq]
    exact pipes.returnqMax

theorem Accounted.events_append (accounted : Accounted cfg trace s place)
    (sound : ∀ event ∈ shown, EventSound s event) : ∀ event ∈ trace ++ shown, EventSound s event := by
  intro event mem
  rcases List.mem_append.mp mem with old | new
  · exact accounted.events event old
  · exact sound event new

/-- A step that moves no request and shows nothing of one. -/
theorem Accounted.quiet (accounted : Accounted cfg trace s place) (next : t.nextReq = s.nextReq)
    (reqs : t.reqs = s.reqs) (view : t.view = s.view) (sched : t.frfcfsScheduler.Sound cfg s.reqs)
    (pipes : Pipes cfg t) (copies : ∀ r, t.rwq.copies r = s.rwq.copies r) (silent : Silent shown)
    (sound : ∀ event ∈ shown, EventSound s event) (kept : Along (LeavesLast cfg s) (trace ++ shown)) :
    Accounted cfg (trace ++ shown) t place := by
  have same : ∀ r < s.nextReq, SameRequest (s.reqs r) (t.reqs r) := fun r _ => by rw [reqs]; exact .refl _
  have all_sound := accounted.events_append sound
  refine ⟨view ▸ accounted.custody, ?_, ?_, ?_, ?_, pipes, ?_, ?_, ordered_congr kept all_sound same⟩
  · rw [reqs]
    exact accounted.fits
  · intro r used
    rw [next] at used
    obtain ⟨popped, underway⟩ := accounted.underway r used
    exact ⟨popped, underway.other (silent r) (copies r) (congrFun reqs r)⟩
  · intro r fresh
    rw [next] at fresh
    exact (accounted.unused r fresh).other (silent r) (copies r)
  · rw [reqs]
    exact sched
  · rw [next, reqs]
    exact accounted.latency
  · intro event mem
    exact (all_sound event mem).congr next.ge same

/-! ## The head of a cycle -/

/-- How a stage may end: in `Q`, or with an index outside an array. -/
def Ends (result : Except DramFault (DramT × List DramEvent)) (Q : List DramEvent → DramT → Prop) :
    Prop :=
  match result with
  | .ok (t, shown) => Q shown t
  | .error fault => fault = .outOfRange

/-- What the arrival of a transfer shows of its request. -/
inductive ArrivalShows (cfg : MemoryConfig) (s : DramT) (cmd : Nat) : List DramEvent → Prop
  | more (unfinished : ¬ (s.reqs cmd).nbytes ≤ (s.reqs cmd).dqbytes + cfg.dramAtomSize) :
      ArrivalShows cfg s cmd []
  | last {event} (finished : (s.reqs cmd).nbytes ≤ (s.reqs cmd).dqbytes + cfg.dramAtomSize)
      (sound : EventSound s event) (leaves : ∀ r, event.leaves r = decide (cmd = r))
      (others : ∀ r, columns [event] r = 0 ∧ entries [event] r = 0) : ArrivalShows cfg s cmd [event]

theorem ArrivalShows.silent {cmd r : Nat} (shows : ArrivalShows cfg s cmd shown) (apart : cmd ≠ r) :
    columns shown r = 0 ∧ departures shown r = 0 ∧ entries shown r = 0 := by
  cases shows with
  | more => exact ⟨rfl, rfl, rfl⟩
  | last _ _ leaves others => exact ⟨(others r).1, by simp [departures, leaves, apart], (others r).2⟩

theorem SameRequest.modifyDq (s : DramT) (cmd dqbytes r : Nat) :
    SameRequest (s.reqs r) ((s.modifyReq cmd fun req => { req with dqbytes }).reqs r) := by
  by_cases here : r = cmd
  · subst here
    simp only [DramT.modifyReq, Function.update_self]
    exact ⟨rfl, rfl, rfl, rfl, rfl, rfl⟩
  · simp only [DramT.modifyReq, Function.update_of_ne here]
    exact .refl _

/-- One transfer leaves the pipe of the data bus. -/
theorem Underway.arrive {station : Option Station} {r cmd popped : Nat} (positive : 0 < cfg.dramAtomSize)
    (underway : Underway cfg trace s station r popped)
    (copies : s.rwq.copies r = t.rwq.copies r + if cmd = r then 1 else 0) (reqs : t.reqs r = if cmd = r then
        { s.reqs r with dqbytes := (s.reqs r).dqbytes + cfg.dramAtomSize } else s.reqs r)
    (shows : ArrivalShows cfg s cmd shown) :
    ∃ popped, Underway cfg (trace ++ shown) t station r popped := by
  by_cases here : cmd = r
  · subst here
    have silent : columns shown cmd = 0 ∧ entries shown cmd = 0 := by
      cases shows with
      | more => exact ⟨rfl, rfl⟩
      | last _ _ _ others => exact others cmd
    obtain ⟨sent, tx, dq, bound, placed, left, entered⟩ := underway
    simp only [if_true] at copies reqs
    have same_bursts : bursts cfg (t.reqs cmd) = bursts cfg (s.reqs cmd) := by
      rw [reqs, bursts, bursts]
    have finished_iff : (s.reqs cmd).nbytes ≤ (s.reqs cmd).dqbytes + cfg.dramAtomSize ↔
        bursts cfg (s.reqs cmd) ≤ popped + 1 := by
      rw [dq, ← Nat.succ_mul]
      exact le_mul_iff_bursts_le positive (Nat.succ_pos _)
    refine ⟨popped + 1, ?_, ?_, ?_, ?_, ?_, ?_, ?_⟩
    · rw [columns_append, silent.1]
      omega
    · rw [columns_append, silent.1, reqs]
      exact tx
    · rw [reqs, Nat.succ_mul, ← dq]
    · rw [columns_append, silent.1, same_bursts]
      exact bound
    · rw [columns_append, silent.1, same_bursts]
      exact placed
    · rw [departures_append, left, same_bursts]
      cases shows with
      | more unfinished =>
          rw [finished_iff] at unfinished
          rw [if_neg (by omega), if_neg (by omega)]
          rfl
      | last finished _ leaves _ =>
          rw [finished_iff] at finished
          rw [if_neg (by omega), if_pos (by omega)]
          simp [departures, leaves]
    · rw [entries_append, silent.2, entered]
  · simp only [if_neg here, Nat.add_zero] at copies reqs
    exact ⟨popped, underway.other (shows.silent here) copies.symm reqs⟩

/-- Of a request object that was never in use nothing is in the pipe of the data bus. -/
theorem Accounted.used_of_copies (accounted : Accounted cfg trace s place) {r : Nat} (some : s.rwq.copies r ≠ 0) :
    r < s.nextReq := by
  by_contra fresh
  exact some (accounted.unused r (Nat.le_of_not_lt fresh)).copies

theorem Accounted.arrive (accounted : Accounted cfg trace s place) (positive : 0 < cfg.dramAtomSize) {cmd : Nat}
    {rwq : FifoPipeline Nat} {returnq : FifoPipeline MfId}
    (copies : ∀ r, s.rwq.copies r = rwq.copies r + if cmd = r then 1 else 0)
    (pipes : Pipes cfg { s with rwq, returnq }) (shows : ArrivalShows cfg s cmd shown) :
    Accounted cfg (trace ++ shown)
      { ({ s with rwq }.modifyReq cmd fun req =>
        { req with dqbytes := req.dqbytes + cfg.dramAtomSize }) with returnq }
      place := by
  set t : DramT :=
    { ({ s with rwq }.modifyReq cmd fun req =>
      { req with dqbytes := req.dqbytes + cfg.dramAtomSize }) with returnq }
    with is_t
  have same : ∀ r, SameRequest (s.reqs r) (t.reqs r) := fun r => SameRequest.modifyDq s cmd _ r
  have used : cmd < s.nextReq := accounted.used_of_copies
    (by rw [copies, if_pos rfl]; exact Nat.succ_ne_zero _)
  have reqs : ∀ r, t.reqs r =
      if cmd = r then
        { s.reqs r with dqbytes := (s.reqs r).dqbytes + cfg.dramAtomSize } else s.reqs r := by
    intro r
    by_cases here : cmd = r
    · subst here
      simp [is_t, DramT.modifyReq]
    · simp [is_t, DramT.modifyReq, here, Ne.symm here]
  have events : ∀ event ∈ trace ++ shown, EventSound s event := by
    apply accounted.events_append
    cases shows with
    | more => simp
    | last _ sound _ _ => simpa using sound
  refine ⟨accounted.custody, ?_, ?_, ?_, ?_, pipes.congr rfl rfl rfl rfl, ?_, ?_,
    ordered_congr ?_ events fun r _ => same r⟩
  · intro r station there
    exact (same r).fits (accounted.fits r station there)
  · intro r used
    obtain ⟨popped, underway⟩ := accounted.underway r used
    exact underway.arrive positive (copies r) (reqs r) shows
  · intro r fresh
    have unused := accounted.unused r fresh
    have apart : cmd ≠ r := fun h => absurd used (by rw [h]; exact Nat.not_lt.mpr fresh)
    apply unused.other (shows.silent apart)
    have before := copies r
    rw [if_neg apart] at before
    exact before.symm
  · exact accounted.sched.congr fun b r _ => ⟨(same r).row, (same r).accessType⟩
  · intro r used
    rw [(same r).rw]
    exact accounted.latency r used
  · intro event mem
    exact (events event mem).congr (le_refl _) fun r _ => same r
  · cases shows with
    | more => simpa using accounted.ordered
    | last finished _ leaves _ =>
        apply accounted.ordered.append
        intro r leaves_r
        obtain rfl : cmd = r := by simpa [leaves] using leaves_r
        obtain ⟨popped, underway⟩ := accounted.underway cmd used
        have sent := underway.sent
        have bound := underway.bound
        rw [copies, if_pos rfl] at sent
        rw [underway.dqbytes, ← Nat.succ_mul, le_mul_iff_bursts_le positive (Nat.succ_pos _)] at finished
        omega

/-! ## From place to place -/

/-- A request goes on from where it waited. -/
theorem Accounted.goesOn (accounted : Accounted cfg trace s place) (there : Station) {r : Nat} {station : Station}
    (waited : place r = some station) (custody : Custody t.view (Function.update place r (some there)))
    (fits : there.Fits cfg (s.reqs r)) (next : t.nextReq = s.nextReq) (reqs : t.reqs = s.reqs) (rwq : t.rwq = s.rwq)
    (sched : t.frfcfsScheduler.Sound cfg s.reqs) (pipes : Pipes cfg t) :
    Accounted cfg trace t (Function.update place r (some there)) := by
  have same : ∀ a < s.nextReq, SameRequest (s.reqs a) (t.reqs a) := fun a _ => by rw [reqs]; exact .refl _
  refine ⟨custody, ?_, ?_, ?_, ?_, pipes, ?_, ?_, ordered_congr accounted.ordered accounted.events same⟩
  · intro a station at_station
    rw [reqs]
    by_cases here : a = r
    · subst here
      rw [Function.update_self] at at_station
      cases at_station
      exact fits
    · rw [Function.update_of_ne here] at at_station
      exact accounted.fits a station at_station
  · intro a used
    rw [next] at used
    obtain ⟨popped, sent, tx, dq, bound, placed, left, entered⟩ := accounted.underway a used
    have placed' : Function.update place r (some there) a = none ↔ columns trace a = bursts cfg (s.reqs a) := by
      rw [← placed]
      by_cases here : a = r
      · subst here
        simp [waited]
      · rw [Function.update_of_ne here]
    rw [← reqs] at tx dq bound placed' left
    rw [← rwq] at sent
    exact ⟨popped, sent, tx, dq, bound, placed', left, entered⟩
  · intro a fresh
    rw [next] at fresh
    have unused := accounted.unused a fresh
    have apart : a ≠ r := by
      rintro rfl
      have nowhere := unused.place
      rw [waited] at nowhere
      contradiction
    rw [Function.update_of_ne apart]
    exact ⟨unused.place, by rw [rwq]; exact unused.copies, unused.columns, unused.left, unused.entered⟩
  · rw [reqs]
    exact sched
  · rw [next, reqs]
    exact accounted.latency
  · intro event mem
    exact (accounted.events event mem).congr next.ge same

/-- One transfer of a request enters the pipe of the data bus. -/
theorem Underway.send {station : Option Station} {r popped time j : Nat} {rw : ReadWrite}
    (underway : Underway cfg trace s (some (.serving j)) r popped)
    (at_place : station = if columns trace r + 1 = bursts cfg (s.reqs r) then none else some (.serving j))
    (copies : t.rwq.copies r = s.rwq.copies r + 1)
    (reqs : t.reqs r = { s.reqs r with txbytes := (s.reqs r).txbytes + cfg.dramAtomSize }) :
    Underway cfg (trace ++ [.command ⟨time, .column rw, j, (s.reqs r).row, r⟩]) t station r popped := by
  obtain ⟨sent, tx, dq, bound, placed, left, entered⟩ := underway
  have one : columns [.command ⟨time, .column rw, j, (s.reqs r).row, r⟩] r = 1 := by
    simp [columns, commands, Command.isRow]
  have same_bursts : bursts cfg (t.reqs r) = bursts cfg (s.reqs r) := by
    rw [reqs, bursts, bursts]
  have unfinished : columns trace r ≠ bursts cfg (s.reqs r) := by
    rw [← not_iff_not] at placed
    exact placed.mp (Option.some_ne_none _)
  refine ⟨?_, ?_, ?_, ?_, ?_, ?_, ?_⟩
  · rw [columns_append, one]
    omega
  · rw [columns_append, one, reqs, Nat.succ_mul, ← tx]
  · rw [reqs]
    exact dq
  · rw [columns_append, one, same_bursts]
    omega
  · rw [columns_append, one, same_bursts, at_place]
    by_cases last : columns trace r + 1 = bursts cfg (s.reqs r)
    · simp [last]
    · simp [last]
  · rw [departures_append, left, same_bursts]
    rfl
  · rw [entries_append, entered]
    rfl

theorem silent_column {r mrq time j row : Nat} {rw : ReadWrite} (apart : mrq ≠ r) :
    columns [.command ⟨time, .column rw, j, row, mrq⟩] r = 0 ∧ departures
      [.command ⟨time, .column rw, j, row, mrq⟩] r = 0 ∧
      entries [.command ⟨time, .column rw, j, row, mrq⟩] r = 0 :=
  ⟨by simp [columns, commands, apart], rfl, rfl⟩

theorem Accounted.send (accounted : Accounted cfg trace s place) {place' : Nat → Option Station} {mrq j time : Nat}
    (serving : place mrq = some (.serving j)) (custody : Custody t.view place')
    (places : place' = Function.update place mrq
      (if columns trace mrq + 1 = bursts cfg (s.reqs mrq) then none else some (.serving j)))
    (next : t.nextReq = s.nextReq)
    (reqs : t.reqs = Function.update s.reqs mrq
      { s.reqs mrq with txbytes := (s.reqs mrq).txbytes + cfg.dramAtomSize })
    (copies : ∀ r, t.rwq.copies r = s.rwq.copies r + if some mrq = some r then 1 else 0)
    (sched : t.frfcfsScheduler = s.frfcfsScheduler) (pipes : Pipes cfg t) (rw : ReadWrite) :
    Accounted cfg (trace ++ [.command ⟨time, .column rw, j, (s.reqs mrq).row, mrq⟩]) t place' := by
  have same : ∀ r, SameRequest (s.reqs r) (t.reqs r) := by
    intro r
    rw [reqs]
    by_cases here : r = mrq
    · subst here
      rw [Function.update_self]
      exact ⟨rfl, rfl, rfl, rfl, rfl, rfl⟩
    · rw [Function.update_of_ne here]
      exact .refl _
  have used : mrq < s.nextReq := by
    by_contra fresh
    have nowhere := (accounted.unused mrq (Nat.le_of_not_lt fresh)).place
    rw [serving] at nowhere
    contradiction
  have events : ∀ event ∈ trace ++ [.command ⟨time, .column rw, j, (s.reqs mrq).row, mrq⟩],
    EventSound s event := by
    apply accounted.events_append
    simp only [List.mem_singleton, forall_eq]
    exact fun _ => ⟨used, (accounted.fits mrq _ serving).1.symm, rfl⟩
  refine ⟨custody, ?_, ?_, ?_, ?_, pipes, ?_, ?_, ordered_congr ?_ events fun r _ => same r⟩
  · intro r station at_station
    apply (same r).fits
    rw [places] at at_station
    by_cases here : r = mrq
    · subst here
      rw [Function.update_self] at at_station
      split at at_station
      · cases at_station
      · cases at_station
        exact accounted.fits r _ serving
    · rw [Function.update_of_ne here] at at_station
      exact accounted.fits r station at_station
  · intro r used
    rw [next] at used
    obtain ⟨popped, underway⟩ := accounted.underway r used
    refine ⟨popped, ?_⟩
    by_cases here : r = mrq
    · subst here
      rw [serving] at underway
      apply underway.send
      · rw [places, Function.update_self]
      · rw [copies, if_pos rfl]
      · rw [reqs, Function.update_self]
    · rw [places, Function.update_of_ne here]
      apply underway.other (silent_column (Ne.symm here))
      · rw [copies, if_neg fun h => here (Option.some.inj h).symm, Nat.add_zero]
      · rw [reqs, Function.update_of_ne here]
  · intro r fresh
    rw [next] at fresh
    have here : r ≠ mrq := fun h => absurd used (by rw [← h]; exact Nat.not_lt.mpr fresh)
    rw [places, Function.update_of_ne here]
    apply (accounted.unused r fresh).other (silent_column (Ne.symm here))
    rw [copies, if_neg fun h => here (Option.some.inj h).symm, Nat.add_zero]
  · rw [sched]
    exact accounted.sched.congr fun b r _ => ⟨(same r).row, (same r).accessType⟩
  · intro r used
    rw [next] at used
    rw [(same r).rw]
    exact accounted.latency r used
  · intro event mem
    exact (events event mem).congr next.ge fun r _ => same r
  · apply accounted.ordered.append
    intro r leaves
    cases leaves

/-- A request enters with an object that was never in use. -/
theorem Accounted.enters (accounted : Accounted cfg trace s place) (req : DramReq) {mrqq : FifoPipeline Nat}
    (pushed : mrqq.nodes = s.mrqq.nodes ++ [some s.nextReq]) (min : mrqq.minLen = s.mrqq.minLen)
    (max : mrqq.maxLen = s.mrqq.maxLen) (latency : cfg.busLatency req.rw ≤ cfg.cl) (txbytes : req.txbytes = 0)
    (dqbytes : req.dqbytes = 0) :
    Accounted cfg (trace ++ [.pushed s.nextReq req.data])
      { s with mrqq, reqs := Function.update s.reqs s.nextReq req, nextReq := s.nextReq + 1 }
      (Function.update place s.nextReq (some .arriving)) := by
  set t : DramT :=
    { s with mrqq, reqs := Function.update s.reqs s.nextReq req, nextReq := s.nextReq + 1 } with is_t
  have fresh := accounted.unused s.nextReq (le_refl _)
  have same : ∀ r < s.nextReq, t.reqs r = s.reqs r := by
    intro r used
    rw [is_t]
    exact Function.update_of_ne (Nat.ne_of_lt used) _ _
  have same_request : ∀ r < s.nextReq, SameRequest (s.reqs r) (t.reqs r) := by
    intro r used
    rw [same r used]
    exact .refl _
  have new : t.reqs s.nextReq = req := Function.update_self ..
  have silent : ∀ r ≠ s.nextReq, columns [.pushed s.nextReq req.data] r = 0 ∧
      departures [.pushed s.nextReq req.data] r = 0 ∧ entries [.pushed s.nextReq req.data] r = 0 := by
    intro r apart
    refine ⟨rfl, rfl, ?_⟩
    simp [entries, DramEvent.enters, Ne.symm apart]
  have placed_used : ∀ r station, place r = some station → r < s.nextReq := by
    intro r station there
    by_contra fresh
    have nowhere := (accounted.unused r (Nat.le_of_not_lt fresh)).place
    rw [there] at nowhere
    contradiction
  constructor
  · apply accounted.custody.enters fresh.place
    intro station
    cases station with
    | arriving =>
        simp only [DramT.view, is_t, pushed, Function.update_self, List.filterMap_append]
        exact List.perm_append_singleton _ _
    | reading b => exact .refl _
    | writing b => exact .refl _
    | serving b => exact .refl _
  · intro r station there
    by_cases here : r = s.nextReq
    · subst here
      rw [Function.update_self] at there
      cases there
      trivial
    · rw [Function.update_of_ne here] at there
      exact (same_request r (placed_used r station there)).fits (accounted.fits r station there)
  · intro r used
    by_cases here : r = s.nextReq
    · subst here
      have no_columns : columns (trace ++ [.pushed s.nextReq req.data]) s.nextReq = 0 := by
        rw [columns_append, fresh.columns]
        rfl
      have some_bursts : 0 < bursts cfg req := Nat.lt_of_lt_of_le Nat.one_pos (le_max_left ..)
      refine ⟨0, ?_, ?_, ?_, ?_, ?_, ?_, ?_⟩
      · rw [no_columns]
        simpa using fresh.copies.symm
      · rw [no_columns, new, txbytes, Nat.zero_mul]
      · rw [new, dqbytes, Nat.zero_mul]
      · rw [no_columns]
        exact Nat.zero_le _
      · rw [no_columns, new, Function.update_self]
        exact iff_of_false (Option.some_ne_none _) (Nat.ne_of_lt some_bursts)
      · rw [departures_append, fresh.left, new, if_neg (Nat.ne_of_lt some_bursts)]
        rfl
      · rw [entries_append, fresh.entered]
        simp [entries, DramEvent.enters]
    · have before : r < s.nextReq := by
        have bound : r < s.nextReq + 1 := used
        omega
      obtain ⟨popped, underway⟩ := accounted.underway r before
      rw [Function.update_of_ne here]
      exact ⟨popped, underway.other (silent r here) rfl (same r before)⟩
  · intro r still_fresh
    have later : s.nextReq + 1 ≤ r := still_fresh
    have here : r ≠ s.nextReq := by omega
    rw [Function.update_of_ne here]
    exact (accounted.unused r (by omega)).other (silent r here) rfl
  · apply accounted.sched.congr
    intro b r queued
    have used : r < s.nextReq := by
      rcases queued with reads | writes
      · exact placed_used r (.reading b) (accounted.custody.place_of_mem reads)
      · exact placed_used r (.writing b) (accounted.custody.place_of_mem writes)
    exact ⟨(same_request r used).row, (same_request r used).accessType⟩
  · have pipes := accounted.pipes
    refine ⟨pipes.rwq, pipes.rwqMin, pipes.rwqMax, pipes.rw, min.trans pipes.mrqqMin,
      max.trans pipes.mrqqMax, ?_,
      pipes.returnq, pipes.returnqMax⟩
    simpa [is_t, pushed] using pipes.mrqq
  · intro r used
    by_cases here : r = s.nextReq
    · rw [here, new]
      exact latency
    · have bound : r < s.nextReq + 1 := used
      rw [same r (by omega)]
      exact accounted.latency r (by omega)
  · intro event mem
    rcases List.mem_append.mp mem with old | is_new
    · exact (accounted.events event old).congr (Nat.le_succ _) same_request
    · rw [List.mem_singleton.mp is_new]
      exact ⟨Nat.lt_succ_self _, by rw [new]⟩
  · apply (ordered_congr accounted.ordered accounted.events same_request).append
    intro r leaves
    cases leaves

end GpgpuSim.Dram
