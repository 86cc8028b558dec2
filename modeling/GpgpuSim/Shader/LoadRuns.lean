import GpgpuSim.Shader.LoadActs
import GpgpuSim.Shader.ReplyRouting

/-! Loads over whole runs: every access is served once, every register counts the accesses that are left,
and a load completes once, with the last of them. -/
namespace GpgpuSim.Shader
open Transition

/-! ## The history of a load -/

/-- The load that an event is of. -/
def LoadEvent.load : LoadEvent → WarpInst
  | .issued inst _ | .served inst _ => inst
  | .completion event => event.load

/-- How many accesses of the load have been served. -/
def servedOf (inst : WarpInst) (trace : List LoadEvent) : Nat :=
  trace.countP fun event =>
    match event with
    | .served load _ => decide (load = inst)
    | _ => false

/-- What has been reported complete of the load. -/
def completionsOf (inst : WarpInst) (trace : List LoadEvent) : List CompletionEvent :=
  trace.filterMap fun event =>
    match event with
    | .completion event => if event.load = inst then some event else none
    | _ => none

section History

variable {inst other : WarpInst} {trace more : List LoadEvent} {places : List ServedBy}
  {completions : List CompletionEvent} {accesses : Nat}

theorem servedOf_append : servedOf inst (trace ++ more) = servedOf inst trace + servedOf inst more :=
  List.countP_append

theorem completionsOf_append : completionsOf inst
    (trace ++ more) = completionsOf inst trace ++ completionsOf inst more :=
  List.filterMap_append

theorem servedOf_act : servedOf inst
    (actEvents other places completions) = if other = inst then places.length else 0 := by
  rw [actEvents, servedOf_append, servedOf, servedOf, List.countP_map, List.countP_map,
    List.countP_eq_zero (l := completions) |>.mpr (by simp)]
  by_cases same : other = inst <;> simp [same, Function.comp_def]

theorem completionsOf_act (own : ∀ event ∈ completions, event.load = other) :
    completionsOf inst (actEvents other places completions) = if other = inst then completions else
      [] := by
  rw [actEvents, completionsOf_append, completionsOf, completionsOf, List.filterMap_map,
    List.filterMap_map,
    List.filterMap_eq_nil_iff.mpr (by simp), List.nil_append]
  by_cases same : other = inst
  · subst same
    rw [if_pos rfl]
    exact (List.filterMap_congr fun event member => if_pos (own event member)).trans List.filterMap_some
  · rw [if_neg same]
    refine List.filterMap_eq_nil_iff.mpr fun event member => ?_
    simp only [Function.comp_apply, own event member, if_neg same]

theorem issued_act : LoadEvent.issued inst accesses ∈ trace ++ actEvents other places completions ↔
    LoadEvent.issued inst accesses ∈ trace := by
  simp [actEvents]

/-- A load that is in no event has no history. -/
theorem unknown (absent : ∀ event ∈ trace, event.load ≠ inst) : servedOf inst trace = 0 ∧
    completionsOf inst trace = [] := by
  constructor
  · refine List.countP_eq_zero.mpr fun event member => ?_
    cases event with
    | served load place =>
        have := absent _ member
        simpa [LoadEvent.load] using this
    | issued load accesses => simp
    | completion event => simp
  · refine List.filterMap_eq_nil_iff.mpr fun event member => ?_
    cases event with
    | completion event =>
        have := absent _ member
        simpa [LoadEvent.load] using this
    | issued load accesses => rfl
    | served load place => rfl

end History

/-! ## What holds along a run -/

namespace LoadUnit

open LdstBooks

variable {cfg : LdstConfig} {unit next : LoadUnit} {inst other : WarpInst} {trace : List LoadEvent}

/-- An access of the load is not served, or the load is in the dispatch register. -/
def Live (unit : LoadUnit) (inst : WarpInst) : Prop := unit.atDispatch = some inst ∨
    0 < unit.unserved inst

/-- The instruction writes the register. -/
def Owns (inst : WarpInst) (warpId reg : Nat) : Prop := warpId = inst.warpId ∧ reg ∈ inst.outputs

/-- What the history of a run says about the state. -/
structure Accounted (trace : List LoadEvent) (unit : LoadUnit) : Prop where
  known : ∀ inst accesses, .issued inst accesses ∈ trace → inst.isLoad = true ∧
    inst.space ≠ .sharedSpace ∧
    inst.outputs.Nodup ∧ accesses < 2 ^ 32 ∧ inst.uid < unit.nextUid
  named : ∀ event ∈ trace, ∃ accesses, .issued event.load accesses ∈ trace
  issued : ∀ inst, unit.Live inst → ∃ accesses, .issued inst accesses ∈ trace
  total : ∀ inst accesses, .issued inst accesses ∈ trace →
    servedOf inst trace + unit.unserved inst = accesses
  vacant : ∀ inst, unit.dispatchReg = some (inst, 0) → .issued inst 0 ∈ trace
  counted : ∀ inst, unit.Pending inst → unit.books.Counted inst.warpId inst.outputs (unit.unserved inst)
  apart : ∀ inst other warpId reg, unit.Pending inst → unit.Pending other → Owns inst warpId reg →
    Owns other warpId reg → inst = other
  absent : ∀ warpId reg, (∀ inst, unit.Pending inst → ¬ Owns inst warpId reg) →
    unit.books.pendingWrites warpId reg = none
  foreign : ∀ warpId reg, (warpId, reg) ∈ unit.elsewhere → reg ∈ unit.books.regTable warpId ∧
    ∀ inst, unit.Pending inst → ¬ Owns inst warpId reg
  silent : ∀ inst, unit.Pending inst → completionsOf inst trace = []
  finished : ∀ inst accesses, .issued inst accesses ∈ trace → ¬ unit.Pending inst →
    CompletesOnce inst (completionsOf inst trace)

theorem Pending.live (pending : unit.Pending inst) : unit.Live inst :=
  pending.imp id And.right

/-- A load that the unit handles and that has a register is pending. -/
theorem Live.pending (live : unit.Live inst) {warpId reg : Nat} (owns : Owns inst warpId reg) :
    unit.Pending inst :=
  live.imp id fun waits => ⟨List.ne_nil_of_mem owns.2, waits⟩

namespace Effect

variable {served : Nat} {completions : List CompletionEvent}

theorem unserved_self (effect : Effect unit inst served completions next) :
    unit.unserved inst = served + next.unserved inst := by
  rw [unserved, unserved, effect.waiting.count_eq, List.count_append, List.count_replicate_self]

theorem unserved_other (effect : Effect unit inst served completions next) (different : other ≠ inst) :
    next.unserved other = unit.unserved other := by
  rw [unserved, unserved, effect.waiting.count_eq, List.count_append,
    List.count_replicate, if_neg (by simpa using different.symm), Nat.zero_add]

theorem pending_other (effect : Effect unit inst served completions next) (different : other ≠ inst) :
    next.Pending other ↔ unit.Pending other := by
  simp only [Pending, effect.dispatch other different, effect.unserved_other different]

theorem kept_pending (effect : Effect unit inst served completions next) (pending : next.Pending other) :
    unit.Pending other := by
  by_cases same : other = inst
  · subst same
    exact effect.kept pending
  · exact (effect.pending_other same).mp pending

theorem own (effect : Effect unit inst served completions next) : ∀ event ∈ completions,
    event.load = inst := by
  intro event member
  by_cases done : unit.Pending inst ∧ ¬ next.Pending inst
  · exact (effect.completes done.1 done.2).own event member
  · rw [effect.silent fun before => by_contra fun after => done ⟨before, after⟩] at member
    contradiction

end Effect

namespace Accounted

theorem sound (accounted : Accounted trace unit) (live : unit.Live inst) : unit.Sound inst := by
  obtain ⟨accesses, issued⟩ := accounted.issued inst live
  obtain ⟨load, outside, distinct, fits, _⟩ := accounted.known inst accesses issued
  have total := accounted.total inst accesses issued
  refine ⟨load, outside, distinct, by omega, fun held => ?_, accounted.counted inst⟩
  have none := accounted.total inst 0 (accounted.vacant inst held)
  omega

theorem create : Accounted [] create where
  known _ _ member := by contradiction
  named _ member := by contradiction
  issued inst live := by
    rcases live with held | waits
    · cases held
    · cases waits
  total _ _ member := by contradiction
  vacant _ held := by cases held
  counted inst pending := by
    rcases pending.live with held | waits
    · cases held
    · cases waits
  apart inst _ _ _ pending := by
    rcases pending.live with held | waits
    · cases held
    · cases waits
  absent _ _ _ := rfl
  foreign _ _ member := by contradiction
  silent _ _ := rfl
  finished _ _ member := by contradiction

/-- A register of a load that the unit handles is of no other pending load. -/
theorem not_owned (accounted : Accounted trace unit) (live : unit.Live inst) (pending : unit.Pending other)
    (different : other ≠ inst) {warpId reg : Nat} (owns : Owns other warpId reg) :
        ¬ Owns inst warpId reg := by
  intro both
  exact different (accounted.apart other inst warpId reg pending (live.pending both) owns both)

/-- Loads go on being accounted for when accesses of one of them are served. -/
theorem effect {places : List ServedBy} {completions : List CompletionEvent} (accounted : Accounted trace unit)
    (live : unit.Live inst) (effect : Effect unit inst places.length completions next) :
    Accounted (trace ++ actEvents inst places completions) next := by
  have served := effect.unserved_self
  have kept : ∀ {load}, next.Live load → unit.Live load := by
    intro load alive
    by_cases same : load = inst
    · exact same ▸ live
    · rwa [Live, ← effect.dispatch load same, ← effect.unserved_other same]
  have outside : ∀ {load warpId reg}, next.Pending load → load ≠ inst → Owns load warpId reg →
      ¬ Owns inst warpId reg := fun pending different owns =>
    accounted.not_owned live (effect.kept_pending pending) different owns
  have reported : ∀ load, completionsOf load (trace ++ actEvents inst places completions) =
      completionsOf load trace ++ if inst = load then completions else [] := by
    intro load
    rw [completionsOf_append, completionsOf_act effect.own]
  constructor
  · intro load accesses issued
    rw [effect.nextUid]
    exact accounted.known load accesses (issued_act.mp issued)
  · intro event member
    suffices known : ∃ accesses, .issued event.load accesses ∈ trace by
      obtain ⟨accesses, issued⟩ := known
      exact ⟨accesses, issued_act.mpr issued⟩
    rcases List.mem_append.mp member with old | new
    · exact accounted.named event old
    · have own : event.load = inst := by
        rcases List.mem_append.mp new with was_served | completed
        · obtain ⟨place, _, rfl⟩ := List.mem_map.mp was_served
          rfl
        · obtain ⟨completion, inside, rfl⟩ := List.mem_map.mp completed
          exact effect.own completion inside
      exact own ▸ accounted.issued inst live
  · intro load alive
    obtain ⟨accesses, issued⟩ := accounted.issued load (kept alive)
    exact ⟨accesses, issued_act.mpr issued⟩
  · intro load accesses issued
    have total := accounted.total load accesses (issued_act.mp issued)
    rw [servedOf_append, servedOf_act]
    by_cases same : inst = load
    · subst same
      rw [if_pos rfl]
      omega
    · rw [if_neg same, effect.unserved_other (Ne.symm same)]
      omega
  · intro load held
    exact issued_act.mpr (accounted.vacant load (effect.vacant load held))
  · intro load pending reg member
    by_cases same : load = inst
    · subst same
      have assigned := effect.books
      rw [if_pos pending] at assigned
      exact assigned.counted reg member
    · have before := accounted.counted load (effect.kept_pending pending) reg member
      have frame := effect.books.outside load.warpId reg (outside pending same ⟨rfl, member⟩)
      rw [effect.unserved_other same]
      exact ⟨frame.1.trans before.1, frame.2.mpr before.2⟩
  · intro load other warpId reg first second
    exact accounted.apart load other warpId reg (effect.kept_pending first) (effect.kept_pending second)
  · intro warpId reg free
    by_cases owns : Owns inst warpId reg
    · have set := effect.books.inside reg owns.2
      rw [if_neg fun pending => free inst pending owns] at set
      rw [owns.1]
      exact set.1
    · refine (effect.books.outside warpId reg owns).1.trans
        (accounted.absent warpId reg fun load pending => ?_)
      by_cases same : load = inst
      · exact same ▸ owns
      · exact free load ((effect.pending_other same).mpr pending)
  · intro warpId reg held
    rw [effect.elsewhere] at held
    obtain ⟨reserved, free⟩ := accounted.foreign warpId reg held
    have frame := effect.books.outside warpId reg fun owns => free inst (live.pending owns) owns
    exact ⟨frame.2.mpr reserved, fun load pending => free load (effect.kept_pending pending)⟩
  · intro load pending
    rw [reported, accounted.silent load (effect.kept_pending pending), List.nil_append]
    by_cases same : inst = load
    · subst same
      rw [if_pos rfl]
      exact effect.silent fun _ => pending
    · rw [if_neg same]
  · intro load accesses issued done
    rw [reported]
    have issued := issued_act.mp issued
    by_cases same : inst = load
    · subst same
      rw [if_pos rfl]
      by_cases before : unit.Pending inst
      · rw [accounted.silent inst before, List.nil_append]
        exact effect.completes before done
      · rw [effect.silent fun pending => absurd pending before, List.append_nil]
        exact accounted.finished inst accesses issued before
    · rw [if_neg same, List.append_nil]
      exact accounted.finished load accesses issued fun pending =>
        done ((effect.pending_other (Ne.symm same)).mpr pending)

/-- Other instructions reserve and release registers that no load waits for. -/
theorem elsewhere (accounted : Accounted trace unit) {table : Nat → Finset Nat} {held : List (Nat × Nat)}
    (keeps : ∀ load, unit.Pending load → ∀ reg ∈ load.outputs, reg ∈ unit.books.regTable load.warpId →
      reg ∈ table load.warpId)
    (foreign : ∀ warpId reg, (warpId, reg) ∈ held → reg ∈ table warpId ∧
      ∀ load, unit.Pending load → ¬ Owns load warpId reg) :
    Accounted (trace ++ []) { unit with books.regTable := table, elsewhere := held } := by
  rw [List.append_nil]
  exact { accounted with
    counted := fun load pending reg member =>
      have before := accounted.counted load pending reg member
      ⟨before.1, keeps load pending reg member before.2⟩
    foreign }

section Arrival

variable {accesses : Nat} (empty : unit.dispatchReg = none) (held : next.dispatchReg = some (inst, accesses))
  (same : next.departed = unit.departed)
include empty held same

theorem unserved_arrived (new : ¬ unit.Live inst) : next.unserved inst = accesses := by
  have none : unit.departed.count inst = 0 := by
    rw [← unserved_empty empty]
    by_contra positive
    exact new (.inr (Nat.pos_of_ne_zero positive))
  rw [unserved_held held, same, none, Nat.add_zero]

theorem unserved_before (different : other ≠ inst) : next.unserved other = unit.unserved other := by
  rw [unserved_empty empty, unserved, count_waiting held, if_neg different.symm, Nat.zero_add, same]

theorem pending_before (different : other ≠ inst) : next.Pending other ↔ unit.Pending other := by
  have moved : next.atDispatch = some other ↔ unit.atDispatch = some other := by
    simp only [atDispatch, held, empty, Option.map_some, Option.map_none, Option.some.injEq,
      reduceCtorEq, iff_false]
    exact different.symm
  simp only [Pending, moved, unserved_before empty held same different]

end Arrival

/-- A load comes to the dispatch register. -/
theorem issue {accesses : Nat} {books : LdstBooks} (accounted : Accounted trace unit)
    (empty : unit.dispatchReg = none)
    (load : inst.isLoad = true) (outside : inst.space ≠ .sharedSpace) (new : unit.nextUid ≤ inst.uid)
    (fits : accesses < 2 ^ 32) (done : issueLoad inst accesses inst.outputs unit.books = .ok books) :
    Accounted (trace ++ [.issued inst accesses])
      { unit with books, dispatchReg := some (inst, accesses), nextUid := inst.uid + 1 } := by
  have unknown_load : ∀ n, .issued inst n ∉ trace := fun n issued => by
    have bound := (accounted.known inst n issued).2.2.2.2
    omega
  have fresh : ∀ event ∈ trace, event.load ≠ inst := by
    rintro event member rfl
    obtain ⟨n, issued⟩ := accounted.named event member
    exact unknown_load n issued
  obtain ⟨never_served, never_reported⟩ := unknown fresh
  have not_live : ¬ unit.Live inst := fun live => by
    obtain ⟨n, issued⟩ := accounted.issued inst live
    exact unknown_load n issued
  obtain ⟨distinct, free⟩ := issueLoad_fresh done
  have unowned : ∀ other warpId reg, unit.Pending other → Owns other warpId reg →
    ¬ Owns inst warpId reg := by
    intro other warpId reg pending owns mine
    have reserved := (accounted.counted other pending reg owns.2).2
    rw [← owns.1, mine.1] at reserved
    exact free reg mine.2 reserved
  have assigned : Assigned inst.warpId inst.outputs (some accesses) unit.books books := by
    refine issueLoad_assigned (fun reg member => ?_) done
    exact accounted.absent inst.warpId reg fun other pending owns =>
      unowned other _ _ pending owns ⟨rfl, member⟩
  generalize after :
    { unit with books, dispatchReg := some (inst, accesses), nextUid := inst.uid + 1 } = next
  have held : next.dispatchReg = some (inst, accesses) := by rw [← after]
  have next_books : next.books = books := by rw [← after]
  have here : next.atDispatch = some inst := by rw [atDispatch, held, Option.map_some]
  have departed : next.departed = unit.departed := by
    rw [← after]
    rfl
  have unserved_here := unserved_arrived empty held departed not_live
  have unserved_there := fun other => @unserved_before _ _ _ other _ empty held departed
  have pending_there := fun other => @pending_before _ _ _ other _ empty held departed
  constructor
  · intro other n member
    rcases List.mem_append.mp member with old | now
    · obtain ⟨l, o, d, f, bound⟩ := accounted.known other n old
      refine ⟨l, o, d, f, ?_⟩
      rw [← after]
      change other.uid < inst.uid + 1
      omega
    · obtain ⟨rfl, rfl⟩ := LoadEvent.issued.inj (List.mem_singleton.mp now)
      refine ⟨load, outside, distinct, fits, ?_⟩
      rw [← after]
      exact Nat.lt_succ_self _
  · intro event member
    rcases List.mem_append.mp member with old | now
    · obtain ⟨n, issued⟩ := accounted.named event old
      exact ⟨n, List.mem_append_left _ issued⟩
    · obtain rfl := List.mem_singleton.mp now
      exact ⟨accesses, List.mem_append_right _ (List.mem_singleton.mpr rfl)⟩
  · intro other live
    by_cases same : other = inst
    · exact ⟨accesses, List.mem_append_right _ (List.mem_singleton.mpr (same ▸ rfl))⟩
    · have before : unit.Live other := by
        rcases live with at_dispatch | waits
        · exact absurd (Option.some.inj (at_dispatch.symm.trans here)) same
        · exact .inr (unserved_there other same ▸ waits)
      obtain ⟨n, issued⟩ := accounted.issued other before
      exact ⟨n, List.mem_append_left _ issued⟩
  · intro other n member
    rw [servedOf_append, show servedOf other [.issued inst accesses] = 0 from rfl, Nat.add_zero]
    rcases List.mem_append.mp member with old | now
    · have different : other ≠ inst := fun same => unknown_load n (same ▸ old)
      rw [unserved_there other different]
      exact accounted.total other n old
    · obtain ⟨rfl, rfl⟩ := LoadEvent.issued.inj (List.mem_singleton.mp now)
      rw [never_served, unserved_here, Nat.zero_add]
  · intro other empty_load
    obtain ⟨rfl, rfl⟩ := Prod.mk.inj (Option.some.inj (held.symm.trans empty_load))
    exact List.mem_append_right _ (List.mem_singleton.mpr rfl)
  · intro other pending
    rw [next_books]
    by_cases same : other = inst
    · subst same
      rw [unserved_here]
      exact assigned.counted
    · have before := (pending_there other same).mp pending
      rw [unserved_there other same]
      intro reg member
      have frame := assigned.outside other.warpId reg (unowned other _ _ before ⟨rfl, member⟩)
      have counted := accounted.counted other before reg member
      exact ⟨frame.1.trans counted.1, frame.2.mpr counted.2⟩
  · intro first second warpId reg one two owns owned
    by_cases same : first = inst
    · by_cases same' : second = inst
      · exact same.trans same'.symm
      · exact absurd (same ▸ owns) (unowned second _ _ ((pending_there second same').mp two) owned)
    · have before := (pending_there first same).mp one
      by_cases same' : second = inst
      · exact absurd (same' ▸ owned) (unowned first _ _ before owns)
      · exact accounted.apart first second warpId reg before
          ((pending_there second same').mp two) owns owned
  · intro warpId reg unclaimed
    rw [next_books]
    have pending_here : next.Pending inst := .inl here
    refine (assigned.outside warpId reg (unclaimed inst pending_here)).1.trans ?_
    refine accounted.absent warpId reg fun other pending => ?_
    by_cases same : other = inst
    · exact absurd (same ▸ pending).live not_live
    · exact unclaimed other ((pending_there other same).mpr pending)
  · intro warpId reg member
    have elsewhere : next.elsewhere = unit.elsewhere := by rw [← after]
    rw [elsewhere] at member
    obtain ⟨reserved, unclaimed⟩ := accounted.foreign warpId reg member
    have not_mine : ¬ Owns inst warpId reg := fun owns => free reg owns.2 (owns.1 ▸ reserved)
    rw [next_books]
    refine ⟨(assigned.outside warpId reg not_mine).2.mpr reserved, fun other pending => ?_⟩
    by_cases same : other = inst
    · exact same ▸ not_mine
    · exact unclaimed other ((pending_there other same).mp pending)
  · intro other pending
    rw [completionsOf_append, show completionsOf other [.issued inst accesses] = [] from rfl,
      List.append_nil]
    by_cases same : other = inst
    · exact same ▸ never_reported
    · exact accounted.silent other ((pending_there other same).mp pending)
  · intro other n member done
    have different : other ≠ inst := fun same => done (same ▸ .inl here)
    rw [completionsOf_append, show completionsOf other [.issued inst accesses] = [] from rfl,
      List.append_nil]
    rcases List.mem_append.mp member with old | now
    · exact accounted.finished other n old fun pending => done
        ((pending_there other different).mpr pending)
    · exact absurd (LoadEvent.issued.inj (List.mem_singleton.mp now)).1 different

end Accounted

theorem act_live {places : List ServedBy} {completions : List CompletionEvent}
    (act : LoadAct cfg unit inst places completions next) : unit.Live inst := by
  have held : ∀ {accesses}, unit.dispatchReg = some (inst, accesses) → unit.Live inst := fun held =>
    .inl (by rw [atDispatch, held, Option.map_some])
  cases act with
  | pass at_dispatch | bypass at_dispatch _ _ _ | enqueue at_dispatch _ _ | readOnlyHit at_dispatch _ _
  | readOnlyMiss at_dispatch _ _ | perfect at_dispatch _ => exact held at_dispatch
  | queueHit queue _ | queueMiss queue =>
      exact .inr (List.count_pos_iff.mpr (by simp [waiting, departed, queue]))
  | take _ found => exact .inr (List.count_pos_iff.mpr (by simp [waiting, departed, found]))
  | writeback at_wb _ => exact .inr (List.count_pos_iff.mpr (by simp [waiting, departed, at_wb]))

theorem Accounted.step {events : List LoadEvent} (accounted : Accounted trace unit)
    (stepped : CarefulStep cfg unit events next) : Accounted (trace ++ events) next := by
  obtain ⟨step, careful⟩ := stepped
  cases step with
  | issue empty load outside new fits done => exact accounted.issue empty load outside new fits done
  | act act =>
      have live := act_live act
      exact accounted.effect live (act_effect act careful (accounted.sound live))
  | @reserve warpId reg free =>
      refine accounted.elsewhere (fun load _ r _ reserved => ?_) fun w r member => ?_
      · by_cases same : load.warpId = warpId
        · rw [same, Function.update_self]
          exact Finset.mem_insert_of_mem (same ▸ reserved)
        · rwa [Function.update_of_ne same]
      · rcases List.mem_cons.mp member with now | old
        · obtain ⟨rfl, rfl⟩ := Prod.mk.inj now
          refine ⟨by rw [Function.update_self]; exact Finset.mem_insert_self ..,
            fun load pending owns => free ?_⟩
          rw [owns.1]
          exact (accounted.counted load pending r owns.2).2
        · obtain ⟨reserved, unclaimed⟩ := accounted.foreign w r old
          refine ⟨?_, unclaimed⟩
          by_cases same : w = warpId
          · rw [same, Function.update_self]
            exact Finset.mem_insert_of_mem (same ▸ reserved)
          · rwa [Function.update_of_ne same]
  | @release warpId reg held =>
      have unclaimed := (accounted.foreign warpId reg held).2
      have others : ∀ {w r}, (w, r) ≠ (warpId, reg) → r ∈ unit.books.regTable w →
          r ∈ (unit.books.releaseRegister warpId reg).regTable w := by
        intro w r different reserved
        by_cases same : w = warpId
        · subst same
          simpa [releaseRegister, reserved] using different
        · simpa [releaseRegister, Function.update_of_ne same] using reserved
      refine accounted.elsewhere
        (fun load pending r member reserved => others ?_ reserved) fun w r member => ?_
      · intro same
        obtain ⟨sameWarp, rfl⟩ := Prod.mk.inj same
        exact unclaimed load pending ⟨sameWarp.symm, member⟩
      · obtain ⟨old, different⟩ := List.mem_filter.mp member
        obtain ⟨reserved, free⟩ := accounted.foreign w r old
        exact ⟨others (of_decide_eq_true different) reserved, free⟩

theorem run_accounted (run : Reaches (CarefulStep cfg) create trace unit) : Accounted trace unit :=
  run.invariant Accounted.create fun _ accounted stepped => accounted.step stepped

/-- No service of an access faults. -/
theorem Accounted.no_fault (accounted : Accounted trace unit) : ¬ unit.Faults := by
  rintro (⟨held, member, zero⟩ | @⟨inst, fault, member, failed⟩ | @⟨inst, fault, held, failed⟩)
  · have counted := accounted.counted _ (pending_held held) _ member
    rw [pending_of_some counted.1, unserved_held held] at zero
    omega
  · have waits : 0 < unit.unserved inst := List.count_pos_iff.mpr (by simp [waiting, departed, member])
    have sound := accounted.sound (.inr waits)
    obtain ⟨_, served, _⟩ := hitQueued_assigned sound.load
      (sound_counted sound waits) sound.distinct waits
    cases failed.symm.trans served
  · have waits : 0 < unit.unserved inst := List.count_pos_iff.mpr (by simp [waiting, departed, held])
    have sound := accounted.sound (.inr waits)
    obtain ⟨_, served, _⟩ := writeback_assigned sound.outside
      (sound_counted sound waits) sound.distinct waits
    cases failed.symm.trans served

/-- What a load of so many accesses looks like at any time: its registers count the accesses that are not
served and stay reserved, and it completes once, with the last of them. -/
structure Settles (trace : List LoadEvent) (unit : LoadUnit) (inst : WarpInst) (accesses : Nat) :
    Prop where
  total : servedOf inst trace + unit.unserved inst = accesses
  counts : 0 < unit.unserved inst → ∀ reg ∈ inst.outputs,
    unit.books.pending inst.warpId reg = unit.unserved inst ∧
    reg ∈ unit.books.regTable inst.warpId
  waits : 0 < unit.unserved inst → inst.outputs ≠ [] → completionsOf inst trace = []
  completes : unit.unserved inst = 0 → CompletesOnce inst (completionsOf inst trace)
  once : (completionsOf inst trace).count (.completed inst) ≤ 1
  zero : unit.unserved inst = 0 → ∀ reg ∈ inst.outputs, unit.books.pending inst.warpId reg = 0 ∨
    ∃ later, later ≠ inst ∧ unit.Pending later ∧ Owns later inst.warpId reg

/-- Every load with accesses completes once, and its registers are released once, when its last access is
served, in every run in which no load of several registers has its last access served at the head of the
L1 latency queue and no load of several accesses goes to the perfect constant cache. -/
theorem loads_settle (run : Reaches (CarefulStep cfg) create trace unit) {accesses : Nat}
    (issued : .issued inst accesses ∈ trace) (some : 0 < accesses) :
    Settles trace unit inst accesses ∧ ¬ unit.Faults := by
  have accounted := run_accounted run
  refine ⟨?_, accounted.no_fault⟩
  have total := accounted.total inst accesses issued
  -- a load that waits in the dispatch register with no access has been issued with none
  have done : unit.unserved inst = 0 → ¬ unit.Pending inst := by
    rintro zero (held | waits)
    · obtain ⟨⟨other, left⟩, holds, name⟩ := Option.map_eq_some_iff.mp held
      obtain rfl : other = inst := name
      have count := unserved_held holds
      obtain rfl : left = 0 := by omega
      have none := accounted.total other 0 (accounted.vacant other holds)
      omega
    · omega
  constructor
  · exact total
  · intro waits reg member
    have counted := accounted.counted inst (.inr ⟨List.ne_nil_of_mem member, waits⟩) reg member
    exact ⟨pending_of_some counted.1, counted.2⟩
  · exact fun waits registers => accounted.silent inst (.inr ⟨registers, waits⟩)
  · exact fun zero => accounted.finished inst accesses issued (done zero)
  · by_cases pending : unit.Pending inst
    · rw [accounted.silent inst pending]
      exact Nat.zero_le _
    · exact (accounted.finished inst accesses issued pending).completed.le
  · intro zero reg member
    by_cases later : ∃ later, unit.Pending later ∧ Owns later inst.warpId reg
    · obtain ⟨later, pending, owns⟩ := later
      exact .inr ⟨later, fun same => done zero (same ▸ pending), pending, owns⟩
    · refine .inl (pending_of_none (accounted.absent inst.warpId reg fun other pending owns => ?_))
      exact later ⟨other, pending, owns⟩

/-- A global load to registers 1 and on. -/
def wideLoad (registers : Nat) : WarpInst := { LdstUnit.globalLoad .cacheAll with out := List.range' 1 registers }

theorem careful_of_more {unit : LoadUnit} {inst : WarpInst} {completions : List CompletionEvent}
    (more : unit.unserved inst ≠ 1) : unit.Careful (actEvents inst [.latencyQueue] completions) := by
  intro other
  constructor
  · intro member last
    obtain rfl : other = inst := by simpa [actEvents] using member
    exact absurd last more
  · simp [actEvents]

/-- A load of two registers and three accesses: two of them hit in the latency queue, the last one misses and
is written back. -/
theorem loads_settle_two_registers :
    ∃ trace unit, Reaches (CarefulStep (LdstUnit.smallConfig false)) create trace unit ∧
    .issued (wideLoad 2) 3 ∈ trace ∧ unit.unserved (wideLoad 2) = 0 ∧ Settles trace unit (wideLoad 2) 3 ∧
    ¬ unit.Faults := by
  have issued : CarefulStep (LdstUnit.smallConfig false) create [.issued (wideLoad 2) 3] _ :=
    ⟨.issue rfl rfl nofun (Nat.le_refl _) (by decide) rfl, fun inst => by simp⟩
  have queued := ((Reaches.refl.next issued).next
    ⟨.act (@LoadAct.enqueue _ _ _ 2 1 rfl rfl rfl), fun inst => by simp [actEvents, leave]⟩).next
    ⟨.act (@LoadAct.enqueue _ _ _ 1 0 rfl rfl rfl), fun inst => by simp [actEvents, leave]⟩
  have hits := (queued.next
    ⟨.act (@LoadAct.queueHit _ _ _ [] [wideLoad 2, wideLoad 2] _ _ rfl rfl), careful_of_more (by decide)⟩).next
    ⟨.act (@LoadAct.queueHit _ _ _ [] [wideLoad 2] _ _ rfl rfl), careful_of_more (by decide)⟩
  have run := ((hits.next ⟨.act (@LoadAct.queueMiss _ _ _ [] [] rfl), fun inst => by simp [actEvents]⟩).next
    ⟨.act (@LoadAct.take _ _ _ [] [] rfl rfl), fun inst => by simp [actEvents]⟩).next
    ⟨.act (@LoadAct.writeback _ _ _ _ _ rfl rfl), fun inst => by simp [actEvents]⟩
  exact ⟨_, _, run, List.mem_cons_self, rfl, loads_settle run List.mem_cons_self (by decide)⟩

/-- A load of two registers whose only access hits at the head of the latency queue completes twice. -/
theorem wide_load_completes_twice : ∃ trace unit, Reaches
    (LoadStep (LdstUnit.smallConfig false)) create trace unit ∧
    .issued (wideLoad 2) 1 ∈ trace ∧ unit.unserved (wideLoad 2) = 0 ∧
    (completionsOf (wideLoad 2) trace).count (.completed (wideLoad 2)) = 2 := by
  have issued : LoadStep (LdstUnit.smallConfig false) create [.issued (wideLoad 2) 1] _ :=
    .issue rfl rfl nofun (Nat.le_refl _) (by decide) rfl
  have run := ((Reaches.refl.next issued).next (.act (@LoadAct.enqueue _ _ _ 1 0 rfl rfl rfl))).next
    (.act (@LoadAct.queueHit _ _ _ [] [] _ _ rfl rfl))
  exact ⟨_, _, run, List.mem_cons_self, rfl, rfl⟩

/-! ## Careless steps -/

theorem count_hitEvents (regs : List Nat) : (hitEvents inst regs 1).count
    (.completed inst) = regs.length := by
  rw [hitEvents, if_pos rfl]
  induction regs with
  | nil => rfl
  | cons reg rest ih => simp [ih]

/-- The last access of a load of several registers hits at the head of the latency queue: the load completes
more than once. -/
theorem wide_hit_breaks {books : LdstBooks} {completions : List CompletionEvent} {accesses : Nat}
    (accounted : Accounted trace unit) (done : unit.books.hitQueued inst = .ok (books, completions))
        (last : unit.unserved inst = 1) (wide : 1 < inst.outputs.length) :
    ¬ Settles (trace ++ actEvents inst [.latencyQueue] completions) next inst accesses := by
  intro settles
  have live : unit.Live inst := .inr (by omega)
  have sound := accounted.sound live
  obtain ⟨_, served, _⟩ := hitQueued_assigned sound.load (sound_counted sound (by omega)) sound.distinct
    (by omega : 0 < unit.unserved inst)
  obtain ⟨-, rfl⟩ := Prod.mk.inj (Except.ok.inj (done.symm.trans served))
  have own : ∀ event ∈ hitEvents inst inst.outputs (unit.unserved inst), event.load = inst := by
    intro event member
    simp only [hitEvents, last, if_true, List.mem_flatMap, List.mem_cons, List.not_mem_nil,
      or_false] at member
    obtain ⟨_, _, rfl | rfl⟩ := member <;> rfl
  have once := settles.once
  rw [completionsOf_append, completionsOf_act own, if_pos rfl, List.count_append, last,
    count_hitEvents] at once
  omega

/-- A load of several accesses goes to the perfect constant cache: its registers keep a count. -/
theorem perfect_cache_breaks {left accesses : Nat} (accounted : Accounted trace unit)
    (held : unit.dispatchReg = some (inst, left + 1)) (several : left ≠ 0) (registers : inst.outputs ≠ []) :
    ¬ Settles (trace ++ actEvents inst (List.replicate (left + 1) .perfectCache)
      ((unit.hit inst).leave inst 0).2)
      ((unit.hit inst).leave inst 0).1 inst accesses := by
  intro settles
  have pending := pending_held held
  have sound := accounted.sound pending.live
  have counts := unserved_held held
  have assigned := hitReadOnly_assigned (sound_counted sound (by omega)) sound.distinct
    (by omega) sound.fits
  have stays : (unit.hit inst).books.dispatchLoad inst = ((unit.hit inst).books, []) :=
    dispatchLoad_pending assigned.counted (by omega) registers
  have silent : completionsOf inst
    (trace ++ actEvents inst (List.replicate (left + 1) .perfectCache) []) = [] := by
    rw [completionsOf_append, accounted.silent inst pending, completionsOf_act (by simp), if_pos rfl]
    rfl
  have unserved_next : ((unit.hit inst).leave inst 0).1.unserved inst = unit.departed.count inst := by
    rw [unserved_empty rfl, departed_leave]
    rfl
  obtain ⟨reg, member⟩ := List.exists_mem_of_ne_nil _ registers
  by_cases none : unit.departed.count inst = 0
  · have once := (settles.completes (unserved_next.trans none)).completed
    simp only [leave, stays, silent, List.count_nil] at once
    contradiction
  · have reached : ((unit.hit inst).leave inst 0).1.books = unit.books.hitReadOnly inst := by
      simp only [leave, stays]
      rfl
    have count := (settles.counts (by omega) reg member).1
    rw [reached, pending_of_some (assigned.counted reg member).1] at count
    omega

/-- The condition is exact: the first step of a run that is not careful breaks what the load promises. -/
theorem careless_step_breaks {events : List LoadEvent} (run : Reaches (CarefulStep cfg) create trace unit)
    (step : LoadStep cfg unit events next) (careless : ¬ unit.Careful events) :
    ∃ inst accesses, .issued inst accesses ∈ trace ∧ ¬ Settles (trace ++ events) next inst accesses := by
  have accounted := run_accounted run
  cases step with
  | issue _ _ _ _ _ _ | reserve _ | release _ => exact absurd (fun inst => by simp) careless
  | @act inst places completions _ act =>
      obtain ⟨accesses, issued⟩ := accounted.issued inst (act_live act)
      refine ⟨inst, accesses, issued, ?_⟩
      have own : ∀ {load place}, LoadEvent.served load place ∈ actEvents inst places completions →
          load = inst ∧ place ∈ places := by
        intro load place member
        simpa [actEvents, and_comm, eq_comm] using member
      cases act with
      | pass _ | bypass _ _ _ _ | enqueue _ _ _ | readOnlyHit _ _ _ | readOnlyMiss _ _ _ | queueMiss _
      | take _ _ | writeback _ _ =>
          refine absurd (fun load => ⟨fun member => ?_, fun member => ?_⟩) careless <;>
            simpa using (own member).2
      | @perfect left held _ =>
          have wrong : left ≠ 0 ∧ inst.outputs ≠ [] := by
            by_contra right
            refine careless fun load => ⟨fun member => by simpa using (own member).2,
              fun member registers => ?_⟩
            obtain rfl := (own member).1
            obtain rfl : left = 0 := by_contra fun several => right ⟨several, registers⟩
            exact held
          exact perfect_cache_breaks accounted held wrong.1 wrong.2
      | queueHit _ done =>
          have wrong : unit.unserved inst = 1 ∧ 1 < inst.outputs.length := by
            by_contra right
            refine careless fun load => ⟨fun member last => ?_, fun member => by simpa using
              (own member).2⟩
            obtain rfl := (own member).1
            exact Nat.le_of_not_lt fun wide => right ⟨last, wide⟩
          exact wide_hit_breaks accounted done wrong.1 wrong.2

end LoadUnit

end GpgpuSim.Shader
