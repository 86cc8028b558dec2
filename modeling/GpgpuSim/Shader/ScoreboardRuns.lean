import GpgpuSim.Shader.Scoreboard
import GpgpuSim.Containers.Holdings

/-! Runs of the scoreboard against the instructions in flight. The tables hold exactly the unreleased
outputs as long as no output of a long load is released on its own and no output that `checkCollision`
passes over is still reserved. -/
namespace GpgpuSim.Shader
open Transition Containers Holdings

/-- An issued instruction and those of its outputs that are not released. -/
structure PendingInst where
  inst : IssuedInst
  left : List Nat
  deriving DecidableEq, Repr

namespace PendingInst

/-- The registers of warp `w` that the instruction will write. -/
def writes (w : Nat) (p : PendingInst) : List Nat := if p.inst.warpId = w then p.left else []

def longWrites (w : Nat) (p : PendingInst) : List Nat := if p.inst.isLongLoad then p.writes w else []

end PendingInst

/-- Instructions are named by their place in the order of issue. -/
inductive ScoreboardEvent
  | issue (inst : IssuedInst)
  | releaseRegisters (k : Nat)
  | releaseRegister (k reg : Nat)
  deriving DecidableEq, Repr

structure ScoreboardState where
  board : Scoreboard
  inFlight : List PendingInst

namespace ScoreboardState

def initial : ScoreboardState := ⟨.initial, []⟩

def unreleased (s : ScoreboardState) (w : Nat) : List Nat := s.inFlight.flatMap (PendingInst.writes w)

def unreleasedLong (s : ScoreboardState) (w : Nat) : List Nat := s.inFlight.flatMap (PendingInst.longWrites w)

/-- Instruction `k` keeps `left` of its outputs. -/
def keeps (s : ScoreboardState) (k : Nat) (left : List Nat) : List PendingInst :=
  s.inFlight.modify k fun p => { p with left := left }

def perform (s : ScoreboardState) : ScoreboardEvent → Except ScoreboardFault ScoreboardState
  | .issue inst =>
      (s.board.reserveRegisters inst).map fun board => ⟨board, s.inFlight ++ [⟨inst, inst.outputs⟩]⟩
  | .releaseRegisters k => .ok <|
      match s.inFlight[k]? with
      | none => s
      | some p => ⟨s.board.releaseRegisters p.inst, s.keeps k []⟩
  | .releaseRegister k reg => .ok <|
      match s.inFlight[k]? with
      | none => s
      | some p => ⟨s.board.releaseRegister p.inst.warpId reg, s.keeps k (p.left.erase reg)⟩

/-- Issue past `checkCollision`; each output is released once, by either routine. -/
def Allowed (s : ScoreboardState) : ScoreboardEvent → Prop
  | .issue inst => inst.outputs.Nodup ∧ s.board.checkCollision inst.warpId inst = false
  | .releaseRegisters k => ∃ p, s.inFlight[k]? = some p ∧ p.left = p.inst.outputs
  | .releaseRegister k reg => ∃ p, s.inFlight[k]? = some p ∧ reg ∈ p.left

/-- The reserved registers are the unreleased outputs, and `islongop` tells those of long loads. -/
structure Exact (s : ScoreboardState) : Prop where
  reserved : ∀ w r, r ∈ s.board.regTable w ↔ r ∈ s.unreleased w
  long : ∀ w r, s.board.islongop w r = true ↔ r ∈ s.unreleasedLong w

/-- An issued instruction has no reserved output that `checkCollision` does not look up, and an output
released on its own is not one of a long load. -/
def Careful (s : ScoreboardState) : ScoreboardEvent → Prop
  | .issue inst => ∀ reg ∈ inst.outputs, reg ∈ s.board.regTable inst.warpId → reg ∈ inst.out.take inst.outcount
  | .releaseRegisters _ => True
  | .releaseRegister k _ => ∀ p, s.inFlight[k]? = some p → p.inst.isLongLoad = false

instance (s : ScoreboardState) (event : ScoreboardEvent) : Decidable (s.Careful event) :=
  match event with
  | .issue inst => inferInstanceAs (Decidable (∀ reg ∈ inst.outputs, reg ∈ s.board.regTable inst.warpId →
      reg ∈ inst.out.take inst.outcount))
  | .releaseRegisters _ => isTrue trivial
  | .releaseRegister k _ => inferInstanceAs (Decidable (∀ p ∈ s.inFlight[k]?, p.inst.isLongLoad = false))

/-- No two outputs in flight are the same register of the same warp. -/
structure Sound (s : ScoreboardState) : Prop extends Exact s where
  apart : ∀ w, (s.unreleased w).Nodup

end ScoreboardState

/-- One step of a run: an event and what it makes of the state. -/
structure ScoreboardEntry where
  before : ScoreboardState
  event : ScoreboardEvent
  after : Except ScoreboardFault ScoreboardState

namespace ScoreboardEntry

/-- No reservation aborts, and the tables are exact. -/
def Settles (e : ScoreboardEntry) : Prop := ∃ s, e.after = .ok s ∧ s.Exact

def Careful (e : ScoreboardEntry) : Prop := e.before.Careful e.event

instance (e : ScoreboardEntry) : Decidable e.Careful := inferInstanceAs (Decidable (e.before.Careful e.event))

end ScoreboardEntry

/-- An abort ends the run. -/
def scoreboardStep (s : Except ScoreboardFault ScoreboardState) (entries : List ScoreboardEntry)
    (t : Except ScoreboardFault ScoreboardState) : Prop :=
  ∃ before event, s = .ok before ∧ before.Allowed event ∧ t = before.perform event ∧ entries = [⟨before, event, t⟩]

abbrev ScoreboardRun := Reaches scoreboardStep (.ok .initial)

/-! ## One step -/

namespace ScoreboardState

variable {s after : ScoreboardState} {event : ScoreboardEvent} {inst : IssuedInst} {p : PendingInst} {k reg w r : Nat}

theorem longWrites_sublist : (p.longWrites w).Sublist (p.writes w) := by
  unfold PendingInst.longWrites
  split_ifs
  · exact List.Sublist.refl _
  · exact List.nil_sublist _

theorem unreleasedLong_sublist : (s.unreleasedLong w).Sublist (s.unreleased w) := by
  unfold unreleasedLong unreleased
  induction s.inFlight with
  | nil => exact List.Sublist.refl _
  | cons p rest ih =>
      simp only [List.flatMap_cons]
      exact longWrites_sublist.append ih

theorem Sound.apartLong (sound : s.Sound) (w : Nat) : (s.unreleasedLong w).Nodup :=
  (sound.apart w).sublist unreleasedLong_sublist

theorem Sound.initial : initial.Sound := by
  refine ⟨⟨?_, ?_⟩, ?_⟩
  · intro w r
    simp [ScoreboardState.initial, Scoreboard.initial, unreleased]
  · intro w r
    simp [ScoreboardState.initial, Scoreboard.initial, Scoreboard.islongop, unreleasedLong]
  · intro w
    simp [ScoreboardState.initial, unreleased]

theorem islongop_iff {board : Scoreboard} : board.islongop w r = true ↔ r ∈ board.longopregs w := by
  simp [Scoreboard.islongop]

/-! An issue adds the outputs of one instruction. -/

theorem careful_issue_iff (allowed : s.Allowed (.issue inst)) :
    s.Careful (.issue inst) ↔ ∀ reg ∈ inst.outputs, reg ∉ s.board.regTable inst.warpId := by
  constructor
  · intro careful reg output taken
    exact Scoreboard.free_of_checkCollision allowed.2 (careful reg output taken) taken
  · intro free reg output taken
    exact absurd taken (free reg output)

theorem Sound.issue (sound : s.Sound) (allowed : s.Allowed (.issue inst)) (done : s.perform (.issue inst) = .ok after) :
    after.Sound := by
  obtain ⟨board, reserved, rfl⟩ := map_ok.mp done
  obtain ⟨free, table, long⟩ := Scoreboard.reserveRegisters_ok reserved
  refine ⟨⟨?_, ?_⟩, ?_⟩
  · intro w r
    have more : r ∈ PendingInst.writes w ⟨inst, inst.outputs⟩ ↔ w = inst.warpId ∧ r ∈ inst.outputs := by
      by_cases same : inst.warpId = w
      · simp [PendingInst.writes, same]
      · simp [PendingInst.writes, same, Ne.symm same]
    have split : r ∈ unreleased ⟨board, s.inFlight ++ [⟨inst, inst.outputs⟩]⟩ w ↔
        r ∈ s.unreleased w ∨ r ∈ PendingInst.writes w ⟨inst, inst.outputs⟩ := by
      simp [unreleased]
    rw [table, split, more, sound.reserved]
  · intro w r
    have more : r ∈ PendingInst.longWrites w ⟨inst, inst.outputs⟩ ↔
        w = inst.warpId ∧ r ∈ inst.outputs ∧ inst.isLongLoad = true := by
      by_cases marked : inst.isLongLoad = true
      · by_cases same : inst.warpId = w
        · simp [PendingInst.longWrites, PendingInst.writes, same, marked]
        · simp [PendingInst.longWrites, PendingInst.writes, same, Ne.symm same]
      · simp [PendingInst.longWrites, marked]
    have split : r ∈ unreleasedLong ⟨board, s.inFlight ++ [⟨inst, inst.outputs⟩]⟩ w ↔
        r ∈ s.unreleasedLong w ∨ r ∈ PendingInst.longWrites w ⟨inst, inst.outputs⟩ := by
      simp [unreleasedLong]
    rw [islongop_iff, long, split, more, ← sound.long, islongop_iff]
  · intro w
    have split : unreleased ⟨board, s.inFlight ++ [⟨inst, inst.outputs⟩]⟩ w =
        s.unreleased w ++ PendingInst.writes w ⟨inst, inst.outputs⟩ := by
      simp [unreleased]
    rw [split, List.nodup_append]
    by_cases same : inst.warpId = w
    · subst same
      refine ⟨sound.apart _, by simpa [PendingInst.writes] using allowed.1, ?_⟩
      intro held old new fresh
      rintro rfl
      have output : held ∈ inst.outputs := by simpa [PendingInst.writes] using fresh
      exact free held output ((sound.reserved _ _).mpr old)
    · simpa [PendingInst.writes, same] using sound.apart w

/-! A release takes outputs from one instruction. -/

/-- What both releases have in common: the instruction keeps `left`. -/
theorem keeps_unreleased (sound : s.Sound) (found : s.inFlight[k]? = some p) {left : List Nat} {board : Scoreboard}
    (part : left.Sublist p.left) :
    (r ∈ unreleased ⟨board, s.keeps k left⟩ w ↔
      r ∈ s.unreleased w ∧ ¬ (w = p.inst.warpId ∧ r ∈ p.left ∧ r ∉ left)) ∧
    (r ∈ unreleasedLong ⟨board, s.keeps k left⟩ w ↔
      r ∈ s.unreleasedLong w ∧ ¬ (w = p.inst.warpId ∧ p.inst.isLongLoad = true ∧ r ∈ p.left ∧ r ∉ left)) ∧
    (unreleased ⟨board, s.keeps k left⟩ w).Nodup := by
  have shrinks : (PendingInst.writes w { p with left := left }).Sublist (p.writes w) := by
    unfold PendingInst.writes
    split_ifs
    · exact part
    · exact List.Sublist.refl _
  have shrinksLong : (PendingInst.longWrites w { p with left := left }).Sublist (p.longWrites w) := by
    unfold PendingInst.longWrites
    split_ifs
    · exact shrinks
    · exact List.Sublist.refl _
  refine ⟨?_, ?_, ?_⟩
  · refine (mem_flatMap_modify found (sound.apart w) shrinks.subset).trans (and_congr_right fun _ => ?_)
    by_cases same : p.inst.warpId = w
    · subst same
      simp [PendingInst.writes]
    · simp [PendingInst.writes, same, Ne.symm same]
  · refine (mem_flatMap_modify found (sound.apartLong w) shrinksLong.subset).trans (and_congr_right fun _ => ?_)
    by_cases same : p.inst.warpId = w
    · subst same
      by_cases long : p.inst.isLongLoad = true
      · simp [PendingInst.longWrites, PendingInst.writes, long]
      · simp [PendingInst.longWrites, long]
    · simp [PendingInst.longWrites, PendingInst.writes, same, Ne.symm same]
  · exact nodup_flatMap_modify found (sound.apart w) shrinks

/-- Only a long load awaits a register that is marked. -/
theorem Sound.long_of_marked (sound : s.Sound) (found : s.inFlight[k]? = some p) (awaited : r ∈ p.left)
    (marked : r ∈ s.unreleasedLong p.inst.warpId) : p.inst.isLongLoad = true := by
  obtain ⟨q, flying, within⟩ := List.mem_flatMap.mp marked
  have held : r ∈ p.writes p.inst.warpId := by simpa [PendingInst.writes] using awaited
  have same : p = q :=
    holder_unique (sound.apart _) (List.mem_of_getElem? found) held flying (longWrites_sublist.subset within)
  subst same
  by_contra short
  simp [PendingInst.longWrites, short] at within

theorem Sound.releaseRegisters (sound : s.Sound) (allowed : s.Allowed (.releaseRegisters k)) :
    ∃ after, s.perform (.releaseRegisters k) = .ok after ∧ after.Sound := by
  obtain ⟨p, found, whole⟩ := allowed
  have kept := fun w r =>
    @keeps_unreleased s p k w r sound found [] (s.board.releaseRegisters p.inst) (List.nil_sublist _)
  have released := fun w r => @Scoreboard.mem_releaseRegisters s.board p.inst w r
  refine ⟨⟨s.board.releaseRegisters p.inst, s.keeps k []⟩, by simp [perform, found], ⟨?_, ?_⟩, ?_⟩
  · intro w r
    rw [(released w r).1, (kept w r).1, whole, sound.reserved]
    simp
  · intro w r
    rw [islongop_iff, (released w r).2, (kept w r).2.1, whole, ← sound.long, islongop_iff]
    refine and_congr_right fun marked => not_congr ?_
    constructor
    · rintro ⟨rfl, output⟩
      have long := sound.long_of_marked found (whole ▸ output) ((sound.long _ _).mp (islongop_iff.mpr marked))
      exact ⟨rfl, long, output, List.not_mem_nil⟩
    · rintro ⟨same, _, output, _⟩
      exact ⟨same, output⟩
  · intro w
    exact (kept w 0).2.2

/-- After an output of a long load is released on its own it is still marked. -/
theorem Sound.releaseRegister_iff (sound : s.Sound) (allowed : s.Allowed (.releaseRegister k reg)) :
    ∃ after, s.perform (.releaseRegister k reg) = .ok after ∧ (s.Careful (.releaseRegister k reg) → after.Sound) ∧
      (after.Exact → s.Careful (.releaseRegister k reg)) := by
  obtain ⟨p, found, awaited⟩ := allowed
  have once : p.left.Nodup := by
    have own := (List.nodup_flatMap.mp (sound.apart p.inst.warpId)).1 p (List.mem_of_getElem? found)
    simpa [PendingInst.writes] using own
  have kept := fun w r => @keeps_unreleased s p k w r sound found (p.left.erase reg)
    (s.board.releaseRegister p.inst.warpId reg) List.erase_sublist
  have gone : ∀ r, (r ∈ p.left ∧ r ∉ p.left.erase reg) ↔ r = reg := by
    intro r
    rw [once.mem_erase_iff]
    constructor
    · rintro ⟨within, out⟩
      by_contra other
      exact out ⟨other, within⟩
    · rintro rfl
      exact ⟨awaited, fun within => within.1 rfl⟩
  refine ⟨⟨s.board.releaseRegister p.inst.warpId reg, s.keeps k (p.left.erase reg)⟩, by simp [perform, found], ?_, ?_⟩
  · intro careful
    have short := careful p found
    refine ⟨⟨?_, ?_⟩, ?_⟩
    · intro w r
      rw [Scoreboard.mem_releaseRegister, (kept w r).1, sound.reserved, gone]
    · intro w r
      rw [islongop_iff, Scoreboard.longopregs_releaseRegister, (kept w r).2.1, ← islongop_iff, sound.long]
      simp [short]
    · intro w
      exact (kept w 0).2.2
  · intro exact q other
    obtain rfl : p = q := Option.some.inj (found.symm.trans other)
    by_contra long
    have long : p.inst.isLongLoad = true := by simpa using long
    have own : reg ∈ s.unreleasedLong p.inst.warpId :=
      List.mem_flatMap.mpr ⟨p, List.mem_of_getElem? found, by simpa [PendingInst.longWrites, PendingInst.writes, long]⟩
    have marked := islongop_iff.mp ((sound.long _ _).mpr own)
    have stays := (exact.long p.inst.warpId reg).mp
      (islongop_iff.mpr (by rwa [Scoreboard.longopregs_releaseRegister]))
    exact ((kept _ reg).2.1.mp stays).2 ⟨rfl, long, (gone reg).mpr rfl⟩

/-! ## Runs -/

/-- A step from a sound state settles exactly when it is careful, and then the state is sound again. -/
theorem Sound.settles_iff (sound : s.Sound) (allowed : s.Allowed event) :
    ((∃ after, s.perform event = .ok after ∧ after.Exact) ↔ s.Careful event) ∧
      (s.Careful event → ∃ after, s.perform event = .ok after ∧ after.Sound) := by
  cases event with
  | issue inst =>
      have settled : s.Careful (.issue inst) → ∃ after, s.perform (.issue inst) = .ok after ∧ after.Sound := by
        intro careful
        obtain ⟨board, reserved⟩ :=
          Scoreboard.reserveRegisters_succeeds allowed.1 ((careful_issue_iff allowed).mp careful)
        have done : s.perform (.issue inst) = .ok ⟨board, s.inFlight ++ [⟨inst, inst.outputs⟩]⟩ :=
          map_ok.mpr ⟨board, reserved, rfl⟩
        exact ⟨_, done, sound.issue allowed done⟩
      refine ⟨⟨?_, ?_⟩, settled⟩
      · rintro ⟨after, done, _⟩
        obtain ⟨board, reserved, _⟩ := map_ok.mp done
        exact (careful_issue_iff allowed).mpr (Scoreboard.reserveRegisters_ok reserved).1
      · intro careful
        obtain ⟨after, done, sound⟩ := settled careful
        exact ⟨after, done, sound.toExact⟩
  | releaseRegisters k =>
      obtain ⟨after, done, settled⟩ := sound.releaseRegisters allowed
      exact ⟨⟨fun _ => trivial, fun _ => ⟨after, done, settled.toExact⟩⟩, fun _ => ⟨after, done, settled⟩⟩
  | releaseRegister k reg =>
      obtain ⟨after, done, settled, careful⟩ := sound.releaseRegister_iff allowed
      refine ⟨⟨?_, fun holds => ⟨after, done, (settled holds).toExact⟩⟩, fun holds => ⟨after, done, settled holds⟩⟩
      rintro ⟨other, same, exact⟩
      obtain rfl : after = other := Except.ok.inj (done.symm.trans same)
      exact careful exact

end ScoreboardState

/-- As long as every step is careful a run goes on, in sound states. -/
theorem ScoreboardRun.careful {trace : List ScoreboardEntry} {last : Except ScoreboardFault ScoreboardState}
    (run : ScoreboardRun trace last) :
    ((∀ e ∈ trace, e.Careful) → ∃ s, last = .ok s ∧ s.Sound) ∧
      ((∀ e ∈ trace, e.Settles) ↔ ∀ e ∈ trace, e.Careful) := by
  induction run with
  | refl =>
      refine ⟨fun _ => ⟨.initial, rfl, .initial⟩, ?_⟩
      simp
  | @next trace entries s t early stepped ih =>
      obtain ⟨before, event, rfl, allowed, rfl, rfl⟩ := stepped
      obtain ⟨sounds, agrees⟩ := ih
      have whole : ∀ {P : ScoreboardEntry → Prop} {e}, (∀ d ∈ trace ++ [e], P d) ↔ (∀ d ∈ trace, P d) ∧ P e := by
        intro P e
        simp only [List.mem_append, List.mem_singleton, or_imp, forall_and, forall_eq]
      have last : (∀ e ∈ trace, e.Careful) →
          (ScoreboardEntry.Settles ⟨before, event, before.perform event⟩ ↔ before.Careful event) ∧
            (before.Careful event → ∃ after, before.perform event = .ok after ∧ after.Sound) := by
        intro careful
        obtain ⟨s, same, sound⟩ := sounds careful
        cases same
        exact sound.settles_iff allowed
      rw [whole, whole, agrees]
      exact ⟨fun careful => (last careful.1).2 careful.2, and_congr_right fun careful => (last careful).1⟩

/-- In a run no reservation aborts and both tables stay exact if and only if every step is careful. -/
theorem scoreboard_exact_iff {trace : List ScoreboardEntry} {last : Except ScoreboardFault ScoreboardState}
    (run : ScoreboardRun trace last) : (∀ e ∈ trace, e.Settles) ↔ ∀ e ∈ trace, e.Careful :=
  run.careful.2

/-- The entries of the steps for the given events, up to an abort. -/
def replay : Except ScoreboardFault ScoreboardState → List ScoreboardEvent → List ScoreboardEntry
  | .ok s, event :: rest => ⟨s, event, s.perform event⟩ :: replay (s.perform event) rest
  | _, _ => []

def replayed : Except ScoreboardFault ScoreboardState → List ScoreboardEvent → Except ScoreboardFault ScoreboardState
  | .ok s, event :: rest => replayed (s.perform event) rest
  | s, _ => s

def ReplayAllowed : Except ScoreboardFault ScoreboardState → List ScoreboardEvent → Prop
  | .ok s, event :: rest => s.Allowed event ∧ ReplayAllowed (s.perform event) rest
  | _, _ => True

theorem reaches_replayed {s : Except ScoreboardFault ScoreboardState} {events : List ScoreboardEvent}
    (allowed : ReplayAllowed s events) : Reaches scoreboardStep s (replay s events) (replayed s events) := by
  induction events generalizing s with
  | nil =>
      cases s <;> exact .refl
  | cons event rest ih =>
      cases s with
      | error fault => exact .refl
      | ok s =>
          have first : Reaches scoreboardStep (.ok s) [⟨s, event, s.perform event⟩] (s.perform event) :=
            Reaches.refl.next ⟨s, event, rfl, allowed.1, rfl, rfl⟩
          exact first.append (ih allowed.2)

def sampleInst (op : UarchOp) (memoryOp : MemoryOp) (out : List Nat) : IssuedInst where
  uid := 0
  warpId := 0
  space := .globalSpace
  cacheOp := .cacheAll
  memoryOp := memoryOp
  out := out
  op := op
  inn := []
  pred := 0
  ar1 := 0
  ar2 := 0

def loadThenAdd : List ScoreboardEvent :=
  [.issue (sampleInst .loadOp .memoryLoad [1, 2]), .issue (sampleInst .aluOp .noMemoryOp [3]), .releaseRegisters 0,
    .releaseRegister 1 3, .issue (sampleInst .aluOp .noMemoryOp [1])]

theorem loadThenAdd_allowed : ReplayAllowed (.ok .initial) loadThenAdd :=
  ⟨⟨by decide, by decide⟩, ⟨by decide, by decide⟩, ⟨_, rfl, by decide⟩, ⟨_, rfl, by decide⟩, ⟨by decide, by decide⟩,
    trivial⟩

theorem scoreboard_exact_iff_loadThenAdd : ∃ trace last, ScoreboardRun trace last ∧
    trace.map ScoreboardEntry.event = loadThenAdd ∧ ∀ e ∈ trace, e.Settles := by
  have run := reaches_replayed loadThenAdd_allowed
  exact ⟨_, _, run, rfl, (scoreboard_exact_iff run).mpr (by decide)⟩

/-- The output of a load that is released on its own is reported as a long operation though it is not
reserved, and a second output after an empty first one is reserved twice. -/
theorem released_output_stays_long :
    (∃ trace s, ScoreboardRun trace (.ok s) ∧ 1 ∉ s.board.regTable 0 ∧ s.board.islongop 0 1 = true) ∧
      ∃ trace, ScoreboardRun trace (.error .abort) := by
  constructor
  · have allowed : ReplayAllowed (.ok .initial)
        [.issue (sampleInst .loadOp .memoryLoad [1]), .releaseRegister 0 1] :=
      ⟨⟨by decide, by decide⟩, ⟨_, rfl, by decide⟩, trivial⟩
    exact ⟨_, _, reaches_replayed allowed, by decide, by decide⟩
  · have allowed : ReplayAllowed (.ok .initial)
        [.issue (sampleInst .aluOp .noMemoryOp [1]), .issue (sampleInst .loadOp .memoryLoad [0, 1])] :=
      ⟨⟨by decide, by decide⟩, ⟨by decide, by decide⟩, trivial⟩
    exact ⟨_, reaches_replayed allowed⟩

end GpgpuSim.Shader
