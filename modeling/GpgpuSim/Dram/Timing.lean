import GpgpuSim.Dram.Cycle
import GpgpuSim.Transition.Countdown
import GpgpuSim.Transition.Fallible
import GpgpuSim.Transition.Runs

/-! Command timing. Each counter of the controller covers the commands that started
it, so a command whose counters have run out is far enough from all of them. -/
namespace GpgpuSim.Dram
open GpgpuSim.Memory Transition

/-! ## The rules -/

namespace Command

def isActivate (c : Command) : Prop := c.kind = .activate

def isColumn (c : Command) : Prop := ∃ rw, c.kind = .column rw

/-- An activate or a precharge. -/
def isRow (c : Command) : Bool :=
  match c.kind with
  | .activate | .precharge => true
  | .column _ => false

end Command

/-- The delay from an activate to a column command. -/
def MemoryConfig.rowToColumn (cfg : MemoryConfig) : ReadWrite → Nat
  | .read => cfg.tRCD
  | .write => cfg.tRCDWR

def ReadWrite.opposite : ReadWrite → ReadWrite
  | .read => .write
  | .write => .read

/-- The delay from a column command of the opposite direction. -/
def MemoryConfig.turnaround (cfg : MemoryConfig) : ReadWrite → Nat
  | .read => cfg.tWTR
  | .write => cfg.tRTW

def commands (trace : List DramEvent) : List Command :=
  trace.filterMap fun event =>
    match event with
    | .command c => some c
    | _ => none

/-- The most recent activate or precharge of a bank. -/
def lastRowCommand (j : Nat) (history : List Command) : Option Command :=
  history.reverse.find? fun c => c.isRow && c.bank = j

/-- All commands of the history that satisfy `P` are at least `period` cycles before `c`. -/
def After (P : Command → Prop) (period : Nat) (history : List Command) (c : Command) : Prop :=
  ∀ earlier ∈ history, P earlier → earlier.time + period ≤ c.time

/-- A column command keeps its distances, and its row is open. -/
structure ColumnLegal (cfg : MemoryConfig) (history : List Command) (c : Command) (rw : ReadWrite) :
    Prop where
  opened : ∃ act, lastRowCommand c.bank history = some act ∧ act.kind = .activate ∧ act.row = c.row ∧
    act.time + cfg.rowToColumn rw ≤ c.time
  ccd : After Command.isColumn cfg.tCCD history c
  ccdl : After
    (fun e => e.isColumn ∧ cfg.getBankgrpNumber e.bank = cfg.getBankgrpNumber c.bank) cfg.tCCDL history c
  turn : After (·.kind = .column rw.opposite) (cfg.turnaround rw) history c

structure ActivateLegal (cfg : MemoryConfig) (history : List Command) (c : Command) : Prop where
  rrd : After Command.isActivate cfg.tRRD history c
  rc : After (fun e => e.isActivate ∧ e.bank = c.bank) cfg.tRC history c
  rp : After (fun e => e.kind = .precharge ∧ e.bank = c.bank) cfg.tRP history c

structure PrechargeLegal (cfg : MemoryConfig) (history : List Command) (c : Command) : Prop where
  ras : After (fun e => e.isActivate ∧ e.bank = c.bank) cfg.tRAS history c
  wtp : After (fun e => e.kind = .column .write ∧ e.bank = c.bank) cfg.tWTP history c

def Legal (cfg : MemoryConfig) (history : List Command) (c : Command) : Prop :=
  match c.kind with
  | .column rw => ColumnLegal cfg history c rw
  | .activate => ActivateLegal cfg history c
  | .precharge => PrechargeLegal cfg history c

/-- Every command is legal after those before it. -/
def AllLegal (cfg : MemoryConfig) (history : List Command) : Prop := Along (Legal cfg) history

/-! ## The counters -/

/-- What the counters of a bank cover. -/
structure BankTimed (cfg : MemoryConfig) (now : Nat) (history : List Command) (j : Nat) (bank : Bank) :
    Prop where
  rcd : Covers Command.time (fun e => e.isActivate ∧ e.bank = j) cfg.tRCD now bank.rcdc history
  rcdwr : Covers Command.time (fun e => e.isActivate ∧ e.bank = j) cfg.tRCDWR now bank.rcdwrc history
  ras : Covers Command.time (fun e => e.isActivate ∧ e.bank = j) cfg.tRAS now bank.rasc history
  rc : Covers Command.time (fun e => e.isActivate ∧ e.bank = j) cfg.tRC now bank.rcc history
  rp : Covers Command.time (fun e => e.kind = .precharge ∧ e.bank = j) cfg.tRP now bank.rpc history
  wtp : Covers Command.time (fun e => e.kind = .column .write ∧ e.bank = j) cfg.tWTP now bank.wtpc history
  opened : bank.state = .bankActive →
    ∃ act, lastRowCommand j history = some act ∧ act.kind = .activate ∧ act.row = bank.currRow

structure Timed (cfg : MemoryConfig) (history : List Command) (s : DramT) : Prop where
  past : ∀ e ∈ history, e.time ≤ s.nCmd
  rrd : Covers Command.time Command.isActivate cfg.tRRD s.nCmd s.rrdc history
  ccd : Covers Command.time Command.isColumn cfg.tCCD s.nCmd s.ccdc history
  rtw : Covers Command.time (·.kind = .column .read) cfg.tRTW s.nCmd s.rtwc history
  wtr : Covers Command.time (·.kind = .column .write) cfg.tWTR s.nCmd s.wtrc history
  ccdl : ∀ grp, Covers Command.time
    (fun e => e.isColumn ∧ cfg.getBankgrpNumber e.bank = grp) cfg.tCCDL s.nCmd
    (s.bkgrp grp).ccdlc history
  bank : ∀ j, BankTimed cfg s.nCmd history j (s.bk j)
  legal : AllLegal cfg history

variable {cfg : MemoryConfig} {history : List Command} {s t : DramT}

/-- Nothing but the requests has changed. -/
structure SameClock (s t : DramT) : Prop where
  nCmd : t.nCmd = s.nCmd
  rrdc : t.rrdc = s.rrdc
  ccdc : t.ccdc = s.ccdc
  rtwc : t.rtwc = s.rtwc
  wtrc : t.wtrc = s.wtrc
  bkgrp : t.bkgrp = s.bkgrp
  bank : ∀ j, t.bk j = { s.bk j with mrq := (t.bk j).mrq }

theorem SameClock.refl (s : DramT) : SameClock s s := ⟨rfl, rfl, rfl, rfl, rfl, rfl, fun _ => rfl⟩

theorem SameClock.trans {u : DramT} (one : SameClock s t) (two : SameClock t u) : SameClock s u := by
  refine ⟨two.nCmd.trans one.nCmd, two.rrdc.trans one.rrdc, two.ccdc.trans one.ccdc,
    two.rtwc.trans one.rtwc,
    two.wtrc.trans one.wtrc, two.bkgrp.trans one.bkgrp, fun j => ?_⟩
  rw [two.bank j, one.bank j]

theorem BankTimed.of_same {now : Nat} {j : Nat} {bank : Bank} (timed : BankTimed cfg now history j bank)
    (mrq : Option Nat) (rtpc : Nat) : BankTimed cfg now history j { bank with mrq, rtpc } :=
  ⟨timed.rcd, timed.rcdwr, timed.ras, timed.rc, timed.rp, timed.wtp, timed.opened⟩

theorem Timed.of_same (timed : Timed cfg history s) (same : SameClock s t) : Timed cfg history t := by
  obtain ⟨nCmd, rrdc, ccdc, rtwc, wtrc, bkgrp, bank⟩ := same
  constructor
  · rw [nCmd]
    exact timed.past
  · rw [nCmd, rrdc]
    exact timed.rrd
  · rw [nCmd, ccdc]
    exact timed.ccd
  · rw [nCmd, rtwc]
    exact timed.rtw
  · rw [nCmd, wtrc]
    exact timed.wtr
  · rw [nCmd, bkgrp]
    exact timed.ccdl
  · intro j
    rw [nCmd, bank j]
    exact (timed.bank j).of_same _ _
  · exact timed.legal

/-! ## One command -/

theorem past_append (timed : Timed cfg history s) (kind : CommandKind) (j row req : Nat) :
    ∀ e ∈ history ++ [⟨s.nCmd, kind, j, row, req⟩], e.time ≤ s.nCmd := by
  intro e mem
  rcases List.mem_append.mp mem with old | new
  · exact timed.past e old
  · rw [List.mem_singleton.mp new]

theorem lastRowCommand_column {j row req time bank : Nat} {rw : ReadWrite} :
    lastRowCommand bank (history ++ [⟨time, .column rw, j, row, req⟩]) = lastRowCommand bank history := by
  simp [lastRowCommand, Command.isRow]

theorem lastRowCommand_self {j row req time : Nat} {kind : CommandKind}
    (is_row : Command.isRow ⟨time, kind, j, row, req⟩) :
    lastRowCommand j (history ++ [⟨time, kind, j, row, req⟩]) = some ⟨time, kind, j, row, req⟩ := by
  simp [lastRowCommand, is_row]

theorem lastRowCommand_other {j bank row req time : Nat} {kind : CommandKind} (apart : bank ≠ j) :
    lastRowCommand bank (history ++ [⟨time, kind, j, row, req⟩]) = lastRowCommand bank history := by
  simp [lastRowCommand, apart.symm]

/-- A command that starts none of the counters of a bank. -/
theorem BankTimed.other {now j : Nat} {bank : Bank} {c : Command} (timed : BankTimed cfg now history j bank)
    (row : lastRowCommand j (history ++ [c]) = lastRowCommand j history)
    (act : ¬ (c.isActivate ∧ c.bank = j)) (pre : ¬ (c.kind = .precharge ∧ c.bank = j))
    (write : ¬ (c.kind = .column .write ∧ c.bank = j)) : BankTimed cfg now (history ++ [c]) j bank := by
  refine ⟨timed.rcd.other (by simpa using act), timed.rcdwr.other (by simpa using act),
    timed.ras.other (by simpa using act), timed.rc.other (by simpa using act), timed.rp.other
      (by simpa using pre),
    timed.wtp.other (by simpa using write), ?_⟩
  rw [row]
  exact timed.opened

theorem After.of_covers {P : Command → Prop} {period now : Nat} {c : Command}
    (covers : Covers Command.time P period now 0 history) (here : c.time = now) :
        After P period history c := by
  intro earlier mem holds
  rw [here]
  exact covers.elapsed mem holds

theorem Timed.activate (timed : Timed cfg history s) {j row req : Nat} (rrdc : s.rrdc = 0)
    (rpc : (s.bk j).rpc = 0) (rcc : (s.bk j).rcc = 0) (prio : Nat) :
    Timed cfg (history ++ [⟨s.nCmd, .activate, j, row, req⟩])
      ({ s with rrdc := cfg.tRRD, prio }.modifyBank j fun bank =>
        { bank with
          currRow := row
          state := .bankActive
          rcdc := cfg.tRCD
          rcdwrc := cfg.tRCDWR
          rasc := cfg.tRAS
          rcc := cfg.tRC }) := by
  have past := past_append timed .activate j row req
  have bank := timed.bank j
  refine ⟨past, .restart past, timed.ccd.other (by simp [Command.isColumn]), timed.rtw.other (by simp),
    timed.wtr.other (by simp), fun grp => (timed.ccdl grp).other (by simp [Command.isColumn]), ?_, ?_⟩
  · intro i
    by_cases same : i = j
    · subst same
      simp only [DramT.modifyBank, Function.update_self]
      refine ⟨.restart past, .restart past, .restart past, .restart past, bank.rp.other (by simp),
        bank.wtp.other (by simp), fun _ => ⟨_, lastRowCommand_self rfl, rfl, rfl⟩⟩
    · simp only [DramT.modifyBank, Function.update_of_ne same]
      exact (timed.bank i).other (lastRowCommand_other same) (by simp [Ne.symm same]) (by simp) (by simp)
  · apply Along.append timed.legal
    exact ⟨.of_covers (rrdc ▸ timed.rrd) rfl, .of_covers (rcc ▸ bank.rc) rfl, .of_covers
      (rpc ▸ bank.rp) rfl⟩

theorem Timed.precharge (timed : Timed cfg history s) {j row req : Nat} (rasc : (s.bk j).rasc = 0)
    (wtpc : (s.bk j).wtpc = 0) (prio : Nat) :
    Timed cfg (history ++ [⟨s.nCmd, .precharge, j, row, req⟩])
      ({ s with prio }.modifyBank j fun bank => { bank with state := .bankIdle, rpc := cfg.tRP }) := by
  have past := past_append timed .precharge j row req
  have bank := timed.bank j
  refine ⟨past, timed.rrd.other (by simp [Command.isActivate]), timed.ccd.other
    (by simp [Command.isColumn]),
    timed.rtw.other (by simp), timed.wtr.other (by simp),
    fun grp => (timed.ccdl grp).other (by simp [Command.isColumn]), ?_, ?_⟩
  · intro i
    by_cases same : i = j
    · subst same
      simp only [DramT.modifyBank, Function.update_self]
      refine ⟨bank.rcd.other ?_, bank.rcdwr.other ?_, bank.ras.other ?_, bank.rc.other ?_, .restart past,
        bank.wtp.other (by simp), fun active => by cases active⟩
      all_goals simp [Command.isActivate]
    · simp only [DramT.modifyBank, Function.update_of_ne same]
      exact (timed.bank i).other (lastRowCommand_other same) (by simp [Command.isActivate])
        (by simp [Ne.symm same]) (by simp)
  · apply Along.append timed.legal
    exact ⟨.of_covers (rasc ▸ bank.ras) rfl, .of_covers (wtpc ▸ bank.wtp) rfl⟩

theorem mem_of_lastRowCommand {j : Nat} {c : Command} (last : lastRowCommand j history = some c) :
    c ∈ history ∧ c.bank = j := by
  refine ⟨List.mem_reverse.mp (List.mem_of_find?_eq_some last), ?_⟩
  have found := List.find?_some last
  simp only [Bool.and_eq_true, decide_eq_true_eq] at found
  exact found.2

theorem Timed.columnLegal (timed : Timed cfg history s) {j mrq : Nat} {req : DramReq}
    (ready : s.columnReady cfg j req) :
    ColumnLegal cfg history ⟨s.nCmd, .column req.rw, j, req.row, mrq⟩ req.rw := by
  have bank := timed.bank j
  simp only [DramT.columnReady, Bool.and_eq_true, decide_eq_true_eq] at ready
  obtain ⟨⟨⟨⟨⟨ccdc, ccdlc⟩, row⟩, active⟩, _⟩, turn⟩ := ready
  have covered : Covers Command.time (fun e => e.isActivate ∧ e.bank = j)
    (cfg.rowToColumn req.rw) s.nCmd 0 history ∧
      Covers Command.time (·.kind = .column req.rw.opposite)
        (cfg.turnaround req.rw) s.nCmd 0 history := by
    cases rw : req.rw with
    | read =>
        simp only [rw, Bool.and_eq_true, decide_eq_true_eq] at turn
        exact ⟨turn.1 ▸ bank.rcd, turn.2 ▸ timed.wtr⟩
    | write =>
        simp only [rw, Bool.and_eq_true, decide_eq_true_eq] at turn
        exact ⟨turn.1 ▸ bank.rcdwr, turn.2 ▸ timed.rtw⟩
  refine ⟨?_, .of_covers (ccdc ▸ timed.ccd) rfl, .of_covers (ccdlc ▸ timed.ccdl _) rfl,
    .of_covers covered.2 rfl⟩
  obtain ⟨act, last, kind, act_row⟩ := bank.opened active
  obtain ⟨mem, at_bank⟩ := mem_of_lastRowCommand last
  exact ⟨act, last, kind, act_row.trans row, covered.1.elapsed mem ⟨kind, at_bank⟩⟩

theorem startColumn_ccdlc (j grp : Nat) (rw : ReadWrite) :
    ((s.startColumn cfg j rw).bkgrp grp).ccdlc =
      if grp = cfg.getBankgrpNumber j then cfg.tCCDL else (s.bkgrp grp).ccdlc := by
  cases rw with
  | read =>
      simp only [DramT.startColumn, DramT.modifyGrp, DramT.modifyBank]
      by_cases same : grp = cfg.getBankgrpNumber j
      · simp [same]
      · simp [same]
  | write =>
      simp only [DramT.startColumn, DramT.modifyGrp, DramT.modifyBank]
      by_cases same : grp = cfg.getBankgrpNumber j
      · simp [same]
      · simp [same]

theorem Timed.column (timed : Timed cfg history s) (mrq : Nat) {j : Nat} {req : DramReq}
    (ready : s.columnReady cfg j req) :
    Timed cfg (history ++ [⟨s.nCmd, .column req.rw, j, req.row, mrq⟩]) (s.startColumn cfg j req.rw) := by
  have legal : AllLegal cfg (history ++ [⟨s.nCmd, .column req.rw, j, req.row, mrq⟩]) :=
    Along.append timed.legal (timed.columnLegal ready)
  have past := past_append timed (.column req.rw) j req.row mrq
  have group : ∀ grp, Covers Command.time
    (fun e => e.isColumn ∧ cfg.getBankgrpNumber e.bank = grp) cfg.tCCDL
      s.nCmd ((s.startColumn cfg j req.rw).bkgrp grp).ccdlc
      (history ++ [⟨s.nCmd, .column req.rw, j, req.row, mrq⟩]) := by
    intro grp
    rw [startColumn_ccdlc]
    split
    next same => exact .restart past
    next apart => exact (timed.ccdl grp).other (by simp [Ne.symm apart])
  have bank : ∀ i, ¬ (req.rw = .write ∧ j = i) →
      BankTimed cfg s.nCmd (history ++ [⟨s.nCmd, .column req.rw, j, req.row, mrq⟩]) i (s.bk i) := by
    intro i no_write
    exact (timed.bank i).other lastRowCommand_column (by simp [Command.isActivate]) (by simp)
      (by simpa using no_write)
  cases rw : req.rw with
  | read =>
      rw [rw] at legal past group bank
      refine ⟨past, timed.rrd.other (by simp [Command.isActivate]), .restart past, .restart past,
        timed.wtr.other (by simp), group, fun i => ?_, legal⟩
      by_cases same : i = j
      · subst same
        simp only [DramT.startColumn, DramT.modifyGrp, DramT.modifyBank, Function.update_self]
        exact (bank i (by simp)).of_same _ _
      · simp only [DramT.startColumn, DramT.modifyGrp, DramT.modifyBank, Function.update_of_ne same]
        exact bank i (by simp)
  | write =>
      rw [rw] at legal past group bank
      refine ⟨past, timed.rrd.other (by simp [Command.isActivate]), .restart past,
        timed.rtw.other (by simp), .restart past, group, fun i => ?_, legal⟩
      by_cases same : i = j
      · subst same
        have old := timed.bank i
        simp only [DramT.startColumn, DramT.modifyGrp, DramT.modifyBank, Function.update_self]
        refine ⟨old.rcd.other ?_, old.rcdwr.other ?_, old.ras.other ?_, old.rc.other ?_, old.rp.other
          (by simp),
          .restart past, ?_⟩
        · simp [Command.isActivate]
        · simp [Command.isActivate]
        · simp [Command.isActivate]
        · simp [Command.isActivate]
        · rw [lastRowCommand_column]
          exact old.opened
      · simp only [DramT.startColumn, DramT.modifyGrp, DramT.modifyBank, Function.update_of_ne same]
        exact bank i (by simp [Ne.symm same])

theorem Timed.tick (timed : Timed cfg history s) : Timed cfg history
    ({ s with nCmd := s.nCmd + 1 }.decrement cfg) := by
  refine ⟨fun e mem => (timed.past e mem).trans (Nat.le_succ _), timed.rrd.tick, timed.ccd.tick,
    timed.rtw.tick,
    timed.wtr.tick, fun grp => ?_, fun j => ?_, timed.legal⟩
  · simp only [DramT.decrement]
    split
    · exact (timed.ccdl grp).tick
    · exact (timed.ccdl grp).wait
  · have bank := timed.bank j
    simp only [DramT.decrement]
    split
    · exact ⟨bank.rcd.tick, bank.rcdwr.tick, bank.ras.tick, bank.rc.tick, bank.rp.tick, bank.wtp.tick,
        bank.opened⟩
    · exact ⟨bank.rcd.wait, bank.rcdwr.wait, bank.ras.wait, bank.rc.wait, bank.rp.wait, bank.wtp.wait,
        bank.opened⟩

/-! ## The stages of a cycle -/

theorem fifoOp_ok {α : Type} {result : Except FifoFault α} {a : α} : fifoOp result = .ok a ↔
    result = .ok a := by
  cases result with
  | ok b => simp [fifoOp, Except.mapError]
  | error fault => simp [fifoOp, Except.mapError]

theorem SameClock.modifyMrq (same : SameClock s t) (j : Nat) (mrq : Option Nat) :
    SameClock s (t.modifyBank j fun bank => { bank with mrq }) := by
  refine .trans same ⟨rfl, rfl, rfl, rfl, rfl, rfl, fun i => ?_⟩
  by_cases here : i = j
  · subst here
    simp [DramT.modifyBank]
  · simp [DramT.modifyBank, here]

/-- The stage issues no command. -/
def Quiet (stage : Stage DramT DramEvent DramFault) : Prop :=
  ∀ s t shown, stage s = .ok (t, shown) → SameClock s t ∧ commands shown = []

theorem Quiet.andThen {first second : Stage DramT DramEvent DramFault} (one : Quiet first) (two : Quiet second) :
    Quiet (first.andThen second) := by
  intro s u shown ran
  obtain ⟨t, early, late, before, after, rfl⟩ := Stage.andThen_ok.mp ran
  obtain ⟨same, none⟩ := one _ _ _ before
  obtain ⟨same', none'⟩ := two _ _ _ after
  exact ⟨same.trans same', by simp only [commands, List.filterMap_append] at *; simp [none, none']⟩

theorem Quiet.idle : Quiet Stage.idle := by
  intro s t shown ran
  cases ran
  exact ⟨.refl s, rfl⟩

theorem returnData_quiet : Quiet (DramT.returnData cfg) := by
  intro s t shown ran
  unfold DramT.returnData at ran
  split at ran
  · cases ran
    exact ⟨.refl s, rfl⟩
  · obtain ⟨⟨cmd, rwq⟩, _, ran⟩ := bind_ok.mp ran
    cases cmd with
    | none =>
        cases ran
        exact ⟨⟨rfl, rfl, rfl, rfl, rfl, rfl, fun _ => rfl⟩, rfl⟩
    | some cmd =>
        dsimp only at ran
        split at ran
        · split at ran
          · cases ran
            exact ⟨⟨rfl, rfl, rfl, rfl, rfl, rfl, fun _ => rfl⟩, rfl⟩
          · obtain ⟨returnq, _, ran⟩ := bind_ok.mp ran
            cases ran
            exact ⟨⟨rfl, rfl, rfl, rfl, rfl, rfl, fun _ => rfl⟩, rfl⟩
        · cases ran
          exact ⟨⟨rfl, rfl, rfl, rfl, rfl, rfl, fun _ => rfl⟩, rfl⟩

theorem schedulerFifo_quiet : Quiet (DramT.schedulerFifo cfg) := by
  intro s t shown ran
  unfold DramT.schedulerFifo at ran
  split at ran
  · cases ran
    exact ⟨.refl s, rfl⟩
  · split at ran
    · cases ran
    · dsimp only at ran
      split at ran
      · split at ran
        · obtain ⟨⟨mrq, mrqq⟩, _, ran⟩ := bind_ok.mp ran
          cases ran
          refine ⟨SameClock.modifyMrq ?_ _ _, rfl⟩
          exact ⟨rfl, rfl, rfl, rfl, rfl, rfl, fun _ => rfl⟩
        · cases ran
          exact ⟨.refl s, rfl⟩
      · cases ran

theorem drainMrqq_quiet (fuel : Nat) : Quiet (DramT.drainMrqq cfg fuel) := by
  induction fuel with
  | zero => exact .idle
  | succ fuel ih =>
      intro s t shown ran
      rw [DramT.drainMrqq] at ran
      dsimp only at ran
      split at ran
      · cases ran
        exact ⟨.refl s, rfl⟩
      · obtain ⟨⟨req, mrqq⟩, _, ran⟩ := bind_ok.mp ran
        cases req with
        | none => cases ran
        | some req =>
            obtain ⟨sched, _, ran⟩ := bind_ok.mp ran
            obtain ⟨same, none⟩ := ih _ _ _ ran
            refine ⟨SameClock.trans ?_ same, none⟩
            exact ⟨rfl, rfl, rfl, rfl, rfl, rfl, fun _ => rfl⟩

theorem scheduleBank_quiet (banks : List Nat) : Quiet (DramT.scheduleBank cfg banks) := by
  induction banks with
  | nil => exact .idle
  | cons i later ih =>
      intro s t shown ran
      rw [DramT.scheduleBank] at ran
      dsimp only at ran
      split at ran
      · obtain ⟨⟨req, sched⟩, _, ran⟩ := bind_ok.mp ran
        cases req with
        | none =>
            obtain ⟨same, none⟩ := ih _ _ _ ran
            refine ⟨SameClock.trans ?_ same, none⟩
            exact ⟨rfl, rfl, rfl, rfl, rfl, rfl, fun _ => rfl⟩
        | some req =>
            cases ran
            refine ⟨SameClock.modifyMrq ?_ _ _, rfl⟩
            exact ⟨rfl, rfl, rfl, rfl, rfl, rfl, fun _ => rfl⟩
      · exact ih _ _ _ ran

theorem scheduler_quiet : Quiet (DramT.scheduler cfg) := by
  unfold DramT.scheduler
  cases cfg.schedulerType with
  | dramFifo => exact schedulerFifo_quiet
  | dramFrfcfs =>
      intro s t shown ran
      exact (drainMrqq_quiet s.mrqq.length).andThen (scheduleBank_quiet _) s t shown ran

theorem push_quiet {data : MfId} {mf : MemFetch} {row bk : Nat} : Quiet
    (DramT.push cfg data mf row bk) := by
  intro s t shown ran
  unfold DramT.push at ran
  split at ran
  · obtain ⟨index, _, ran⟩ := bind_ok.mp ran
    obtain ⟨mrqq, _, ran⟩ := bind_ok.mp ran
    cases ran
    exact ⟨⟨rfl, rfl, rfl, rfl, rfl, rfl, fun _ => rfl⟩, rfl⟩
  · cases ran

theorem returnQueuePop_quiet : Quiet DramT.returnQueuePop := by
  intro s t shown ran
  obtain ⟨⟨data, returnq⟩, _, ran⟩ := bind_ok.mp ran
  cases ran
  exact ⟨⟨rfl, rfl, rfl, rfl, rfl, rfl, fun _ => rfl⟩, rfl⟩

/-- The timing invariant, of a trace that also shows other events. -/
def TimedTrace (cfg : MemoryConfig) (trace : List DramEvent) (s : DramT) : Prop := Timed cfg
    (commands trace) s

abbrev KeepsTiming (cfg : MemoryConfig) (stage : Stage DramT DramEvent DramFault) : Prop :=
  Stage.Triple (TimedTrace cfg) stage (TimedTrace cfg) fun _ => True

theorem commands_append (trace shown : List DramEvent) : commands
    (trace ++ shown) = commands trace ++ commands shown :=
  List.filterMap_append ..

theorem Quiet.keepsTiming {stage : Stage DramT DramEvent DramFault} (quiet : Quiet stage) :
    KeepsTiming cfg stage := by
  intro trace s timed
  refine ⟨fun t shown ran => ?_, fun _ _ => trivial⟩
  obtain ⟨same, none⟩ := quiet _ _ _ ran
  unfold TimedTrace
  rw [commands_append, none, List.append_nil]
  exact timed.of_same same

theorem SameClock.startColumn (same : SameClock s t) (j : Nat) (rw : ReadWrite) :
    SameClock (s.startColumn cfg j rw) (t.startColumn cfg j rw) := by
  obtain ⟨nCmd, rrdc, ccdc, rtwc, wtrc, bkgrp, bank⟩ := same
  cases rw with
  | read =>
      refine ⟨nCmd, rrdc, rfl, rfl, wtrc, ?_, fun i => ?_⟩
      · simp only [DramT.startColumn, DramT.modifyGrp, DramT.modifyBank, bkgrp]
      · by_cases here : i = j
        · subst here
          simp only [DramT.startColumn, DramT.modifyGrp, DramT.modifyBank, Function.update_self]
          rw [bank i]
        · simp only [DramT.startColumn, DramT.modifyGrp, DramT.modifyBank, Function.update_of_ne here]
          exact bank i
  | write =>
      refine ⟨nCmd, rrdc, rfl, rtwc, rfl, ?_, fun i => ?_⟩
      · simp only [DramT.startColumn, DramT.modifyGrp, DramT.modifyBank, bkgrp]
      · by_cases here : i = j
        · subst here
          simp only [DramT.startColumn, DramT.modifyGrp, DramT.modifyBank, Function.update_self]
          rw [bank i]
        · simp only [DramT.startColumn, DramT.modifyGrp, DramT.modifyBank, Function.update_of_ne here]
          exact bank i

theorem turnBus_same {rw : ReadWrite} (turned : s.turnBus cfg rw = .ok t) : SameClock s t := by
  unfold DramT.turnBus at turned
  split at turned
  · cases turned
    exact .refl s
  · obtain ⟨rwq, _, turned⟩ := bind_ok.mp turned
    cases turned
    exact ⟨rfl, rfl, rfl, rfl, rfl, rfl, fun _ => rfl⟩

theorem transfer_same {j mrq : Nat} (sent : s.transfer cfg j mrq = .ok t) :
    SameClock (s.startColumn cfg j (s.reqs mrq).rw) t := by
  obtain ⟨turned, turn, sent⟩ := bind_ok.mp sent
  obtain ⟨rwq, _, sent⟩ := bind_ok.mp sent
  have same := turnBus_same turn
  cases sent
  apply SameClock.startColumn
  exact ⟨same.nCmd, same.rrdc, same.ccdc, same.rtwc, same.wtrc, same.bkgrp, same.bank⟩

theorem releaseMrq_same (j mrq : Nat) : SameClock s (s.releaseMrq j mrq) := by
  unfold DramT.releaseMrq
  split
  · exact .refl s
  · exact (SameClock.refl s).modifyMrq j none

theorem issueColCommand_keepsTiming (j : Nat) : KeepsTiming cfg (DramT.issueColCommand cfg j) := by
  intro trace s timed
  refine ⟨fun t shown ran => ?_, fun _ _ => trivial⟩
  unfold DramT.issueColCommand at ran
  split at ran
  · cases ran
    simpa [TimedTrace] using timed
  next mrq has =>
    dsimp only at ran
    split at ran
    next ready =>
      obtain ⟨sent, transfer, ran⟩ := bind_ok.mp ran
      cases ran
      have same := (transfer_same transfer).trans (releaseMrq_same j mrq)
      unfold TimedTrace
      rw [commands_append]
      exact (Timed.column timed mrq ready).of_same same
    · cases ran
      simpa [TimedTrace] using timed

theorem issueRowCommand_keepsTiming (j : Nat) : KeepsTiming cfg (DramT.issueRowCommand cfg j) := by
  intro trace s timed
  refine ⟨fun t shown ran => ?_, fun _ _ => trivial⟩
  unfold DramT.issueRowCommand at ran
  dsimp only at ran
  split at ran
  · cases ran
    simpa [TimedTrace] using timed
  next mrq has =>
    unfold TimedTrace at *
    rw [commands_append]
    split at ran
    next idle =>
      cases ran
      exact Timed.activate timed idle.1 idle.2.2.1 idle.2.2.2 _
    · split at ran
      next active =>
        cases ran
        exact Timed.precharge timed active.2.2.1 active.2.2.2.1 _
      · cases ran
        simpa [commands] using timed

theorem unlessIssued_keepsTiming {command : Stage DramT DramEvent DramFault} (keeps : KeepsTiming cfg command)
    (issued : Bool) : KeepsTiming cfg (DramT.unlessIssued issued command) := by
  cases issued with
  | true => exact .idle
  | false => exact keeps

theorem issueFirst_keepsTiming {issue : Nat → Stage DramT DramEvent DramFault} (each : ∀ j, KeepsTiming cfg (issue j))
    (banks : List Nat) : KeepsTiming cfg (DramT.issueFirst cfg issue banks) := by
  induction banks with
  | nil => exact .idle
  | cons i later ih =>
      intro trace s timed
      refine ⟨fun t shown ran => ?_, fun _ _ => trivial⟩
      rw [DramT.issueFirst] at ran
      dsimp only at ran
      split at ran
      · cases ran
      next u first =>
        have kept := ((each _) trace s timed).1 _ _ first
        rw [List.append_nil] at kept
        exact (ih trace u kept).1 _ _ ran
      next issued _ first =>
        cases ran
        exact ((each _) trace s timed).1 _ _ first

theorem issueSingle_keepsTiming (banks : List Nat) (col row : Bool) :
    KeepsTiming cfg (DramT.issueSingle cfg banks col row) := by
  induction banks generalizing col row with
  | nil => exact .idle
  | cons i later ih =>
      intro trace s timed
      refine ⟨fun t shown ran => ?_, fun _ _ => trivial⟩
      rw [DramT.issueSingle] at ran
      dsimp only at ran
      obtain ⟨⟨u, columns⟩, one, ran⟩ := bind_ok.mp ran
      obtain ⟨⟨v, rows⟩, two, ran⟩ := bind_ok.mp ran
      obtain ⟨⟨x, rest⟩, three, ran⟩ := bind_ok.mp ran
      cases ran
      have after_column :=
        (unlessIssued_keepsTiming (issueColCommand_keepsTiming _) _ trace s timed).1 _ _ one
      have after_row :=
        (unlessIssued_keepsTiming (issueRowCommand_keepsTiming _) _ _ _ after_column).1 _ _ two
      simpa using (ih _ _ _ _ after_row).1 _ _ three

theorem issue_keepsTiming : KeepsTiming cfg (DramT.issue cfg) := by
  unfold DramT.issue
  split
  · exact (issueFirst_keepsTiming issueColCommand_keepsTiming _).andThen
      (issueFirst_keepsTiming issueRowCommand_keepsTiming _)
  · exact issueSingle_keepsTiming _ _ _

theorem cycle_keepsTiming : KeepsTiming cfg (DramT.cycle cfg) := by
  apply Stage.Triple.all
  intro stage mem
  simp only [List.mem_cons, List.not_mem_nil, or_false] at mem
  rcases mem with rfl | rfl | rfl | rfl
  · exact returnData_quiet.keepsTiming
  · exact scheduler_quiet.keepsTiming
  · exact issue_keepsTiming
  · intro trace s timed
    refine ⟨fun t shown ran => ?_, fun _ _ => trivial⟩
    cases ran
    simpa [TimedTrace] using Timed.tick timed

/-! ## Every run -/

/-- A step of the controller's surroundings or of the controller itself. -/
inductive DramStep (cfg : MemoryConfig) : DramT → List DramEvent → DramT → Prop
  | push {s t shown} (data : MfId) (mf : MemFetch) (row bk : Nat)
      (ok : s.push cfg data mf row bk = .ok (t, shown)) :
      DramStep cfg s shown t
  | returnQueuePop {s t shown} (ok : s.returnQueuePop = .ok (t, shown)) : DramStep cfg s shown t
  | cycle {s t shown} (ok : s.cycle cfg = .ok (t, shown)) : DramStep cfg s shown t

/-- Every DRAM command of every run keeps the distances that the configuration asks for,
and a column command finds its row open. -/
theorem commands_respect_timing {id : Nat} {start : DramT} (created : DramT.create cfg id = .ok start)
    {trace : List DramEvent} (run : Reaches (DramStep cfg) start trace s) : AllLegal cfg
      (commands trace) := by
  have timed : TimedTrace cfg trace s := by
    apply run.invariant
    · obtain ⟨rwq, _, created⟩ := bind_ok.mp created
      obtain ⟨mrqq, _, created⟩ := bind_ok.mp created
      obtain ⟨returnq, _, created⟩ := bind_ok.mp created
      cases created
      refine ⟨by simp [commands], .nil, .nil, .nil, .nil, fun _ => .nil,
        fun _ => ⟨.nil, .nil, .nil, .nil, .nil, .nil,
        fun active => by cases active⟩, Along.nil⟩
    · intro trace s events t _ timed step
      cases step with
      | push data mf row bk ok => exact (push_quiet.keepsTiming trace s timed).1 _ _ ok
      | returnQueuePop ok => exact (returnQueuePop_quiet.keepsTiming trace s timed).1 _ _ ok
      | cycle ok => exact (cycle_keepsTiming trace s timed).1 _ _ ok
  exact timed.legal

/-- Four banks in two groups, with the given write latency. -/
def smallConfig (wl : Nat) : MemoryConfig where
  nbk := 4
  nbkgrp := 2
  bkTagLength := 1
  tCCD := 1
  tCCDL := 2
  tRRD := 1
  tRCD := 2
  tRCDWR := 1
  tRAS := 3
  tRP := 1
  tRC := 4
  tRTW := 2
  tWTR := 3
  tWTP := 3
  tRTPL := 0
  cl := 2
  wl := wl
  bl := 2
  dataCommandFreqRatio := 2
  dramAtomSize := 32
  schedulerType := .dramFrfcfs
  dramBnkIndexingPolicy := .linearBkIndex
  dramBnkgrpIndexingPolicy := .higherBits
  dualBusInterface := true
  gpgpuFrfcfsDramSchedQueueSize := 4
  gpgpuDramReturnQueueSize := 4
  seperateWriteQueueEnabled := false
  gpgpuFrfcfsDramWriteQueueSize := 4
  writeHighWatermark := 4
  writeLowWatermark := 2

/-- A request of 32 bytes. -/
def smallRequest (accessType : MemAccessType) : MemFetch where
  accessType := accessType
  addr := 0
  dataSize := 32
  subPartitionId := 0
  chip := 0

def cycles (cfg : MemoryConfig) : Nat → Stage DramT DramEvent DramFault
  | 0 => Stage.idle
  | n + 1 => (DramT.cycle cfg).andThen (cycles cfg n)

theorem cycles_reaches {n : Nat} {shown : List DramEvent} (ran : cycles cfg n s = .ok (t, shown)) :
    Reaches (DramStep cfg) s shown t := by
  induction n generalizing s shown with
  | zero =>
      cases ran
      exact .refl
  | succ n ih =>
      obtain ⟨u, early, late, one, more, rfl⟩ := Stage.andThen_ok.mp ran
      exact (Reaches.next .refl (.cycle one)).append (ih more)

/-- One request pushed to a new controller, and some cycles. -/
def pushAndCycle (cfg : MemoryConfig) (accessType : MemAccessType) (n : Nat) : Except DramFault
    (DramT × List DramEvent) := do
  let start ← DramT.create cfg 0
  (DramT.push cfg (.request 0) (smallRequest accessType) 7 1).andThen (cycles cfg n) start

theorem commands_respect_timing_read :
    ∃ start trace s, DramT.create (smallConfig 1) 0 = .ok start ∧ Reaches
      (DramStep (smallConfig 1)) start trace s ∧
      commands trace = [⟨0, .activate, 1, 7, 0⟩, ⟨2, .column .read, 1, 7, 0⟩] ∧
      AllLegal (smallConfig 1) (commands trace) := by
  have shown : (pushAndCycle (smallConfig 1) .globalAccR 3).map (fun ended => commands ended.2) =
      .ok [⟨0, .activate, 1, 7, 0⟩, ⟨2, .column .read, 1, 7, 0⟩] := by decide +kernel
  obtain ⟨⟨s, trace⟩, ran, is_shown⟩ := map_ok.mp shown
  obtain ⟨start, created, ran⟩ := bind_ok.mp ran
  obtain ⟨u, early, late, pushed, cycled, rfl⟩ := Stage.andThen_ok.mp ran
  have run := (Reaches.next .refl (.push _ _ _ _ pushed)).append (cycles_reaches cycled)
  exact ⟨start, _, s, created, run, is_shown, commands_respect_timing created run⟩

end GpgpuSim.Dram
