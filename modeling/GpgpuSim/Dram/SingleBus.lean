import GpgpuSim.Containers.Rotation
import GpgpuSim.Dram.Timing

/-! The issue phase of a controller with one bus. The scan over the banks starts at the priority, and a row command
moves the priority while the scan goes on. -/
namespace GpgpuSim.Dram
open Containers Transition

namespace DramT

/-- A column command can be issued to the bank. -/
def canColumn (cfg : MemoryConfig) (j : Nat) (s : DramT) : Bool :=
  match (s.bk j).mrq with
  | none => false
  | some mrq => s.columnReady cfg j (s.reqs mrq)

/-- An activate or a precharge can be issued to the bank. -/
def canRow (cfg : MemoryConfig) (j : Nat) (s : DramT) : Bool :=
  match (s.bk j).mrq with
  | none => false
  | some mrq =>
      decide (s.rrdc = 0 ∧ (s.bk j).state = .bankIdle ∧ (s.bk j).rpc = 0 ∧ (s.bk j).rcc = 0) ||
        decide ((s.bk j).currRow ≠ (s.reqs mrq).row ∧ (s.bk j).state = .bankActive ∧ (s.bk j).rasc = 0 ∧
          (s.bk j).wtpc = 0 ∧ (s.bk j).rtpc = 0 ∧ (s.bkgrp (cfg.getBankgrpNumber j)).rtplc = 0)

/-- The banks `j` of the loop of the single bus, in the order in which it comes to them. -/
def considered (cfg : MemoryConfig) : List Nat → (col row : Bool) → DramT → List Nat
  | [], _, _, _ => []
  | i :: later, col, row, s =>
      let j := (i + s.prio) % cfg.nbk
      match unlessIssued col (issueColCommand cfg j) s with
      | .error _ => [j]
      | .ok (t, columns) =>
          let col := col || !columns.isEmpty
          match unlessIssued (col || row) (issueRowCommand cfg j) t with
          | .error _ => [j]
          | .ok (u, rows) => j :: considered cfg later col (row || !rows.isEmpty) u

end DramT

variable {cfg : MemoryConfig} {s t : DramT} {shown : List DramEvent} {i j : Nat} {banks later : List Nat}

/-! ## One bank -/

theorem issueCol_refused (refused : s.canColumn cfg j = false) : DramT.issueColCommand cfg j s = .ok (s, []) := by
  unfold DramT.canColumn at refused
  unfold DramT.issueColCommand
  split
  · rfl
  next mrq serves =>
    simp only [serves] at refused
    simp only [refused, Bool.false_eq_true, if_false]

theorem prio_startColumn (rw : ReadWrite) : (s.startColumn cfg j rw).prio = s.prio := by
  cases rw <;> rfl

theorem prio_transfer {mrq : Nat} (sent : s.transfer cfg j mrq = .ok t) : t.prio = s.prio := by
  obtain ⟨u, turned, sent⟩ := bind_ok.mp sent
  obtain ⟨rwq, _, sent⟩ := bind_ok.mp sent
  cases sent
  have same : u.prio = s.prio := by
    unfold DramT.turnBus at turned
    split at turned
    · cases turned
      rfl
    · obtain ⟨_, _, turned⟩ := bind_ok.mp turned
      cases turned
      rfl
  rw [prio_startColumn]
  exact same

theorem issueCol_issued (can : s.canColumn cfg j = true) (issued : DramT.issueColCommand cfg j s = .ok (t, shown)) :
    (∃ c, shown = [.command c]) ∧ t.prio = s.prio := by
  unfold DramT.canColumn at can
  unfold DramT.issueColCommand at issued
  split at issued
  next idle => simp [idle] at can
  next mrq serves =>
    simp only [serves] at can
    simp only [can, if_true] at issued
    obtain ⟨u, sent, ended⟩ := bind_ok.mp issued
    cases ended
    refine ⟨⟨_, rfl⟩, ?_⟩
    rw [← prio_transfer sent]
    unfold DramT.releaseMrq
    split <;> rfl

theorem issueRow_refused (refused : s.canRow cfg j = false) : DramT.issueRowCommand cfg j s = .ok (s, []) := by
  unfold DramT.canRow at refused
  unfold DramT.issueRowCommand
  dsimp only
  split
  · rfl
  next mrq serves =>
    simp only [serves, Bool.or_eq_false_iff, decide_eq_false_iff_not] at refused
    rw [if_neg refused.1, if_neg refused.2]

theorem issueRow_issued (can : s.canRow cfg j = true) : ∃ t c, DramT.issueRowCommand cfg j s = .ok (t, [.command c]) ∧
    t.prio = (j + 1) % cfg.nbk := by
  unfold DramT.canRow at can
  unfold DramT.issueRowCommand
  dsimp only
  split
  next idle => simp [idle] at can
  next mrq serves =>
    simp only [serves, Bool.or_eq_true, decide_eq_true_eq] at can
    split
    · exact ⟨_, _, rfl, rfl⟩
    next busy =>
      rw [if_pos (can.resolve_left busy)]
      exact ⟨_, _, rfl, rfl⟩

/-! ## The scan -/

/-- The bank that the scan comes to from a priority. -/
def bankAt (cfg : MemoryConfig) (prio i : Nat) : Nat := (i + prio) % cfg.nbk

/-- One turn of the loop, and the rest of it. -/
theorem issueSingle_cons {col row : Bool} (ran : DramT.issueSingle cfg (i :: later) col row s = .ok (t, shown)) :
    ∃ u v columns rows rest,
      DramT.unlessIssued col (DramT.issueColCommand cfg (bankAt cfg s.prio i)) s = .ok (u, columns) ∧
      DramT.unlessIssued (col || !columns.isEmpty || row) (DramT.issueRowCommand cfg (bankAt cfg s.prio i)) u =
        .ok (v, rows) ∧
      DramT.issueSingle cfg later (col || !columns.isEmpty) (row || !rows.isEmpty) v = .ok (t, rest) ∧
      shown = columns ++ rows ++ rest ∧
      s.considered cfg (i :: later) col row = bankAt cfg s.prio i ::
        v.considered cfg later (col || !columns.isEmpty) (row || !rows.isEmpty) := by
  obtain ⟨⟨u, columns⟩, one, ran⟩ := bind_ok.mp ran
  obtain ⟨⟨v, rows⟩, two, ran⟩ := bind_ok.mp ran
  obtain ⟨⟨w, rest⟩, three, ran⟩ := bind_ok.mp ran
  cases ran
  refine ⟨u, v, columns, rows, rest, one, two, three, rfl, ?_⟩
  simp only [DramT.considered, one, two]
  rfl

/-- After a column command nothing more is tried. -/
theorem scan_after_column {row : Bool} (ran : DramT.issueSingle cfg banks true row s = .ok (t, shown)) :
    shown = [] ∧ s.considered cfg banks true row = banks.map (bankAt cfg s.prio) := by
  induction banks generalizing s row shown with
  | nil =>
      cases ran
      exact ⟨rfl, rfl⟩
  | cons i later ih =>
      obtain ⟨u, v, columns, rows, rest, one, two, three, rfl, visits⟩ := issueSingle_cons ran
      cases one
      cases two
      obtain ⟨rfl, others⟩ := ih three
      exact ⟨rfl, visits.trans (congrArg _ others)⟩

/-- After a row command the scan goes on from the priority that it has set. -/
theorem scan_after_row (ran : DramT.issueSingle cfg banks false true s = .ok (t, shown)) :
    s.considered cfg banks false true = banks.map (bankAt cfg s.prio) := by
  induction banks generalizing s shown with
  | nil => rfl
  | cons i later ih =>
      obtain ⟨u, v, columns, rows, rest, one, two, three, -, visits⟩ := issueSingle_cons ran
      rw [visits, List.map_cons]
      refine congrArg _ ?_
      rw [Bool.or_true] at two
      cases two
      cases can : s.canColumn cfg (bankAt cfg s.prio i) with
      | false =>
          cases (issueCol_refused can).symm.trans one
          exact ih three
      | true =>
          obtain ⟨⟨c, rfl⟩, prio⟩ := issueCol_issued can one
          rw [← prio]
          exact (scan_after_column three).2

/-- Nothing can be issued to the bank. -/
def Idle (cfg : MemoryConfig) (s : DramT) (j : Nat) : Prop := s.canColumn cfg j = false ∧ s.canRow cfg j = false

/-- What the scan makes of the first bank that a command can be issued to. -/
inductive Scanned (cfg : MemoryConfig) (s : DramT) (banks : List Nat) (shown : List DramEvent)
    (visited : List Nat) : Prop
  | nothing (idle : ∀ i ∈ banks, Idle cfg s (bankAt cfg s.prio i)) (none : shown = [])
      (visits : visited = banks.map (bankAt cfg s.prio))
  | column (before : List Nat) (i : Nat) (later : List Nat) (split : banks = before ++ i :: later)
      (idle : ∀ i ∈ before, Idle cfg s (bankAt cfg s.prio i)) (can : s.canColumn cfg (bankAt cfg s.prio i) = true)
      (command : Command) (one : shown = [.command command]) (visits : visited = banks.map (bankAt cfg s.prio))
  | row (before : List Nat) (i : Nat) (later : List Nat) (split : banks = before ++ i :: later)
      (idle : ∀ i ∈ before, Idle cfg s (bankAt cfg s.prio i)) (cannot : s.canColumn cfg (bankAt cfg s.prio i) = false)
      (can : s.canRow cfg (bankAt cfg s.prio i) = true) (command : Command) (rest : List DramEvent)
      (some_command : shown = .command command :: rest) (last : later = [] → rest = [])
      (visits : visited = (before ++ [i]).map (bankAt cfg s.prio) ++
        later.map (bankAt cfg ((bankAt cfg s.prio i + 1) % cfg.nbk)))

theorem scan (ran : DramT.issueSingle cfg banks false false s = .ok (t, shown)) :
    Scanned cfg s banks shown (s.considered cfg banks false false) := by
  induction banks generalizing shown with
  | nil =>
      cases ran
      exact .nothing (by simp) rfl rfl
  | cons i later ih =>
      obtain ⟨u, v, columns, rows, rest, one, two, three, rfl, visits⟩ := issueSingle_cons ran
      rw [visits]
      cases column : s.canColumn cfg (bankAt cfg s.prio i) with
      | true =>
          obtain ⟨⟨c, rfl⟩, prio⟩ := issueCol_issued column one
          cases two
          obtain ⟨rfl, others⟩ := scan_after_column three
          refine .column [] i later rfl (by simp) column c rfl ?_
          rw [List.map_cons, ← prio]
          exact congrArg _ others
      | false =>
          cases (issueCol_refused column).symm.trans one
          cases row : s.canRow cfg (bankAt cfg s.prio i) with
          | true =>
              obtain ⟨w, c, issued, prio⟩ := issueRow_issued row
              cases issued.symm.trans two
              refine .row [] i later rfl (by simp) column row c rest rfl ?_ ?_
              · rintro rfl
                cases three
                rfl
              · rw [← prio]
                exact congrArg _ (scan_after_row three)
          | false =>
              cases (issueRow_refused row).symm.trans two
              have idle : Idle cfg s (bankAt cfg s.prio i) := ⟨column, row⟩
              cases ih three with
              | nothing idles none others =>
                  refine .nothing (by simpa using ⟨idle, idles⟩) none ?_
                  exact congrArg _ others
              | column before k after split idles can c one others =>
                  refine .column (i :: before) k after (congrArg _ split) (by simpa using ⟨idle, idles⟩) can c one ?_
                  exact congrArg _ others
              | row before k after split idles cannot can c rest some_command last others =>
                  refine .row (i :: before) k after (congrArg _ split) (by simpa using ⟨idle, idles⟩) cannot can c rest
                    some_command last ?_
                  exact congrArg _ others

/-- An index of a range stands where it says. -/
theorem range_split {n : Nat} {before : List Nat} (split : List.range n = before ++ i :: later) :
    before = List.range i ∧ i < n ∧ (later = [] ↔ i + 1 = n) ∧ ∀ k ∈ later, i < k ∧ k < n := by
  have length := congrArg List.length split
  rw [List.length_range, List.length_append, List.length_cons] at length
  have at_before : i = before.length := by
    have here := congrArg (fun l => l[before.length]?) split
    simpa [show before.length < n by omega] using here.symm
  have sorted : (before ++ i :: later).Pairwise (· < ·) := split ▸ List.pairwise_lt_range
  refine ⟨?_, by omega, ?_, fun k member => ⟨?_, ?_⟩⟩
  · have front := congrArg (List.take i) split
    rw [List.take_range, Nat.min_eq_left (by omega), at_before, List.take_left] at front
    rw [at_before]
    exact front.symm
  · rw [← List.length_eq_zero_iff]
    omega
  · exact List.rel_of_pairwise_cons (List.pairwise_append.mp sorted).2.1 member
  · exact List.mem_range.mp (split ▸ List.mem_append_right _ (List.mem_cons_of_mem _ member))

/-- One command at most, every bank met once, and none only where none can be issued. -/
structure IssuesOnce (cfg : MemoryConfig) (s : DramT) (shown : List DramEvent) : Prop where
  one : (commands shown).length ≤ 1
  scan : (s.considered cfg (List.range cfg.nbk) false false).Perm (List.range cfg.nbk)
  idle : commands shown = [] → ∀ j < cfg.nbk, Idle cfg s j

/-- The first bank that a command can be issued to takes a column command, or is the last one of the scan. -/
def RowsLast (cfg : MemoryConfig) (s : DramT) : Prop :=
  ∀ i < cfg.nbk, (∀ k < i, Idle cfg s (bankAt cfg s.prio k)) → s.canColumn cfg (bankAt cfg s.prio i) = false →
    s.canRow cfg (bankAt cfg s.prio i) = true → i + 1 = cfg.nbk

theorem perm_bankAt (prio : Nat) : ((List.range cfg.nbk).map (bankAt cfg prio)).Perm (List.range cfg.nbk) :=
  (List.perm_ext_iff_of_nodup nodup_rotation List.nodup_range).mpr fun _ => mem_rotation.trans List.mem_range.symm

theorem exists_bankAt (prio : Nat) (inside : j < cfg.nbk) : ∃ i < cfg.nbk, bankAt cfg prio i = j := by
  obtain ⟨i, member, here⟩ := List.mem_map.mp ((perm_bankAt prio).mem_iff.mpr (List.mem_range.mpr inside))
  exact ⟨i, List.mem_range.mp member, here⟩

/-- The bank after that of a row command is not met again. -/
theorem missed_bank {prio n k : Nat} (size : cfg.nbk = n) (inside : i + 1 < n)
    (met : k ≤ i ∧ bankAt cfg prio k = bankAt cfg prio (i + 1) ∨
      i < k ∧ k < n ∧ bankAt cfg ((bankAt cfg prio i + 1) % n) k = bankAt cfg prio (i + 1)) : False := by
  simp only [bankAt, size] at met
  rcases met with ⟨before, same⟩ | ⟨after, small, same⟩
  · have congruent : k ≡ i + 1 [MOD n] := Nat.ModEq.add_right_cancel' prio same
    have := congruent.eq_of_lt_of_lt (by omega) inside
    omega
  · have unwound : (k + ((i + prio) % n + 1)) % n = (k + (i + 1 + prio)) % n := by
      rw [show k + ((i + prio) % n + 1) = (i + prio) % n + (k + 1) by omega, Nat.mod_add_mod]
      congr 1
      omega
    rw [Nat.add_mod_mod, unwound] at same
    have congruent : k + (i + 1 + prio) ≡ 0 + (i + 1 + prio) [MOD n] := same.trans (by rw [Nat.zero_add])
    have := (Nat.ModEq.add_right_cancel' _ congruent).eq_of_lt_of_lt small (by omega)
    omega

/-- The first bank that is not idle is the only first. -/
theorem first_busy {before : List Nat} {k : Nat} (split : List.range cfg.nbk = before ++ i :: later)
    (idle : ∀ i ∈ before, Idle cfg s (bankAt cfg s.prio i)) (busy : ¬ Idle cfg s (bankAt cfg s.prio i))
    (idle' : ∀ i < k, Idle cfg s (bankAt cfg s.prio i)) (busy' : ¬ Idle cfg s (bankAt cfg s.prio k)) : k = i := by
  obtain ⟨rfl, -⟩ := range_split split
  rcases Nat.lt_trichotomy k i with lower | same | higher
  · exact absurd (idle k (List.mem_range.mpr lower)) busy'
  · exact same
  · exact absurd (idle' i higher) busy

theorem issueSingle_once_iff (ran : DramT.issueSingle cfg (List.range cfg.nbk) false false s = .ok (t, shown)) :
    IssuesOnce cfg s shown ↔ RowsLast cfg s := by
  cases scan ran with
  | nothing idle none visits =>
      have all : ∀ j < cfg.nbk, Idle cfg s j := by
        intro j inside
        obtain ⟨i, below, rfl⟩ := exists_bankAt s.prio inside
        exact idle i (List.mem_range.mpr below)
      refine iff_of_true ⟨by simp [none, commands], visits ▸ perm_bankAt s.prio, fun _ => all⟩
        fun i inside _ _ can => ?_
      rw [(idle i (List.mem_range.mpr inside)).2] at can
      contradiction
  | column before i later split idle can c one visits =>
      have busy : ¬ Idle cfg s (bankAt cfg s.prio i) := fun none => by
        rw [none.1] at can
        contradiction
      refine iff_of_true ⟨by simp [one, commands], visits ▸ perm_bankAt s.prio, fun none => ?_⟩
        fun k inside idle' cannot row => ?_
      · rw [one] at none
        contradiction
      · have same := first_busy split idle busy idle' fun none => by
          rw [none.2] at row
          contradiction
        rw [same, can] at cannot
        contradiction
  | row before i later split idle cannot can c rest some_command last visits =>
      have busy : ¬ Idle cfg s (bankAt cfg s.prio i) := fun none => by
        rw [none.2] at can
        contradiction
      obtain ⟨front, inside, final, beyond⟩ := range_split split
      constructor
      · intro once k inside' idle' cannot' row
        have same := first_busy split idle busy idle' fun none => by
          rw [none.2] at row
          contradiction
        rw [same]
        by_contra more
        have missing : bankAt cfg s.prio (i + 1) ∈ s.considered cfg (List.range cfg.nbk) false false :=
          once.scan.mem_iff.mpr (List.mem_range.mpr (Nat.mod_lt _ (by omega)))
        rw [visits, List.mem_append, List.mem_map, List.mem_map] at missing
        rcases missing with ⟨k, member, here⟩ | ⟨k, member, here⟩
        · refine missed_bank rfl (by omega) (.inl ⟨?_, here⟩)
          rw [front, ← List.range_succ, List.mem_range] at member
          omega
        · exact missed_bank rfl (by omega) (.inr ⟨(beyond k member).1, (beyond k member).2, here⟩)
      · intro rows
        have end_of_scan := rows i inside (fun k below => idle k (front ▸ List.mem_range.mpr below)) cannot can
        have none : later = [] := final.mpr end_of_scan
        refine ⟨?_, ?_, fun nothing => ?_⟩
        · rw [some_command, last none]
          simp [commands]
        · rw [visits, none, List.map_nil, List.append_nil, front, ← List.range_succ, Nat.succ_eq_add_one, end_of_scan]
          exact perm_bankAt s.prio
        · rw [some_command] at nothing
          contradiction

/-! ## Runs -/

/-- What the cycle does before it issues commands. -/
def beforeIssue (cfg : MemoryConfig) : Stage DramT DramEvent DramFault :=
  (DramT.returnData cfg).andThen (DramT.scheduler cfg)

theorem cycle_once_iff (single : cfg.dualBusInterface = false) (cycled : s.cycle cfg = .ok (t, shown)) :
    ∃ u early, beforeIssue cfg s = .ok (u, early) ∧ (IssuesOnce cfg u shown ↔ RowsLast cfg u) := by
  obtain ⟨r, first, _, returned, scheduling, rfl⟩ := Stage.andThen_ok.mp cycled
  obtain ⟨u, second, _, scheduled, issuing, rfl⟩ := Stage.andThen_ok.mp scheduling
  obtain ⟨v, third, _, issued, ticking, rfl⟩ := Stage.andThen_ok.mp issuing
  obtain ⟨w, _, _, ticked, ended, rfl⟩ := Stage.andThen_ok.mp ticking
  cases ticked
  cases ended
  refine ⟨u, _, Stage.andThen_ok.mpr ⟨r, first, second, returned, scheduled, rfl⟩, ?_⟩
  have quiet : commands (first ++ (second ++ (third ++ ([] ++ [])))) = commands third := by
    rw [commands_append, commands_append, commands_append, (returnData_quiet _ _ _ returned).2,
      (scheduler_quiet _ _ _ scheduled).2]
    simp [commands]
  rw [DramT.issue, single] at issued
  rw [← issueSingle_once_iff issued]
  constructor
  · exact fun once => ⟨quiet ▸ once.one, once.scan, quiet ▸ once.idle⟩
  · exact fun once => ⟨quiet ▸ once.one, once.scan, quiet ▸ once.idle⟩

/-- In every run, a cycle of a controller with one bus issues at most one command, meets every bank once and idles only
where nothing can be issued, exactly when no row command comes first before the end of the scan. -/
theorem single_bus_once_iff {id : Nat} {start : DramT} (single : cfg.dualBusInterface = false)
    (_created : DramT.create cfg id = .ok start) :
    ∀ trace s, Reaches (DramStep cfg) start trace s → ∀ t shown, s.cycle cfg = .ok (t, shown) →
      ∃ u early, beforeIssue cfg s = .ok (u, early) ∧ (IssuesOnce cfg u shown ↔ RowsLast cfg u) :=
  fun _ _ _ _ _ cycled => cycle_once_iff single cycled

/-- Four banks in two groups, with one bus. -/
def singleBus : MemoryConfig := { smallConfig 1 with dualBusInterface := false }

/-- A request to bank 1 and two cycles, and another request to bank 3. -/
def twoRequests : Except DramFault (DramT × DramT) := do
  let start ← DramT.create singleBus 0
  let (s, _) ← start.push singleBus (.request 0) (smallRequest .globalAccR) 7 1
  let (s, _) ← cycles singleBus 2 s
  let (s, _) ← s.push singleBus (.request 1) (smallRequest .globalAccR) 7 3
  return (start, s)

theorem twoRequests_run {start : DramT} (ran : twoRequests = .ok (start, s)) :
    DramT.create singleBus 0 = .ok start ∧ ∃ trace, Reaches (DramStep singleBus) start trace s := by
  obtain ⟨begun, created, ran⟩ := bind_ok.mp ran
  obtain ⟨⟨a, _⟩, pushed, ran⟩ := bind_ok.mp ran
  obtain ⟨⟨b, _⟩, cycled, ran⟩ := bind_ok.mp ran
  obtain ⟨⟨c, _⟩, again, ran⟩ := bind_ok.mp ran
  cases ran
  exact ⟨created, _, ((Reaches.next .refl (.push _ _ _ _ pushed)).append (cycles_reaches cycled)).append
    (Reaches.next .refl (.push _ _ _ _ again))⟩

theorem single_bus_once_iff_two : ∃ s t shown u early, s.cycle singleBus = .ok (t, shown) ∧
    beforeIssue singleBus s = .ok (u, early) ∧ (IssuesOnce singleBus u shown ↔ RowsLast singleBus u) := by
  have ran : (twoRequests.bind fun ended => (ended.2.cycle singleBus).map fun later => (commands later.2).length) =
      .ok 2 := by decide +kernel
  obtain ⟨⟨start, s⟩, pushed, later⟩ := bind_ok.mp ran
  obtain ⟨⟨t, shown⟩, cycled, -⟩ := map_ok.mp later
  obtain ⟨created, trace, run⟩ := twoRequests_run pushed
  obtain ⟨u, early, before, iff⟩ := single_bus_once_iff rfl created trace s run t shown cycled
  exact ⟨s, t, shown, u, early, cycled, before, iff⟩

/-- An activate and a column command in one cycle of a controller with one bus. -/
theorem single_bus_issues_two : ∃ start trace s t shown, DramT.create singleBus 0 = .ok start ∧
    Reaches (DramStep singleBus) start trace s ∧ s.cycle singleBus = .ok (t, shown) ∧
    (commands shown).map (fun c => (c.kind, c.bank)) = [(.activate, 3), (.column .read, 1)] := by
  have ran : (twoRequests.bind fun ended => (ended.2.cycle singleBus).map fun later =>
      (commands later.2).map fun c => (c.kind, c.bank)) = .ok [(.activate, 3), (.column .read, 1)] := by decide +kernel
  obtain ⟨⟨start, s⟩, pushed, later⟩ := bind_ok.mp ran
  obtain ⟨⟨t, shown⟩, cycled, values⟩ := map_ok.mp later
  obtain ⟨created, trace, run⟩ := twoRequests_run pushed
  exact ⟨start, trace, s, t, shown, created, run, cycled, values⟩

end GpgpuSim.Dram
