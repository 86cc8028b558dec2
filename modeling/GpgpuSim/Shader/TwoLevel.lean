import GpgpuSim.Shader.WarpOrder
import GpgpuSim.Transition.Fallible

/-! The two-level scheduler: a bounded list of active warps in round robin order and a queue of pending
ones. Warps that wait are demoted to the queue, and the warps at its front take their places. -/
namespace GpgpuSim.Shader
open Transition

/-- What decides whether a warp is demoted: its own wait, and the inputs of its next instruction. -/
structure WaitStatus (W : Type*) where
  waiting : W → Bool
  nextInstInputs : W → Option (List Nat)
  islongop : W → Nat → Bool

/-- The warp waits, or its next instruction waits on a long operation. -/
def WaitStatus.demotes {W : Type*} (status : WaitStatus W) (warp : W) : Bool :=
  status.waiting warp ||
    match status.nextInstInputs warp with
    | none => false
    | some inputs => inputs.any fun reg => 0 < reg && status.islongop warp reg

/-- `two_level_active_scheduler`. -/
structure TwoLevelScheduler (W : Type*) where
  maxActiveWarps : Nat
  innerLevelPrioritization : SchedulerPrioritization
  outerLevelPrioritization : SchedulerPrioritization
  nextCyclePrioritizedWarps : List W := []
  pendingWarps : List W := []

/-- The calls that change the lists; the iterator of an issue is a position of the active list. -/
inductive TwoLevelCall (W : Type*)
  | addSupervisedWarpId (warp : W)
  | orderWarps (status : WaitStatus W)
  | doOnWarpIssued (warp : W) (iter : Nat)

namespace TwoLevelScheduler

variable {W : Type*}

def addSupervisedWarpId (scheduler : TwoLevelScheduler W) (warp : W) : TwoLevelScheduler W :=
  if scheduler.nextCyclePrioritizedWarps.length < scheduler.maxActiveWarps then
    { scheduler with nextCyclePrioritizedWarps := scheduler.nextCyclePrioritizedWarps ++ [warp] }
  else { scheduler with pendingWarps := scheduler.pendingWarps ++ [warp] }

/-- The loop that promotes; taking from the empty queue is undefined. The last component counts. -/
def promote (maxActiveWarps : Nat) : List W → List W → Except WarpOrderFault (List W × List W × Nat)
  | active, [] => if active.length < maxActiveWarps then throw .undefined else return (active, [], 0)
  | active, warp :: pending =>
      if active.length < maxActiveWarps then do
        let (active, pending, numPromoted) ← promote maxActiveWarps (active ++ [warp]) pending
        return (active, pending, numPromoted + 1)
      else return (active, warp :: pending, 0)

def orderWarps (scheduler : TwoLevelScheduler W) (status : WaitStatus W) :
    Except WarpOrderFault (TwoLevelScheduler W) := do
  let demoted := scheduler.nextCyclePrioritizedWarps.filter status.demotes
  let active := scheduler.nextCyclePrioritizedWarps.filter fun warp => !status.demotes warp
  let pending := scheduler.pendingWarps ++ demoted
  if scheduler.outerLevelPrioritization = .srr then
    let (active, pending, numPromoted) ← promote scheduler.maxActiveWarps active pending
    unless numPromoted = demoted.length do throw .assertion
    return { scheduler with nextCyclePrioritizedWarps := active, pendingWarps := pending }
  else throw .unimplemented

def doOnWarpIssued (scheduler : TwoLevelScheduler W) (iter : Nat) : Except WarpOrderFault (TwoLevelScheduler W) := do
  if scheduler.innerLevelPrioritization = .lrr then
    let newActive ← orderLrr scheduler.nextCyclePrioritizedWarps iter scheduler.nextCyclePrioritizedWarps.length
    return { scheduler with nextCyclePrioritizedWarps := newActive }
  else throw .unimplemented

def perform (scheduler : TwoLevelScheduler W) : TwoLevelCall W → Except WarpOrderFault (TwoLevelScheduler W)
  | .addSupervisedWarpId warp => return scheduler.addSupervisedWarpId warp
  | .orderWarps status => scheduler.orderWarps status
  | .doOnWarpIssued _ iter => scheduler.doOnWarpIssued iter

/-- What `cycle` does when the warp at this position issues so many instructions: the iterator stays. -/
def cycleIssue (scheduler : TwoLevelScheduler W) (iter : Nat) : Nat → Except WarpOrderFault (TwoLevelScheduler W)
  | 0 => return scheduler
  | numIssued + 1 => do (← scheduler.doOnWarpIssued iter).cycleIssue iter numIssued

end TwoLevelScheduler

/-! ## Runs -/

section
variable {W : Type*} {scheduler scheduler' : TwoLevelScheduler W} {added : List W}

def TwoLevelCall.warps : TwoLevelCall W → List W
  | addSupervisedWarpId warp => [warp]
  | _ => []

/-- The iterator of an issue can be dereferenced. -/
def TwoLevelCall.Valid (scheduler : TwoLevelScheduler W) : TwoLevelCall W → Prop
  | doOnWarpIssued _ iter => iter < scheduler.nextCyclePrioritizedWarps.length
  | _ => True

/-- The code has the prioritization that the call is for, and does not abort. -/
def TwoLevelCall.Implemented (scheduler : TwoLevelScheduler W) : TwoLevelCall W → Prop
  | addSupervisedWarpId _ => True
  | orderWarps _ => scheduler.outerLevelPrioritization = .srr
  | doOnWarpIssued _ _ => scheduler.innerLevelPrioritization = .lrr

/-- The order is asked for only with enough warps to fill the active list, and the iterator of an issue
points at the warp that issued. -/
def TwoLevelCall.Admissible (scheduler : TwoLevelScheduler W) : TwoLevelCall W → Prop
  | addSupervisedWarpId _ => True
  | orderWarps _ =>
      scheduler.maxActiveWarps ≤ scheduler.nextCyclePrioritizedWarps.length + scheduler.pendingWarps.length
  | doOnWarpIssued warp iter => scheduler.nextCyclePrioritizedWarps[iter]? = some warp

/-- The call goes through, and a warp that issued is last afterwards. -/
def TwoLevelCall.Served (scheduler : TwoLevelScheduler W) (call : TwoLevelCall W) : Prop :=
  ∃ scheduler', scheduler.perform call = .ok scheduler' ∧
    ∀ warp iter, call = .doOnWarpIssued warp iter → scheduler'.nextCyclePrioritizedWarps.getLast? = some warp

/-- The states that admissible calls lead to, with the warps added on the way. -/
inductive TwoLevelReached (start : TwoLevelScheduler W) : List W → TwoLevelScheduler W → Prop
  | start : TwoLevelReached start [] start
  | step {before : List W} {old new : TwoLevelScheduler W} (call : TwoLevelCall W) : TwoLevelReached start before old →
      call.Admissible old → old.perform call = .ok new → TwoLevelReached start (before ++ call.warps) new

/-- The two lists hold the added warps, and the active one as many of them as it may. -/
structure Balanced (added : List W) (scheduler : TwoLevelScheduler W) : Prop where
  perm : (scheduler.nextCyclePrioritizedWarps ++ scheduler.pendingWarps).Perm added
  active : scheduler.nextCyclePrioritizedWarps.length = min scheduler.maxActiveWarps added.length

theorem Balanced.total (balanced : Balanced added scheduler) :
    scheduler.nextCyclePrioritizedWarps.length + scheduler.pendingWarps.length = added.length := by
  rw [← List.length_append, balanced.perm.length_eq]

theorem Balanced.addSupervisedWarpId (balanced : Balanced added scheduler) (warp : W) :
    Balanced (added ++ [warp]) (scheduler.addSupervisedWarpId warp) := by
  have total := balanced.total
  have active := balanced.active
  rw [TwoLevelScheduler.addSupervisedWarpId]
  split
  next room =>
    refine ⟨?_, ?_⟩
    · have swapped : ([warp] ++ scheduler.pendingWarps).Perm (scheduler.pendingWarps ++ [warp]) := List.perm_append_comm
      have behind := swapped.append_left scheduler.nextCyclePrioritizedWarps
      rw [← List.append_assoc, ← List.append_assoc] at behind
      exact behind.trans (balanced.perm.append_right _)
    · simp only [List.length_append, List.length_singleton]
      omega
  next full =>
    refine ⟨?_, ?_⟩
    · dsimp only
      rw [← List.append_assoc]
      exact balanced.perm.append_right _
    · dsimp only
      rw [List.length_append, List.length_singleton]
      omega

/-- With enough warps in the queue the active list is filled from its front. -/
theorem promote_ok (maxActiveWarps : Nat) (active pending : List W) (room : active.length ≤ maxActiveWarps)
    (enough : maxActiveWarps ≤ active.length + pending.length) :
    TwoLevelScheduler.promote maxActiveWarps active pending =
      .ok (active ++ pending.take (maxActiveWarps - active.length), pending.drop (maxActiveWarps - active.length),
        maxActiveWarps - active.length) := by
  induction pending generalizing active with
  | nil =>
      have full : ¬ active.length < maxActiveWarps := by simpa using enough
      rw [TwoLevelScheduler.promote, if_neg full, Nat.sub_eq_zero_of_le (Nat.not_lt.mp full)]
      simp [pure, Except.pure]
  | cons warp pending ih =>
      rw [TwoLevelScheduler.promote]
      by_cases less : active.length < maxActiveWarps
      · have one : maxActiveWarps - active.length = maxActiveWarps - (active ++ [warp]).length + 1 := by
          rw [List.length_append, List.length_singleton]
          omega
        rw [if_pos less, ih _ (by simp; omega) (by simp at enough ⊢; omega), one, List.take_succ_cons,
          List.drop_succ_cons,
          List.append_assoc, List.singleton_append]
        rfl
      · rw [if_neg less, Nat.sub_eq_zero_of_le (Nat.not_lt.mp less)]
        simp [pure, Except.pure]

theorem promote_undefined (maxActiveWarps : Nat) (active pending : List W)
    (few : active.length + pending.length < maxActiveWarps) :
    TwoLevelScheduler.promote maxActiveWarps active pending = .error .undefined := by
  induction pending generalizing active with
  | nil =>
      rw [TwoLevelScheduler.promote, if_pos (by simpa using few)]
      rfl
  | cons warp pending ih =>
      rw [TwoLevelScheduler.promote, if_pos (by simp at few; omega), ih _ (by simp at few ⊢; omega)]
      rfl

/-- Demotion and the queue behind it keep every warp. -/
theorem demoted_perm (demotes : W → Bool) (active pending : List W) :
    (active.filter (fun warp => !demotes warp) ++ (pending ++ active.filter demotes)).Perm (active ++ pending) := by
  have parts := List.filter_append_perm demotes active
  have swapped : (pending ++ active.filter demotes).Perm (active.filter demotes ++ pending) := List.perm_append_comm
  have behind := swapped.append_left (active.filter fun warp => !demotes warp)
  rw [← List.append_assoc, ← List.append_assoc] at behind
  rw [← List.append_assoc]
  exact behind.trans ((List.perm_append_comm.trans parts).append_right pending)

/-- With enough warps as many are promoted as were demoted. -/
theorem Balanced.orderWarps (balanced : Balanced added scheduler) (strict : scheduler.outerLevelPrioritization = .srr)
    (enough : scheduler.maxActiveWarps ≤ added.length) (status : WaitStatus W) :
    ∃ new, scheduler.orderWarps status = .ok new ∧ Balanced added new := by
  have total := balanced.total
  have active := balanced.active
  have perm := demoted_perm status.demotes scheduler.nextCyclePrioritizedWarps scheduler.pendingWarps
  have parts := perm.length_eq
  simp only [List.length_append] at parts
  have promoted := promote_ok scheduler.maxActiveWarps
    (scheduler.nextCyclePrioritizedWarps.filter fun warp => !status.demotes warp)
    (scheduler.pendingWarps ++ scheduler.nextCyclePrioritizedWarps.filter status.demotes)
    (by omega) (by rw [List.length_append]; omega)
  have count : scheduler.maxActiveWarps -
      (scheduler.nextCyclePrioritizedWarps.filter fun warp => !status.demotes warp).length =
      (scheduler.nextCyclePrioritizedWarps.filter status.demotes).length := by omega
  rw [TwoLevelScheduler.orderWarps, if_pos strict]
  simp only [promoted, bind, Except.bind, if_pos count]
  refine ⟨_, rfl, ⟨?_, ?_⟩⟩
  · dsimp only
    rw [List.append_assoc, List.take_append_drop]
    exact perm.trans balanced.perm
  · simp only [List.length_append, List.length_take]
    omega

theorem Balanced.orderWarps_undefined (balanced : Balanced added scheduler)
    (strict : scheduler.outerLevelPrioritization = .srr) (few : added.length < scheduler.maxActiveWarps)
    (status : WaitStatus W) : scheduler.orderWarps status = .error .undefined := by
  have total := balanced.total
  have parts := (demoted_perm status.demotes scheduler.nextCyclePrioritizedWarps scheduler.pendingWarps).length_eq
  simp only [List.length_append] at parts
  have undefined := promote_undefined scheduler.maxActiveWarps
    (scheduler.nextCyclePrioritizedWarps.filter fun warp => !status.demotes warp)
    (scheduler.pendingWarps ++ scheduler.nextCyclePrioritizedWarps.filter status.demotes)
    (by rw [List.length_append]; omega)
  rw [TwoLevelScheduler.orderWarps, if_pos strict]
  simp only [undefined, bind, Except.bind]

/-- The warp under the iterator goes to the end of the round. -/
theorem Balanced.doOnWarpIssued (balanced : Balanced added scheduler)
    (robin : scheduler.innerLevelPrioritization = .lrr) {iter : Nat}
    (inside : iter < scheduler.nextCyclePrioritizedWarps.length) :
    ∃ new, scheduler.doOnWarpIssued iter = .ok new ∧ Balanced added new ∧
      new.nextCyclePrioritizedWarps.getLast? = some scheduler.nextCyclePrioritizedWarps[iter] := by
  have after : lrrStart scheduler.nextCyclePrioritizedWarps iter = iter + 1 := if_neg inside.ne
  have turned : (scheduler.nextCyclePrioritizedWarps.rotate (iter + 1)).Perm scheduler.nextCyclePrioritizedWarps :=
    List.rotate_perm _ _
  have ordered := orderLrr_ok (le_refl scheduler.nextCyclePrioritizedWarps.length) inside.le
  rw [after, List.take_of_length_le turned.length_eq.le] at ordered
  rw [TwoLevelScheduler.doOnWarpIssued, if_pos robin]
  simp only [ordered, bind, Except.bind]
  refine ⟨_, rfl, ⟨(turned.append_right _).trans balanced.perm, turned.length_eq.trans balanced.active⟩, ?_⟩
  dsimp only
  rw [List.rotate_eq_drop_append_take (Nat.succ_le_of_lt inside), List.take_succ_eq_append_getElem inside,
    ← List.append_assoc, List.getLast?_concat]

/-- No call changes the configuration. -/
structure SameConfig (old new : TwoLevelScheduler W) : Prop where
  maxActiveWarps : new.maxActiveWarps = old.maxActiveWarps
  inner : new.innerLevelPrioritization = old.innerLevelPrioritization
  outer : new.outerLevelPrioritization = old.outerLevelPrioritization

theorem perform_config {call : TwoLevelCall W} {new : TwoLevelScheduler W} (ok : scheduler.perform call = .ok new) :
    SameConfig scheduler new := by
  cases call with
  | addSupervisedWarpId warp =>
      obtain rfl : scheduler.addSupervisedWarpId warp = new := Except.ok.inj ok
      rw [TwoLevelScheduler.addSupervisedWarpId]
      split <;> exact ⟨rfl, rfl, rfl⟩
  | orderWarps status =>
      rw [TwoLevelScheduler.perform, TwoLevelScheduler.orderWarps] at ok
      split at ok
      · obtain ⟨⟨active, pending, numPromoted⟩, -, rest⟩ := bind_ok.mp ok
        dsimp only at rest
        split at rest
        · obtain rfl := Except.ok.inj rest
          exact ⟨rfl, rfl, rfl⟩
        · cases rest
      · cases ok
  | doOnWarpIssued warp iter =>
      rw [TwoLevelScheduler.perform, TwoLevelScheduler.doOnWarpIssued] at ok
      split at ok
      · obtain ⟨newActive, -, made⟩ := bind_ok.mp ok
        obtain rfl := Except.ok.inj made
        exact ⟨rfl, rfl, rfl⟩
      · cases ok

theorem perform_unimplemented {call : TwoLevelCall W} (missing : ¬ call.Implemented scheduler) :
    scheduler.perform call = .error .unimplemented := by
  cases call with
  | addSupervisedWarpId warp => exact absurd trivial missing
  | orderWarps status => exact if_neg missing
  | doOnWarpIssued warp iter => exact if_neg missing

/-- A call is served exactly when it is admissible. -/
theorem Balanced.served_iff (balanced : Balanced added scheduler) {call : TwoLevelCall W}
    (implemented : call.Implemented scheduler) (valid : call.Valid scheduler) :
    call.Served scheduler ↔ call.Admissible scheduler := by
  cases call with
  | addSupervisedWarpId warp =>
      exact ⟨fun _ => trivial, fun _ => ⟨_, rfl, fun _ _ same => by cases same⟩⟩
  | orderWarps status =>
      rw [TwoLevelCall.Admissible, balanced.total]
      constructor
      · rintro ⟨new, ok, -⟩
        by_contra few
        have undefined := balanced.orderWarps_undefined implemented (Nat.not_le.mp few) status
        cases undefined.symm.trans ok
      · intro enough
        obtain ⟨new, ok, -⟩ := balanced.orderWarps implemented enough status
        exact ⟨new, ok, fun _ _ same => by cases same⟩
  | doOnWarpIssued warp iter =>
      have inside : iter < scheduler.nextCyclePrioritizedWarps.length := valid
      obtain ⟨new, ok, -, last⟩ := balanced.doOnWarpIssued implemented inside
      rw [TwoLevelCall.Admissible, List.getElem?_eq_getElem inside, ← last]
      constructor
      · rintro ⟨new', ok', served⟩
        obtain rfl := Except.ok.inj (ok.symm.trans ok')
        exact served warp iter rfl
      · intro issued
        refine ⟨new, ok, fun warp' iter' same => ?_⟩
        cases same
        exact issued

theorem Balanced.perform (balanced : Balanced added scheduler) {call : TwoLevelCall W} {new : TwoLevelScheduler W}
    (admissible : call.Admissible scheduler) (ok : scheduler.perform call = .ok new) :
    Balanced (added ++ call.warps) new := by
  cases call with
  | addSupervisedWarpId warp =>
      obtain rfl := Except.ok.inj ok
      exact balanced.addSupervisedWarpId warp
  | orderWarps status =>
      by_cases strict : scheduler.outerLevelPrioritization = .srr
      · obtain ⟨made, ok', balanced'⟩ := balanced.orderWarps strict (balanced.total ▸ admissible) status
        obtain rfl := Except.ok.inj (ok'.symm.trans ok)
        exact (List.append_nil added).symm ▸ balanced'
      · rw [TwoLevelScheduler.perform, TwoLevelScheduler.orderWarps, if_neg strict] at ok
        cases ok
  | doOnWarpIssued warp iter =>
      by_cases robin : scheduler.innerLevelPrioritization = .lrr
      · have inside := (List.getElem?_eq_some_iff.mp admissible).1
        obtain ⟨made, ok', balanced', -⟩ := balanced.doOnWarpIssued robin inside
        obtain rfl := Except.ok.inj (ok'.symm.trans ok)
        exact (List.append_nil added).symm ▸ balanced'
      · rw [TwoLevelScheduler.perform, TwoLevelScheduler.doOnWarpIssued, if_neg robin] at ok
        cases ok

theorem TwoLevelReached.balanced {maxActiveWarps : Nat} {inner outer : SchedulerPrioritization}
    (reached : TwoLevelReached ⟨maxActiveWarps, inner, outer, [], []⟩ added scheduler) :
    Balanced added scheduler ∧ SameConfig ⟨maxActiveWarps, inner, outer, [], []⟩ scheduler := by
  induction reached with
  | start => exact ⟨⟨.refl _, by simp⟩, ⟨rfl, rfl, rfl⟩⟩
  | step call _ admissible ok ih =>
      have same := perform_config ok
      exact ⟨ih.1.perform admissible ok, same.maxActiveWarps.trans ih.2.maxActiveWarps, same.inner.trans ih.2.inner,
        same.outer.trans ih.2.outer⟩

/-- In every run of admissible calls the two lists hold each supervised warp as often as it was added, the
active one is within its bound, and the next call, if the code has its prioritization, is served exactly
when it is admissible too. -/
theorem two_level_balanced {maxActiveWarps : Nat} {inner outer : SchedulerPrioritization}
    (reached : TwoLevelReached ⟨maxActiveWarps, inner, outer, [], []⟩ added scheduler) :
    (scheduler.nextCyclePrioritizedWarps ++ scheduler.pendingWarps).Perm added ∧
      scheduler.nextCyclePrioritizedWarps.length ≤ maxActiveWarps ∧
      ∀ call : TwoLevelCall W, call.Valid scheduler →
        (call.Implemented scheduler → (call.Served scheduler ↔ call.Admissible scheduler)) ∧
          (¬ call.Implemented scheduler → scheduler.perform call = .error .unimplemented) := by
  obtain ⟨balanced, same⟩ := reached.balanced
  refine ⟨balanced.perm, ?_, fun call valid => ?_⟩
  · have bounded := balanced.active
    rw [same.maxActiveWarps] at bounded
    exact bounded.trans_le (min_le_left _ _)
  · exact ⟨fun implemented => balanced.served_iff implemented valid, perform_unimplemented⟩

end

/-- Three warps and room for two: the first one waits and is demoted, and the second one issues. -/
theorem two_level_balanced_three : ∃ scheduler : TwoLevelScheduler Nat,
    TwoLevelReached ⟨2, .lrr, .srr, [], []⟩ [0, 1, 2] scheduler ∧
      scheduler.nextCyclePrioritizedWarps = [2, 1] ∧ scheduler.pendingWarps = [0] ∧
      (scheduler.nextCyclePrioritizedWarps ++ scheduler.pendingWarps).Perm [0, 1, 2] ∧
      ∀ call : TwoLevelCall Nat, call.Valid scheduler → call.Implemented scheduler →
        (call.Served scheduler ↔ call.Admissible scheduler) := by
  have added : TwoLevelReached (⟨2, .lrr, .srr, [], []⟩ : TwoLevelScheduler Nat) [0, 1, 2]
    ⟨2, .lrr, .srr, [0, 1], [2]⟩ :=
    .step (.addSupervisedWarpId 2) (.step (.addSupervisedWarpId 1) (.step (.addSupervisedWarpId 0) .start trivial rfl)
      trivial rfl) trivial rfl
  have ordered : TwoLevelReached (⟨2, .lrr, .srr, [], []⟩ : TwoLevelScheduler Nat) [0, 1, 2]
    ⟨2, .lrr, .srr, [1, 2], [0]⟩ :=
    .step (.orderWarps ⟨fun warp => warp == 0, fun _ => none, fun _ _ => false⟩) added (by decide : 2 ≤ 3) rfl
  have issued : TwoLevelReached (⟨2, .lrr, .srr, [], []⟩ : TwoLevelScheduler Nat) [0, 1, 2]
    ⟨2, .lrr, .srr, [2, 1], [0]⟩ :=
    .step (.doOnWarpIssued 1 0) ordered rfl rfl
  obtain ⟨perm, -, served⟩ := two_level_balanced issued
  exact ⟨_, issued, rfl, rfl, perm, fun call valid => (served call valid).1⟩

/-- With one warp and room for two, the empty queue is read. When the first of three warps issues two
instructions in one cycle, the iterator points at the second one the second time, and that one is last. -/
theorem two_level_unbalanced :
    ((TwoLevelScheduler.addSupervisedWarpId ⟨2, .lrr, .srr, [], []⟩ 0).orderWarps
      ⟨fun _ => false, fun _ => none, fun _ _ => false⟩).map TwoLevelScheduler.pendingWarps = .error .undefined ∧
      (TwoLevelScheduler.cycleIssue ⟨3, .lrr, .srr, [0, 1, 2], []⟩ 0 2).map
        TwoLevelScheduler.nextCyclePrioritizedWarps = .ok [2, 0, 1] := by
  exact ⟨by decide, by decide⟩

end GpgpuSim.Shader
