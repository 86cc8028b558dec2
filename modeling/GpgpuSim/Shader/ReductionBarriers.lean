import GpgpuSim.Shader.BarrierRuns
import GpgpuSim.Transition.Fallible
import Mathlib.Data.List.Nodup

/-! The result of a reduction barrier: every warp keeps a copy of its last barrier instruction, and the
core calls the threads of these copies back when the barrier is released by an arrival. -/
namespace GpgpuSim.Shader

/-- A warp's copy of a barrier instruction: the lanes that executed it, and those with a thread to call back. -/
structure InstAtBarrier where
  inst : BarrierInst
  activeMask : Finset Nat
  callbacks : Finset Nat

/-- What a barrier reads and writes of the core. -/
structure BarrierCore where
  maxWarpsPerShader : Nat
  warpSize : Nat
  barriers : BarrierSet
  instAtBarrier : Nat → InstAtBarrier

namespace InstAtBarrier

/-- `warp_inst_t::broadcast_barrier_reduction`: the lanes whose callback is called. -/
def broadcastBarrierReduction (issued : InstAtBarrier) (warpSize : Nat) (accessMask : Finset Nat) : List Nat :=
  (List.range warpSize).filter fun lane => lane ∈ accessMask ∧ lane ∈ issued.callbacks

end InstAtBarrier

namespace BarrierCore

/-- The threads called back, as warp and lane, in the order of the calls. -/
def broadcastBarrierReduction (core : BarrierCore) (warps : Finset Nat) : List (Nat × Nat) :=
  ((List.range core.maxWarpsPerShader).filter (· ∈ warps)).flatMap fun warpId =>
    let issued := core.instAtBarrier warpId
    (issued.broadcastBarrierReduction core.warpSize issued.activeMask).map fun lane => (warpId, lane)

/-- The part of `issue_warp` about a barrier: the copy is stored before the warp reaches the barrier. -/
def issueBarrier (core : BarrierCore) (ctaId warpId : Nat) (issued : InstAtBarrier) :
    Except BarrierFault (BarrierCore × List BarrierEvent) := do
  let core := { core with instAtBarrier := Function.update core.instAtBarrier warpId issued }
  let (barriers, events) ← core.barriers.warpReachesBarrier ctaId warpId issued.inst
  return ({ core with barriers }, events)

/-- The threads that the broadcasts among these events call back. -/
def results (core : BarrierCore) (events : List BarrierEvent) : List (Nat × Nat) :=
  events.flatMap fun
    | .broadcast _ _ warps => core.broadcastBarrierReduction warps
    | _ => []

end BarrierCore

inductive BarrierCall
  | allocate (ctaId : Nat) (warps : Finset Nat)
  | issue (ctaId warpId : Nat) (issued : InstAtBarrier)
  | exit (warpId : Nat)
  | deallocate (ctaId : Nat)

def BarrierCore.perform (core : BarrierCore) : BarrierCall → Except BarrierFault (BarrierCore × List BarrierEvent)
  | .allocate ctaId warps => do
      let (barriers, events) ← core.barriers.allocateBarrier ctaId warps
      return ({ core with barriers }, events)
  | .issue ctaId warpId issued => core.issueBarrier ctaId warpId issued
  | .exit warpId => do
      let (barriers, events) ← core.barriers.warpExit warpId
      return ({ core with barriers }, events)
  | .deallocate ctaId => do
      let barriers ← core.barriers.deallocateBarrier ctaId
      return ({ core with barriers }, [])

namespace BarrierCall

/-- The calls that the core makes, where `barId` is used for reductions: CTAs get warps of their own, and the
warps that reach a barrier of the whole CTA or exit are active and do not wait. -/
def Valid (barId : Nat) (core : BarrierCore) : BarrierCall → Prop
  | allocate _ warps => (∀ c taken, core.barriers.ctaToWarps c = some taken → Disjoint taken warps) ∧
      ∀ v ∈ warps, v < core.maxWarpsPerShader
  | issue _ warpId issued =>
      (issued.inst.barType = .sync ∨ issued.inst.barType = .red) ∧ issued.inst.barCount = unset ∧
        warpId ∈ core.barriers.warpActive ∧ core.barriers.warpWaitingAtBarrier warpId = false ∧
        (issued.inst.barId = barId → issued.inst.barType = .red)
  | exit warpId => warpId ∈ core.barriers.warpActive ∧ core.barriers.warpWaitingAtBarrier warpId = false
  | deallocate _ => True

/-- No warp exits that is the last one missing at the reduction barrier. -/
def Meets (barId : Nat) (core : BarrierCore) : BarrierCall → Prop
  | exit warpId => ∀ ctaId warps, core.barriers.ctaToWarps ctaId = some warps → warpId ∈ warps →
      barId < core.barriers.maxBarriersPerCta → (warps ∩ core.barriers.warpActive.erase warpId).Nonempty →
      warps ∩ core.barriers.barIdToWarps barId ≠ warps ∩ core.barriers.warpActive.erase warpId
  | _ => True

end BarrierCall

def BarrierEvent.IsBroadcast : BarrierEvent → Bool
  | .broadcast _ _ _ => true
  | _ => false

/-- Warps released from the barrier are told in the same step, once and nobody else: each of their threads
that takes part in the reduction is called back once. -/
def Informs (barId : Nat) (core : BarrierCore) (events : List BarrierEvent) : Prop :=
  ∀ warps, .released barId warps ∈ events → warps.Nonempty →
    (∃ ctaId, events.filter BarrierEvent.IsBroadcast = [.broadcast ctaId barId warps]) ∧
    (∀ w ∈ warps, (core.instAtBarrier w).inst.barId = barId ∧ (core.instAtBarrier w).inst.barType = .red) ∧
    ∀ w lane, (core.results events).count (w, lane) =
      if w ∈ warps ∧ lane < core.warpSize ∧ lane ∈ (core.instAtBarrier w).activeMask ∧
        lane ∈ (core.instAtBarrier w).callbacks then 1 else 0

/-- The states that such calls lead to, when no exit releases the reduction barrier. -/
inductive ReductionRun (barId : Nat) (start : BarrierCore) : BarrierCore → Prop
  | start : ReductionRun barId start start
  | step {core next : BarrierCore} {events : List BarrierEvent} (call : BarrierCall) : ReductionRun barId start core →
      call.Valid barId core → call.Meets barId core → core.perform call = .ok (next, events) →
      ReductionRun barId start next

/-! ## The warps that wait -/

/-- A warp waits at the barrier of its copy, and at the reduction barrier with a reduction. -/
structure WaitingTogether (barId : Nat) (core : BarrierCore) : Prop where
  small : ∀ c warps, core.barriers.ctaToWarps c = some warps → ∀ v ∈ warps, v < core.maxWarpsPerShader
  apart : ∀ c d warps others, core.barriers.ctaToWarps c = some warps → core.barriers.ctaToWarps d = some others →
    c ≠ d → Disjoint warps others
  owned : ∀ v ∈ core.barriers.warpActive, ∃ c warps, core.barriers.ctaToWarps c = some warps ∧ v ∈ warps
  awake : ∀ v ∈ core.barriers.warpAtBarrier, v ∈ core.barriers.warpActive
  held : ∀ b, ∀ v ∈ core.barriers.barIdToWarps b, v ∈ core.barriers.warpAtBarrier
  stored : ∀ b, ∀ v ∈ core.barriers.barIdToWarps b, (core.instAtBarrier v).inst.barId = b
  red : ∀ v ∈ core.barriers.barIdToWarps barId, (core.instAtBarrier v).inst.barType = .red

namespace WaitingTogether
open BarrierSet

variable {barId ctaId warpId i : Nat} {core : BarrierCore} {warps released : Finset Nat} {issued : InstAtBarrier}

theorem release (waiting : WaitingTogether barId core) (there : released ⊆ core.barriers.barIdToWarps i) :
    WaitingTogether barId { core with barriers := core.barriers.release i released } where
  small := waiting.small
  apart := waiting.apart
  owned := waiting.owned
  awake v waits := waiting.awake v (Finset.mem_sdiff.mp waits).1
  held b v member := by
    obtain ⟨old, kept⟩ := mem_release_bar.mp member
    refine Finset.mem_sdiff.mpr ⟨waiting.held b v old, fun freed => kept ⟨?_, freed⟩⟩
    exact (waiting.stored b v old).symm.trans (waiting.stored i v (there freed))
  stored b v member := waiting.stored b v (mem_release_bar.mp member).1
  red v member := waiting.red v (mem_release_bar.mp member).1

theorem sweep (warps active : Finset Nat) (ids : List Nat) (waiting : WaitingTogether barId core) :
    WaitingTogether barId { core with barriers := (sweep warps active ids core.barriers).1 } := by
  induction ids generalizing core with
  | nil => exact waiting
  | cons i rest ih =>
      rw [BarrierSet.sweep]
      split
      · exact ih (waiting.release Finset.inter_subset_right)
      · exact ih waiting

theorem arrive (waiting : WaitingTogether barId core)
    (blocks : issued.inst.barType = .sync ∨ issued.inst.barType = .red)
    (active : warpId ∈ core.barriers.warpActive) (ready : warpId ∉ core.barriers.warpAtBarrier)
    (red : issued.inst.barId = barId → issued.inst.barType = .red) :
    WaitingTogether barId { core with
      instAtBarrier := Function.update core.instAtBarrier warpId issued
      barriers := core.barriers.arrive warpId issued.inst } := by
  have now : (core.barriers.arrive warpId issued.inst).warpAtBarrier = insert warpId core.barriers.warpAtBarrier :=
    if_pos blocks
  have elsewhere : ∀ b, ∀ v ∈ core.barriers.barIdToWarps b, v ≠ warpId := by
    rintro b v member rfl
    exact ready (waiting.held b v member)
  refine ⟨waiting.small, waiting.apart, waiting.owned, ?awake, ?held, ?stored, ?red⟩
  case awake =>
    intro v waits
    rcases Finset.mem_insert.mp (now ▸ waits) with rfl | old
    exacts [active, waiting.awake v old]
  case held =>
    intro b v member
    rw [now]
    rcases mem_arrive_bar.mp member with old | ⟨-, rfl⟩
    exacts [Finset.mem_insert_of_mem (waiting.held b v old), Finset.mem_insert_self ..]
  case stored =>
    intro b v member
    dsimp only
    rcases mem_arrive_bar.mp member with old | ⟨rfl, rfl⟩
    · rw [Function.update_of_ne (elsewhere b v old)]
      exact waiting.stored b v old
    · rw [Function.update_self]
  case red =>
    intro v member
    dsimp only
    rcases mem_arrive_bar.mp member with old | ⟨same, rfl⟩
    · rw [Function.update_of_ne (elsewhere barId v old)]
      exact waiting.red v old
    · rw [Function.update_self]
      exact red same.symm

theorem allocate {next : BarrierSet} {events : List BarrierEvent} (waiting : WaitingTogether barId core)
    (free : ∀ c taken, core.barriers.ctaToWarps c = some taken → Disjoint taken warps)
    (small : ∀ v ∈ warps, v < core.maxWarpsPerShader)
    (done : core.barriers.allocateBarrier ctaId warps = .ok (next, events)) :
    WaitingTogether barId { core with barriers := next } := by
  obtain ⟨-, allocated⟩ := allocateBarrier_ok done
  have fresh : ∀ v ∈ warps, v ∉ core.barriers.warpActive := fun v inside active => by
    obtain ⟨c, taken, resident, member⟩ := waiting.owned v active
    exact Finset.disjoint_left.mp (free c taken resident) member inside
  obtain ⟨same, bars⟩ := allocated.same waiting.held waiting.awake fresh
  have ctas := allocated.ctas
  have split : ∀ c taken, next.ctaToWarps c = some taken →
      (c = ctaId ∧ taken = warps) ∨ (c ≠ ctaId ∧ core.barriers.ctaToWarps c = some taken) := by
    intro c taken resident
    rw [ctas] at resident
    by_cases here : c = ctaId
    · subst here
      rw [Function.update_self] at resident
      exact .inl ⟨rfl, (Option.some.inj resident).symm⟩
    · rw [Function.update_of_ne here] at resident
      exact .inr ⟨here, resident⟩
  refine ⟨?small, ?apart, ?owned, ?awake, ?held, ?stored, ?red⟩
  case small =>
    intro c taken resident
    rcases split c taken resident with ⟨rfl, rfl⟩ | ⟨-, old⟩
    exacts [small, waiting.small c taken old]
  case apart =>
    intro c d taken others left right different
    rcases split c taken left with ⟨rfl, rfl⟩ | ⟨-, old⟩
    · rcases split d others right with ⟨rfl, rfl⟩ | ⟨-, old⟩
      exacts [absurd rfl different, (free d others old).symm]
    · rcases split d others right with ⟨rfl, rfl⟩ | ⟨-, old'⟩
      exacts [free c taken old, waiting.apart c d taken others old old' different]
  case owned =>
    intro v running
    dsimp only at running ⊢
    rw [allocated.active] at running
    rw [ctas]
    rcases Finset.mem_union.mp running with old | new
    · obtain ⟨c, taken, resident, member⟩ := waiting.owned v old
      refine ⟨c, taken, (Function.update_of_ne ?_ ..).trans resident, member⟩
      rintro rfl
      rw [allocated.vacant] at resident
      cases resident
    · exact ⟨ctaId, warps, Function.update_self .., new⟩
  case awake =>
    intro v waits
    dsimp only at waits ⊢
    rw [allocated.active]
    exact Finset.mem_union_left _ (waiting.awake v (same ▸ waits))
  case held => exact fun b v member => same ▸ waiting.held b v (bars ▸ member)
  case stored => exact fun b v member => waiting.stored b v (bars ▸ member)
  case red => exact fun v member => waiting.red v (bars ▸ member)

theorem deallocate {next : BarrierSet} (waiting : WaitingTogether barId core)
    (done : core.barriers.deallocateBarrier ctaId = .ok next) :
    WaitingTogether barId { core with barriers := next } := by
  obtain ⟨fewer, kept, active, same, bars, -⟩ := deallocateBarrier_ok waiting.held waiting.awake done
  refine ⟨?small, ?apart, ?owned, ?awake, ?held, ?stored, ?red⟩
  case small => exact fun c taken resident => waiting.small c taken (fewer c taken resident)
  case apart => exact fun c d taken others left right =>
    waiting.apart c d taken others (fewer c taken left) (fewer d others right)
  case owned =>
    intro v running
    dsimp only at running
    rw [active] at running
    obtain ⟨c, taken, resident, member⟩ := waiting.owned v running
    exact ⟨c, taken, kept c taken resident ⟨v, Finset.mem_inter.mpr ⟨member, running⟩⟩, member⟩
  case awake => exact fun v waits => active ▸ waiting.awake v (same ▸ waits)
  case held => exact fun b v member => same ▸ waiting.held b v (bars ▸ member)
  case stored => exact fun b v member => waiting.stored b v (bars ▸ member)
  case red => exact fun v member => waiting.red v (bars ▸ member)

theorem leave (waiting : WaitingTogether barId core) (ready : warpId ∉ core.barriers.warpAtBarrier) :
    WaitingTogether barId { core with barriers := core.barriers.leave warpId } :=
  { waiting with
    owned := fun v active => waiting.owned v (Finset.mem_of_mem_erase active)
    awake := fun v waits => Finset.mem_erase.mpr ⟨fun same => ready (same ▸ waits), waiting.awake v waits⟩ }

/-- An exit sweeps the barriers of the one CTA that the warp belongs to. -/
theorem exit_ok {next : BarrierSet} {events : List BarrierEvent} (waiting : WaitingTogether barId core)
    (active : warpId ∈ core.barriers.warpActive) (done : core.barriers.warpExit warpId = .ok (next, events)) :
    ∃ ctaId warps, core.barriers.ctaToWarps ctaId = some warps ∧ warpId ∈ warps ∧
      BarrierSet.sweep warps (warps ∩ core.barriers.warpActive.erase warpId)
        (List.range core.barriers.maxBarriersPerCta) (core.barriers.leave warpId) = (next, events) := by
  obtain ⟨ctaId, warps, resident, member⟩ := waiting.owned warpId active
  exact ⟨ctaId, warps, resident, member, warpExit_ok waiting.apart resident member done⟩

end WaitingTogether

/-! ## Runs -/

section
open BarrierSet Transition

variable {barId warpId : Nat} {core next : BarrierCore} {events : List BarrierEvent} {call : BarrierCall}
  {warps active : Finset Nat} {ids : List Nat} {set : BarrierSet}

/-- A sweep tells nobody. -/
theorem sweep_silent (warps active : Finset Nat) (ids : List Nat) (set : BarrierSet) :
    (sweep warps active ids set).2.filter BarrierEvent.IsBroadcast = [] := by
  induction ids generalizing set with
  | nil => rfl
  | cons i rest ih =>
      rw [sweep]
      split
      · exact ih _
      · exact ih _

/-- A sweep releases the barriers at which just these warps wait. -/
theorem released_sweep (barId : Nat) (warps active released : Finset Nat) (set : BarrierSet) (distinct : ids.Nodup) :
    .released barId released ∈ (sweep warps active ids set).2 ↔
      barId ∈ ids ∧ released = active ∧ warps ∩ set.barIdToWarps barId = active := by
  induction ids generalizing set with
  | nil => simp [sweep]
  | cons i rest ih =>
      obtain ⟨first, distinct⟩ := List.nodup_cons.mp distinct
      rw [sweep]
      split
      next full =>
        rw [List.mem_cons, ih _ distinct, List.mem_cons]
        by_cases here : barId = i
        · subst here
          simp [first, full]
        · have same : (set.release i (warps ∩ set.barIdToWarps i)).barIdToWarps barId = set.barIdToWarps barId :=
            Function.update_of_ne here ..
          simp [here, same]
      next partly =>
        rw [ih _ distinct, List.mem_cons]
        by_cases here : barId = i
        · subst here
          simp [first, partly]
        · simp [here]

/-- Each thread that takes part is called back once. -/
theorem count_broadcast {w lane : Nat} (small : ∀ v ∈ warps, v < core.maxWarpsPerShader) :
    (core.broadcastBarrierReduction warps).count (w, lane) =
      if w ∈ warps ∧ lane < core.warpSize ∧ lane ∈ (core.instAtBarrier w).activeMask ∧
        lane ∈ (core.instAtBarrier w).callbacks then 1 else 0 := by
  have distinct : (core.broadcastBarrierReduction warps).Nodup := by
    refine List.nodup_flatMap.mpr ⟨fun v _ => ?_, ?_⟩
    · exact (List.nodup_range.filter _).map fun _ _ same => (Prod.mk.inj same).2
    · refine (List.nodup_range.filter _).imp fun {v w} different => ?_
      apply List.disjoint_left.mpr
      intro thread left right
      obtain ⟨_, -, rfl⟩ := List.mem_map.mp left
      obtain ⟨_, -, same⟩ := List.mem_map.mp right
      exact different (Prod.mk.inj same).1.symm
  have member : (w, lane) ∈ core.broadcastBarrierReduction warps ↔
      w ∈ warps ∧ lane < core.warpSize ∧ lane ∈ (core.instAtBarrier w).activeMask ∧
        lane ∈ (core.instAtBarrier w).callbacks := by
    simp only [BarrierCore.broadcastBarrierReduction, InstAtBarrier.broadcastBarrierReduction, List.mem_flatMap,
      List.mem_filter, List.mem_range, List.mem_map, decide_eq_true_eq, Prod.mk.injEq]
    constructor
    · rintro ⟨v, ⟨-, inside⟩, lane', taken, rfl, rfl⟩
      exact ⟨inside, taken⟩
    · rintro ⟨inside, taken⟩
      exact ⟨w, ⟨small w inside, inside⟩, lane, taken, rfl, rfl⟩
  rw [distinct.count]
  exact if_congr member rfl rfl

/-- A release that is broadcast at once informs the warps. -/
theorem informs_broadcast {ctaId : Nat}
    (stored : ∀ w ∈ warps, (core.instAtBarrier w).inst.barId = barId ∧ (core.instAtBarrier w).inst.barType = .red)
    (small : ∀ v ∈ warps, v < core.maxWarpsPerShader) :
    Informs barId core [.arrived warpId barId, .released barId warps, .broadcast ctaId barId warps] := by
  intro released member _
  obtain rfl : released = warps := by simpa using member
  refine ⟨⟨ctaId, rfl⟩, stored, fun w lane => ?_⟩
  have told : core.results [.arrived warpId barId, .released barId released, .broadcast ctaId barId released] =
      core.broadcastBarrierReduction released := by simp [BarrierCore.results]
  rw [told, count_broadcast small]

theorem informs_of_silent (silent : ∀ released, .released barId released ∉ events) : Informs barId core events :=
  fun released member => absurd member (silent released)

theorem WaitingTogether.perform (waiting : WaitingTogether barId core) (valid : call.Valid barId core)
    (done : core.perform call = .ok (next, events)) : WaitingTogether barId next := by
  cases call with
  | allocate ctaId warps =>
      obtain ⟨⟨set, events'⟩, ok, made⟩ := bind_ok.mp done
      cases made
      exact waiting.allocate valid.1 valid.2 ok
  | issue ctaId warpId issued =>
      obtain ⟨blocks, whole, active, ready, red⟩ := valid
      obtain ⟨⟨set, events'⟩, ok, made⟩ := bind_ok.mp done
      cases made
      have arrived := waiting.arrive blocks active (of_decide_eq_false ready) red
      obtain ⟨warps, -, -, ⟨-, rfl, -⟩ | ⟨-, rfl, -⟩⟩ := warpReachesBarrier_ok ok whole
      · exact arrived.release Finset.inter_subset_right
      · exact arrived
  | exit warpId =>
      obtain ⟨⟨set, events'⟩, ok, made⟩ := bind_ok.mp done
      cases made
      obtain ⟨ctaId, warps, -, -, swept⟩ := waiting.exit_ok valid.1 ok
      have left := (waiting.leave (of_decide_eq_false valid.2)).sweep warps
        (warps ∩ core.barriers.warpActive.erase warpId) (List.range core.barriers.maxBarriersPerCta)
      rwa [swept] at left
  | deallocate ctaId =>
      obtain ⟨set, ok, made⟩ := bind_ok.mp done
      cases made
      exact waiting.deallocate ok

/-- A step keeps the warps informed exactly when it meets the condition. -/
theorem WaitingTogether.informs_iff (waiting : WaitingTogether barId core) (valid : call.Valid barId core)
    (done : core.perform call = .ok (next, events)) : Informs barId next events ↔ call.Meets barId core := by
  cases call with
  | allocate ctaId warps =>
      obtain ⟨⟨set, events'⟩, ok, made⟩ := bind_ok.mp done
      cases made
      obtain ⟨rfl, -⟩ := allocateBarrier_ok ok
      exact ⟨fun _ => trivial, fun _ => informs_of_silent fun released member => by simp at member⟩
  | issue ctaId warpId issued =>
      obtain ⟨blocks, whole, active, ready, red⟩ := valid
      obtain ⟨⟨set, events'⟩, ok, made⟩ := bind_ok.mp done
      cases made
      have arrived := waiting.arrive blocks active (of_decide_eq_false ready) red
      refine ⟨fun _ => trivial, fun _ => ?_⟩
      obtain ⟨warps, resident, -, ⟨-, rfl, broadcasts, told, rfl, -⟩ | ⟨-, rfl, rfl⟩⟩ := warpReachesBarrier_ok ok whole
      · by_cases here : issued.inst.barId = barId
        · subst here
          rw [if_pos (red rfl)] at told
          subst told
          exact informs_broadcast
            (fun w inside =>
              ⟨arrived.stored _ w (Finset.mem_inter.mp inside).2, arrived.red w (Finset.mem_inter.mp inside).2⟩)
            fun v inside => waiting.small ctaId warps resident v (Finset.mem_inter.mp inside).1
        · refine informs_of_silent fun released member => here ?_
          rw [told] at member
          split at member
          · have same := (by simpa using member : barId = issued.inst.barId ∧ _)
            exact same.1.symm
          · have same := (by simpa using member : barId = issued.inst.barId ∧ _)
            exact same.1.symm
      · exact informs_of_silent fun released member => by simp at member
  | exit warpId =>
      obtain ⟨⟨set, events'⟩, ok, made⟩ := bind_ok.mp done
      cases made
      obtain ⟨ctaId, warps, resident, inside, swept⟩ := waiting.exit_ok valid.1 ok
      have silent := sweep_silent warps (warps ∩ core.barriers.warpActive.erase warpId)
        (List.range core.barriers.maxBarriersPerCta) (core.barriers.leave warpId)
      have freed (released : Finset Nat) := released_sweep barId warps
        (warps ∩ core.barriers.warpActive.erase warpId) released (core.barriers.leave warpId)
        (List.nodup_range (n := core.barriers.maxBarriersPerCta))
      simp only [swept, List.mem_range] at silent freed
      constructor
      · intro informs c taken held member small some full
        obtain rfl : c = ctaId := by
          by_contra different
          exact Finset.disjoint_left.mp (waiting.apart c ctaId taken warps held resident different) member inside
        obtain rfl := Option.some.inj (resident.symm.trans held)
        obtain ⟨⟨_, told⟩, -⟩ := informs _ ((freed _).mpr ⟨small, rfl, full⟩) some
        rw [silent] at told
        cases told
      · intro meets released member some
        obtain ⟨small, rfl, full⟩ := (freed released).mp member
        exact absurd full (meets ctaId warps resident inside small some)
  | deallocate ctaId =>
      obtain ⟨set, ok, made⟩ := bind_ok.mp done
      cases made
      exact ⟨fun _ => trivial, fun _ => informs_of_silent fun released member => by simp at member⟩

theorem WaitingTogether.create {maxWarps maxCta maxBarriers warpSize : Nat}
    (created : BarrierSet.create maxWarps maxCta maxBarriers warpSize = .ok set) (insts : Nat → InstAtBarrier) :
    WaitingTogether barId ⟨maxWarps, warpSize, set, insts⟩ := by
  simp only [BarrierSet.create] at created
  split at created
  · cases created
  · split at created
    · cases created
    · cases created
      exact ⟨by simp, by simp, by simp, by simp, by simp, by simp, by simp⟩

theorem ReductionRun.waiting {start : BarrierCore} (run : ReductionRun barId start core)
    (waiting : WaitingTogether barId start) : WaitingTogether barId core := by
  induction run with
  | start => exact waiting
  | step call _ valid _ done ih => exact ih.perform valid done

/-- In every run in which no exit is the one that a reduction barrier waits for, the next call informs the
warps it releases there exactly when it is no such exit either. -/
theorem reduction_barrier_informs {maxWarps maxCta maxBarriers warpSize : Nat}
    (created : BarrierSet.create maxWarps maxCta maxBarriers warpSize = .ok set) {insts : Nat → InstAtBarrier}
    (run : ReductionRun barId ⟨maxWarps, warpSize, set, insts⟩ core) (call : BarrierCall)
    (valid : call.Valid barId core)
    (done : core.perform call = .ok (next, events)) : Informs barId next events ↔ call.Meets barId core :=
  (run.waiting (.create created insts)).informs_iff valid done

end

/-- A reduction that lanes 0 and 1 take part in. -/
def pairReduction : InstAtBarrier := ⟨⟨.red, 0, unset⟩, {0, 1}, {0, 1}⟩

/-- An empty core. -/
def emptyCore : BarrierCore := ⟨64, 32, BarrierSet.sixteen, fun _ => pairReduction⟩

/-- The second of two warps arrives, and both are told. -/
theorem reduction_barrier_informs_pair : ∃ core next events, ReductionRun 0 emptyCore core ∧
    core.perform (.issue 0 1 pairReduction) = .ok (next, events) ∧ Informs 0 next events := by
  have waits : ReductionRun 0 emptyCore _ := .step (.issue 0 0 pairReduction) (.step (.allocate 0 {0, 1}) .start
    ⟨by simp [emptyCore, BarrierSet.sixteen], by decide⟩ trivial rfl)
    ⟨.inr rfl, rfl, by decide, by decide, fun _ => rfl⟩ trivial rfl
  have created : BarrierSet.create 64 8 16 32 = .ok BarrierSet.sixteen := rfl
  exact ⟨_, _, _, waits, rfl, (reduction_barrier_informs created waits (.issue 0 1 pairReduction)
    ⟨.inr rfl, rfl, by decide, by decide, fun _ => rfl⟩ rfl).mpr trivial⟩

/-- The second of two warps exits: the first one runs on and is not told. -/
theorem reduction_barrier_not_informed : ∃ core next, ReductionRun 0 emptyCore core ∧
    core.perform (.exit 1) = .ok (next, [.released 0 {0}]) ∧ next.barriers.warpWaitingAtBarrier 0 = false ∧
    next.results [.released 0 {0}] = [] ∧ ¬ Informs 0 next [.released 0 {0}] := by
  have waits : ReductionRun 0 emptyCore _ := .step (.issue 0 0 pairReduction) (.step (.allocate 0 {0, 1}) .start
    ⟨by simp [emptyCore, BarrierSet.sixteen], by decide⟩ trivial rfl)
    ⟨.inr rfl, rfl, by decide, by decide, fun _ => rfl⟩ trivial rfl
  refine ⟨_, _, waits, rfl, by decide, rfl, fun informs => ?_⟩
  obtain ⟨⟨_, told⟩, -⟩ := informs {0} (by simp) (by simp)
  cases told

end GpgpuSim.Shader
