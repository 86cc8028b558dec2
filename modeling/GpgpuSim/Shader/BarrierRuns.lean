import GpgpuSim.Shader.Barriers
import GpgpuSim.Transition.Runs

/-! Runs of the barriers of a core: nobody is released early, and nobody is left waiting where all
others wait. A warp waits at one barrier only, and the warps there have arrived since their last
release. -/
namespace GpgpuSim.Shader
open Transition

/-- The event ends the wait of a warp at a barrier. -/
def BarrierEvent.Frees (barId warpId : Nat) : BarrierEvent → Prop
  | .released b warps => b = barId ∧ warpId ∈ warps
  | .allocated warps => warpId ∈ warps
  | _ => False

/-- The warp has arrived at the barrier since it was last released from it. -/
def Arrived (history : List BarrierEvent) (barId warpId : Nat) : Prop :=
  ∃ before after, history = before ++ .arrived warpId barId :: after ∧ ∀ e ∈ after, ¬ e.Frees barId warpId

namespace Arrived

variable {history later : List BarrierEvent} {barId warpId : Nat}

theorem now : Arrived (history ++ [.arrived warpId barId]) barId warpId :=
  ⟨history, [], rfl, by simp⟩

theorem append (arrived : Arrived history barId warpId) (kept : ∀ e ∈ later, ¬ e.Frees barId warpId) :
    Arrived (history ++ later) barId warpId := by
  obtain ⟨before, after, rfl, quiet⟩ := arrived
  refine ⟨before, after ++ later, by simp, ?_⟩
  intro e member
  rcases List.mem_append.mp member with early | late
  · exact quiet e early
  · exact kept e late

end Arrived

/-- The ids of the barriers that are reached. -/
def Within (count : Nat) (events : List BarrierEvent) : Prop :=
  ∀ warpId barId, .arrived warpId barId ∈ events → barId < count

namespace BarrierSet

/-- Warps wait at one barrier, which they have reached since their last release. -/
structure Orderly (history : List BarrierEvent) (set : BarrierSet) : Prop where
  keys : ∀ c warps, set.ctaToWarps c = some warps → c < set.maxCtaPerCore
  apart : ∀ c d warps others, set.ctaToWarps c = some warps → set.ctaToWarps d = some others → c ≠ d →
    Disjoint warps others
  owned : ∀ v ∈ set.warpActive, ∃ c warps, set.ctaToWarps c = some warps ∧ v ∈ warps
  awake : ∀ v ∈ set.warpAtBarrier, v ∈ set.warpActive
  waits : ∀ v ∈ set.warpAtBarrier, ∃ b, v ∈ set.barIdToWarps b
  held : ∀ b, ∀ v ∈ set.barIdToWarps b, v ∈ set.warpAtBarrier
  single : ∀ a b v, v ∈ set.barIdToWarps a → v ∈ set.barIdToWarps b → a = b
  bounded : ∀ b v, v ∈ set.barIdToWarps b → b < set.maxBarriersPerCta
  arrived : ∀ b v, v ∈ set.barIdToWarps b → Arrived history b v

/-- At each barrier an active warp of the CTA is missing. -/
def Missing (set : BarrierSet) (warps : Finset Nat) : Prop :=
  (warps ∩ set.warpActive).Nonempty → ∀ b, warps ∩ set.barIdToWarps b ≠ warps ∩ set.warpActive

structure Sound (history : List BarrierEvent) (set : BarrierSet) : Prop extends Orderly history set where
  missing : ∀ c warps, set.ctaToWarps c = some warps → set.Missing warps

variable {history events : List BarrierEvent} {set next : BarrierSet} {ctaId warpId : Nat} {warps : Finset Nat}

theorem Sound.create {maxWarps maxCta maxBarriers warpSize : Nat}
    (created : create maxWarps maxCta maxBarriers warpSize = .ok set) : Sound [] set := by
  simp only [BarrierSet.create] at created
  split at created
  · cases created
  · split at created
    · cases created
    · cases created
      exact {
        keys := by simp
        apart := by simp
        owned := by simp
        awake := by simp
        waits := by simp
        held := by simp
        single := by simp
        bounded := by simp
        arrived := by simp
        missing := by simp }

/-- No warp of a CTA that does not exist is in any of the sets. -/
theorem Sound.fresh (sound : Sound history set)
    (free : ∀ c taken, set.ctaToWarps c = some taken → Disjoint taken warps) {v : Nat} (inside : v ∈ warps) :
    v ∉ set.warpActive := by
  intro active
  obtain ⟨c, taken, resident, member⟩ := sound.owned v active
  exact Finset.disjoint_left.mp (free c taken resident) member inside

/-- What an allocation leaves. -/
structure Allocated (set next : BarrierSet) (ctaId : Nat) (warps : Finset Nat) : Prop where
  small : ctaId < set.maxCtaPerCore
  vacant : set.ctaToWarps ctaId = none
  ctas : next.ctaToWarps = Function.update set.ctaToWarps ctaId (some warps)
  active : next.warpActive = set.warpActive ∪ warps
  waiting : next.warpAtBarrier = set.warpAtBarrier \ warps
  bars : ∀ i, next.barIdToWarps i =
    if i < set.maxBarriersPerCta then set.barIdToWarps i \ warps else set.barIdToWarps i
  limits : next.maxCtaPerCore = set.maxCtaPerCore ∧ next.maxBarriersPerCta = set.maxBarriersPerCta

theorem allocateBarrier_ok (done : set.allocateBarrier ctaId warps = .ok (next, events)) :
    events = [.allocated warps] ∧ Allocated set next ctaId warps := by
  simp only [allocateBarrier] at done
  split at done
  · cases done
  · next small =>
    split at done
    · cases done
    · next vacant =>
      split at done
      · cases done
      · obtain ⟨rfl, rfl⟩ := Prod.mk.inj (Except.ok.inj done)
        exact ⟨rfl, not_not.mp small, by simpa using vacant, rfl, rfl, rfl, fun _ => rfl, rfl, rfl⟩

/-- Where all warps in the sets are active and none of them is new, an allocation has nothing to clear. -/
theorem Allocated.same (allocated : Allocated set next ctaId warps)
    (held : ∀ b, ∀ v ∈ set.barIdToWarps b, v ∈ set.warpAtBarrier) (awake : ∀ v ∈ set.warpAtBarrier, v ∈ set.warpActive)
    (fresh : ∀ v ∈ warps, v ∉ set.warpActive) :
    next.warpAtBarrier = set.warpAtBarrier ∧ next.barIdToWarps = set.barIdToWarps := by
  constructor
  · exact allocated.waiting.trans (Finset.sdiff_eq_self_of_disjoint (Finset.disjoint_left.mpr fun v waits inside =>
      fresh v inside (awake v waits)))
  · funext i
    rw [allocated.bars]
    split
    · exact Finset.sdiff_eq_self_of_disjoint (Finset.disjoint_left.mpr fun v member inside =>
        fresh v inside (awake v (held i v member)))
    · rfl

theorem Sound.allocate (sound : Sound history set) (done : set.allocateBarrier ctaId warps = .ok (next, events))
    (free : ∀ c taken, set.ctaToWarps c = some taken → Disjoint taken warps) :
    Sound (history ++ events) next ∧ next.barIdToWarps = set.barIdToWarps := by
  obtain ⟨rfl, allocated⟩ := allocateBarrier_ok done
  obtain ⟨ctas, active⟩ := And.intro allocated.ctas allocated.active
  have outside : ∀ b, ∀ v ∈ set.barIdToWarps b, v ∉ warps := fun b v member inside =>
    sound.fresh free inside (sound.awake v (sound.held b v member))
  obtain ⟨waiting, bars⟩ := allocated.same sound.held sound.awake fun v => sound.fresh free
  refine ⟨⟨⟨?keys, ?apart, ?owned, ?awake, ?waits, ?held, ?single, ?bounded, ?arrived⟩, ?missing⟩, bars⟩
  case keys =>
    intro c taken resident
    rw [allocated.limits.1]
    by_cases same : c = ctaId
    · exact same ▸ allocated.small
    · rw [ctas, Function.update_of_ne same] at resident
      exact sound.keys c taken resident
  case apart =>
    intro c d taken others left right different
    rw [ctas] at left right
    by_cases here : c = ctaId
    · subst here
      rw [Function.update_self] at left
      cases left
      rw [Function.update_of_ne (Ne.symm different)] at right
      exact (free d others right).symm
    · rw [Function.update_of_ne here] at left
      by_cases there : d = ctaId
      · subst there
        rw [Function.update_self] at right
        cases right
        exact free c taken left
      · rw [Function.update_of_ne there] at right
        exact sound.apart c d taken others left right different
  case owned =>
    intro v running
    rw [active] at running
    rw [ctas]
    rcases Finset.mem_union.mp running with old | new
    · obtain ⟨c, taken, resident, member⟩ := sound.owned v old
      refine ⟨c, taken, ?_, member⟩
      rw [Function.update_of_ne, resident]
      rintro rfl
      rw [allocated.vacant] at resident
      cases resident
    · exact ⟨ctaId, warps, Function.update_self .., new⟩
  case awake =>
    intro v waits
    rw [active]
    exact Finset.mem_union_left _ (sound.awake v (waiting ▸ waits))
  case waits => exact fun v waits => bars ▸ sound.waits v (waiting ▸ waits)
  case held => exact fun b v member => waiting ▸ sound.held b v (bars ▸ member)
  case single => exact fun a b v left right => sound.single a b v (bars ▸ left) (bars ▸ right)
  case bounded => exact fun b v member => allocated.limits.2 ▸ sound.bounded b v (bars ▸ member)
  case arrived =>
    intro b v member
    rw [bars] at member
    refine (sound.arrived b v member).append ?_
    simpa [BarrierEvent.Frees] using outside b v member
  case missing =>
    intro c taken resident some b full
    rw [ctas] at resident
    rw [active] at some full
    rw [bars] at full
    by_cases here : c = ctaId
    · subst here
      rw [Function.update_self] at resident
      cases resident
      obtain ⟨v, member⟩ := some
      rw [← full] at member
      exact outside b v (Finset.mem_inter.mp member).2 (Finset.mem_inter.mp member).1
    · rw [Function.update_of_ne here] at resident
      have same : taken ∩ (set.warpActive ∪ warps) = taken ∩ set.warpActive := by
        rw [Finset.inter_union_distrib_left, Finset.disjoint_iff_inter_eq_empty.mp (free c taken resident),
          Finset.union_empty]
      rw [same] at some full
      exact sound.missing c taken resident some b full

variable {barId : Nat} {inst : BarrierInst}

/-- Events that free nobody change nothing. -/
theorem Orderly.append (orderly : Orderly history set) (quiet : ∀ e ∈ events, ∀ b v, ¬ e.Frees b v) :
    Orderly (history ++ events) set :=
  { orderly with arrived := fun b v member => (orderly.arrived b v member).append fun e inside => quiet e inside b v }

theorem mem_release_bar {released : Finset Nat} {b v : Nat} :
    v ∈ (set.release barId released).barIdToWarps b ↔ v ∈ set.barIdToWarps b ∧ ¬ (b = barId ∧ v ∈ released) := by
  by_cases here : b = barId
  · subst here
    simp [release]
  · simp [release, here]

/-- The warps released from a barrier are those that wait at it. -/
theorem Orderly.release (orderly : Orderly history set) {released : Finset Nat}
    (there : released ⊆ set.barIdToWarps barId) :
    Orderly (history ++ [.released barId released]) (set.release barId released) where
  keys := orderly.keys
  apart := orderly.apart
  owned := orderly.owned
  awake v waits := orderly.awake v (Finset.mem_sdiff.mp waits).1
  waits v waits := by
    obtain ⟨waited, stays⟩ := Finset.mem_sdiff.mp waits
    obtain ⟨b, member⟩ := orderly.waits v waited
    exact ⟨b, mem_release_bar.mpr ⟨member, fun freed => stays freed.2⟩⟩
  held b v member := by
    obtain ⟨old, kept⟩ := mem_release_bar.mp member
    refine Finset.mem_sdiff.mpr ⟨orderly.held b v old, fun freed => kept ⟨?_, freed⟩⟩
    exact orderly.single b barId v old (there freed)
  single a b v left right := orderly.single a b v (mem_release_bar.mp left).1 (mem_release_bar.mp right).1
  bounded b v member := orderly.bounded b v (mem_release_bar.mp member).1
  arrived b v member := by
    obtain ⟨old, kept⟩ := mem_release_bar.mp member
    refine (orderly.arrived b v old).append ?_
    intro e inside
    obtain rfl := List.mem_singleton.mp inside
    exact fun frees => kept ⟨frees.1.symm, frees.2⟩

theorem mem_arrive_bar {b v : Nat} : v ∈ (set.arrive warpId inst).barIdToWarps b ↔
    v ∈ set.barIdToWarps b ∨ (b = inst.barId ∧ v = warpId) := by
  by_cases here : b = inst.barId
  · subst here
    simp [arrive, or_comm]
  · simp [arrive, here]

/-- An active warp that does not wait comes to a barrier. -/
theorem Orderly.arrive (orderly : Orderly history set) (blocks : inst.barType = .sync ∨ inst.barType = .red)
    (active : warpId ∈ set.warpActive) (ready : warpId ∉ set.warpAtBarrier)
    (small : inst.barId < set.maxBarriersPerCta) :
    Orderly (history ++ [.arrived warpId inst.barId]) (set.arrive warpId inst) := by
  have waiting : (set.arrive warpId inst).warpAtBarrier = insert warpId set.warpAtBarrier := if_pos blocks
  have elsewhere : ∀ b, warpId ∉ set.barIdToWarps b := fun b member => ready (orderly.held b warpId member)
  refine ⟨orderly.keys, orderly.apart, orderly.owned, ?awake, ?waits, ?held, ?single, ?bounded, ?arrived⟩
  case awake =>
    intro v waits
    rcases Finset.mem_insert.mp (waiting ▸ waits) with rfl | old
    · exact active
    · exact orderly.awake v old
  case waits =>
    intro v waits
    rcases Finset.mem_insert.mp (waiting ▸ waits) with rfl | old
    · exact ⟨inst.barId, mem_arrive_bar.mpr (.inr ⟨rfl, rfl⟩)⟩
    · obtain ⟨b, member⟩ := orderly.waits v old
      exact ⟨b, mem_arrive_bar.mpr (.inl member)⟩
  case held =>
    intro b v member
    rw [waiting]
    rcases mem_arrive_bar.mp member with old | ⟨-, rfl⟩
    · exact Finset.mem_insert_of_mem (orderly.held b v old)
    · exact Finset.mem_insert_self ..
  case single =>
    intro a b v left right
    rcases mem_arrive_bar.mp left with old | ⟨rfl, rfl⟩
    · rcases mem_arrive_bar.mp right with old' | ⟨rfl, rfl⟩
      · exact orderly.single a b v old old'
      · exact absurd old (elsewhere a)
    · rcases mem_arrive_bar.mp right with old' | ⟨rfl, -⟩
      · exact absurd old' (elsewhere b)
      · rfl
  case bounded =>
    intro b v member
    rcases mem_arrive_bar.mp member with old | ⟨rfl, -⟩
    · exact orderly.bounded b v old
    · exact small
  case arrived =>
    intro b v member
    rcases mem_arrive_bar.mp member with old | ⟨rfl, rfl⟩
    · exact (orderly.arrived b v old).append (by simp [BarrierEvent.Frees])
    · exact .now

/-- The arrivals among the events of a step. -/
def arrivals (events : List BarrierEvent) : List BarrierEvent :=
  events.filter fun
    | .arrived _ _ => true
    | _ => false

/-- What a step may do to the warps that wait. A warp wakes where it waits, when all active warps of
its CTA have come there. -/
structure Wakes (history events : List BarrierEvent) (set next : BarrierSet) (warps : Finset Nat) : Prop where
  frame : ∀ b, ∀ v ∉ warps, v ∈ next.barIdToWarps b ↔ v ∈ set.barIdToWarps b
  wakes : ∀ b, ∀ v ∈ set.barIdToWarps b, v ∉ next.barIdToWarps b →
    ∀ u ∈ warps ∩ next.warpActive, Arrived (history ++ arrivals events) b u

/-- A CTA apart from the one that steps keeps missing a warp at each barrier. -/
theorem Wakes.missing {others : Finset Nat} (wakes : Wakes history events set next warps)
    (apart : Disjoint others warps) (active : others ∩ next.warpActive = others ∩ set.warpActive)
    (missing : set.Missing others) : next.Missing others := by
  intro some b full
  rw [active] at some full
  refine missing some b ?_
  rw [← full]
  ext v
  simp only [Finset.mem_inter, and_congr_right_iff]
  exact fun inside => (wakes.frame b v (Finset.disjoint_left.mp apart inside)).symm

/-- A barrier of the whole CTA is released when its last active warp comes. -/
theorem warpReachesBarrier_ok (done : set.warpReachesBarrier ctaId warpId inst = .ok (next, events))
    (whole : inst.barCount = unset) :
    ∃ warps, set.ctaToWarps ctaId = some warps ∧ warpId ∈ warps ∧
      ((warps ∩ (set.arrive warpId inst).barIdToWarps inst.barId = warps ∩ set.warpActive ∧
          next = (set.arrive warpId inst).release inst.barId
            (warps ∩ (set.arrive warpId inst).barIdToWarps inst.barId) ∧
          ∃ broadcasts, broadcasts = (if inst.barType = .red then
              [.broadcast ctaId inst.barId (warps ∩ (set.arrive warpId inst).barIdToWarps inst.barId)] else []) ∧
            events = [.arrived warpId inst.barId,
              .released inst.barId (warps ∩ (set.arrive warpId inst).barIdToWarps inst.barId)] ++ broadcasts ∧
            (∀ e ∈ broadcasts, ∀ b v, ¬ e.Frees b v) ∧ arrivals broadcasts = []) ∨
        (warps ∩ (set.arrive warpId inst).barIdToWarps inst.barId ≠ warps ∩ set.warpActive ∧
          next = set.arrive warpId inst ∧ events = [.arrived warpId inst.barId])) := by
  simp only [warpReachesBarrier, whole, if_true] at done
  split at done
  · cases done
  · split at done
    · cases done
    · next warps resident =>
      split at done
      · cases done
      · next inside =>
        refine ⟨warps, resident, not_not.mp inside, ?_⟩
        split at done
        · next full =>
          obtain ⟨rfl, rfl⟩ := Prod.mk.inj (Except.ok.inj done)
          refine .inl ⟨of_decide_eq_true full, rfl, if inst.barType = .red then
            [.broadcast ctaId inst.barId (warps ∩ (set.arrive warpId inst).barIdToWarps inst.barId)] else [],
            rfl, rfl, ?_, ?_⟩
          · split
            · simp [BarrierEvent.Frees]
            · simp
          · split
            · rfl
            · rfl
        · next partly =>
          obtain ⟨rfl, rfl⟩ := Prod.mk.inj (Except.ok.inj done)
          exact .inr ⟨fun full => partly (decide_eq_true full), rfl, rfl⟩

theorem Sound.reach (sound : Sound history set) (done : set.warpReachesBarrier ctaId warpId inst = .ok (next, events))
    (blocks : inst.barType = .sync ∨ inst.barType = .red) (whole : inst.barCount = unset)
    (active : warpId ∈ set.warpActive) (ready : warpId ∉ set.warpAtBarrier)
    (small : inst.barId < set.maxBarriersPerCta) :
    Sound (history ++ events) next ∧
      ∃ warps, set.ctaToWarps ctaId = some warps ∧ Wakes history events set next warps := by
  obtain ⟨warps, resident, inside, outcome⟩ := warpReachesBarrier_ok done whole
  have orderly := sound.toOrderly.arrive blocks active ready small
  have others : ∀ c taken, set.ctaToWarps c = some taken → c ≠ ctaId → Disjoint taken warps :=
    fun c taken held different => sound.apart c ctaId taken warps held resident different
  rcases outcome with ⟨full, rfl, broadcasts, -, rfl, quiet, silent⟩ | ⟨partly, rfl, rfl⟩
  · have arrived : arrivals ([.arrived warpId inst.barId, .released inst.barId
        (warps ∩ (set.arrive warpId inst).barIdToWarps inst.barId)] ++ broadcasts) =
        [.arrived warpId inst.barId] := by
      rw [arrivals, List.filter_append]
      exact congrArg ([BarrierEvent.arrived warpId inst.barId] ++ ·) silent
    have wakes : Wakes history ([.arrived warpId inst.barId, .released inst.barId
        (warps ∩ (set.arrive warpId inst).barIdToWarps inst.barId)] ++ broadcasts) set
        ((set.arrive warpId inst).release inst.barId (warps ∩ (set.arrive warpId inst).barIdToWarps inst.barId))
        warps := by
      constructor
      · intro b v outside
        rw [mem_release_bar, mem_arrive_bar]
        constructor
        · rintro ⟨old | ⟨-, rfl⟩, -⟩
          · exact old
          · exact absurd inside outside
        · exact fun old => ⟨.inl old, fun freed => outside (Finset.mem_inter.mp freed.2).1⟩
      · intro b v waited gone u member
        rw [arrived]
        rw [mem_release_bar, mem_arrive_bar] at gone
        obtain ⟨rfl, -⟩ := not_not.mp fun stays => gone ⟨.inl waited, stays⟩
        have there : u ∈ warps ∩ (set.arrive warpId inst).barIdToWarps inst.barId := full.symm ▸ member
        exact orderly.arrived _ u (Finset.mem_inter.mp there).2
    refine ⟨⟨?_, ?_⟩, warps, resident, wakes⟩
    · rw [show ∀ a b : BarrierEvent, history ++ ([a, b] ++ broadcasts) = history ++ [a] ++ [b] ++ broadcasts by simp]
      exact (orderly.release Finset.inter_subset_right).append quiet
    · intro c taken held
      by_cases here : c = ctaId
      · subst here
        obtain rfl := Option.some.inj (resident.symm.trans held)
        intro some b same
        by_cases there : b = inst.barId
        · subst there
          obtain ⟨v, member⟩ := some
          rw [← same, Finset.mem_inter, mem_release_bar] at member
          exact member.2.2 ⟨rfl, Finset.mem_inter.mpr ⟨member.1, member.2.1⟩⟩
        · refine sound.missing c warps held some b (Eq.trans ?_ same)
          ext v
          simp only [Finset.mem_inter, mem_release_bar, mem_arrive_bar, there, false_and, or_false, not_false_eq_true,
            and_true]
      · exact wakes.missing (others c taken held here) rfl (sound.missing c taken held)
  · have wakes : Wakes history [.arrived warpId inst.barId] set (set.arrive warpId inst) warps := by
      constructor
      · intro b v outside
        rw [mem_arrive_bar]
        constructor
        · rintro (old | ⟨-, rfl⟩)
          · exact old
          · exact absurd inside outside
        · exact .inl
      · intro b v waited gone
        exact absurd (mem_arrive_bar.mpr (.inl waited)) gone
    refine ⟨⟨orderly, ?_⟩, warps, resident, wakes⟩
    intro c taken held
    by_cases here : c = ctaId
    · subst here
      obtain rfl := Option.some.inj (resident.symm.trans held)
      intro some b same
      by_cases there : b = inst.barId
      · exact partly (there ▸ same)
      · refine sound.missing c warps held some b (Eq.trans ?_ same)
        ext v
        simp only [Finset.mem_inter, mem_arrive_bar, there, false_and, or_false]
    · exact wakes.missing (others c taken held here) rfl (sound.missing c taken held)

/-- The loop of an exit. -/
theorem Orderly.sweep {active : Finset Nat} {ids : List Nat} (orderly : Orderly history set) :
    Orderly (history ++ (sweep warps active ids set).2) (sweep warps active ids set).1 ∧
      arrivals (sweep warps active ids set).2 = [] ∧
      (sweep warps active ids set).1.warpActive = set.warpActive ∧
      (sweep warps active ids set).1.ctaToWarps = set.ctaToWarps ∧
      ∀ b v, v ∈ (sweep warps active ids set).1.barIdToWarps b ↔
        v ∈ set.barIdToWarps b ∧ ¬ (b ∈ ids ∧ warps ∩ set.barIdToWarps b = active ∧ v ∈ warps) := by
  induction ids generalizing set history with
  | nil => simpa [sweep, arrivals] using orderly
  | cons i rest ih =>
      by_cases full : warps ∩ set.barIdToWarps i = active
      · have there : warps ∩ set.barIdToWarps i ⊆ set.barIdToWarps i := Finset.inter_subset_right
        obtain ⟨kept, silent, same, ctas, bars⟩ := ih (orderly.release there)
        simp only [sweep, full, if_true]
        rw [full] at kept silent same ctas bars
        refine ⟨?_, silent, same, ctas, ?_⟩
        · simpa only [List.append_assoc, List.singleton_append] using kept
        · intro b v
          rw [bars, mem_release_bar]
          by_cases here : b = i
          · subst here
            have gone : v ∈ set.barIdToWarps b → (v ∈ active ↔ v ∈ warps) := fun member => by
              rw [← full, Finset.mem_inter]
              exact and_iff_left member
            simp only [true_and, List.mem_cons_self, full]
            constructor
            · rintro ⟨⟨member, stays⟩, -⟩
              exact ⟨member, fun inside => stays ((gone member).mpr inside)⟩
            · rintro ⟨member, outside⟩
              exact ⟨⟨member, fun freed => outside ((gone member).mp freed)⟩, fun swept => outside swept.2.2⟩
          · have same : (set.release i active).barIdToWarps b = set.barIdToWarps b := Function.update_of_ne here ..
            simp only [here, false_and, not_false_eq_true, and_true, same, List.mem_cons, false_or]
      · obtain ⟨kept, silent, same, ctas, bars⟩ := ih orderly
        simp only [sweep, full, if_false]
        refine ⟨kept, silent, same, ctas, ?_⟩
        intro b v
        rw [bars]
        by_cases here : b = i
        · subst here
          simp only [full, false_and, and_false]
        · simp only [List.mem_cons, here, false_or]

/-- The state in which an exit looks for barriers to release. -/
def leave (set : BarrierSet) (warpId : Nat) : BarrierSet :=
  { set with warpActive := set.warpActive.erase warpId }

/-- The search finds the one CTA of the warp. -/
theorem warpExit_ok (apart : ∀ c d warps others, set.ctaToWarps c = some warps → set.ctaToWarps d = some others →
    c ≠ d →
    Disjoint warps others) (resident : set.ctaToWarps ctaId = some warps)
    (inside : warpId ∈ warps) (done : set.warpExit warpId = .ok (next, events)) :
    sweep warps (warps ∩ (set.leave warpId).warpActive) (List.range set.maxBarriersPerCta) (set.leave warpId) =
      (next, events) := by
  simp only [warpExit] at done
  split at done
  · cases done
  · next found search =>
    have member : warpId ∈ (set.ctaToWarps found).getD ∅ := by
      have accepted := List.find?_some search
      exact of_decide_eq_true accepted
    cases held : set.ctaToWarps found with
    | none => simp [held] at member
    | some others =>
        simp only [held, Option.getD_some] at member done
        have same : found = ctaId := by
          by_contra different
          exact Finset.disjoint_left.mp (apart found ctaId others warps held resident different) member inside
        subst same
        obtain rfl := Option.some.inj (resident.symm.trans held)
        exact Except.ok.inj done

theorem Sound.exit (sound : Sound history set) (resident : set.ctaToWarps ctaId = some warps) (inside : warpId ∈ warps)
    (ready : warpId ∉ set.warpAtBarrier) (done : set.warpExit warpId = .ok (next, events)) :
    Sound (history ++ events) next ∧ Wakes history events set next warps := by
  have others : ∀ c taken, set.ctaToWarps c = some taken → c ≠ ctaId → Disjoint taken warps :=
    fun c taken held different => sound.apart c ctaId taken warps held resident different
  have left : Orderly history (set.leave warpId) :=
    { sound.toOrderly with
      owned := fun v active => sound.owned v (Finset.mem_of_mem_erase active)
      awake := fun v waits => Finset.mem_erase.mpr ⟨fun same => ready (same ▸ waits), sound.awake v waits⟩ }
  have swept := @Orderly.sweep history (set.leave warpId) warps (warps ∩ (set.leave warpId).warpActive)
    (List.range set.maxBarriersPerCta) left
  rw [warpExit_ok sound.apart resident inside done] at swept
  obtain ⟨orderly, silent, active, ctas, bars⟩ := swept
  have wakes : Wakes history events set next warps := by
    constructor
    · intro b v outside
      rw [bars]
      exact and_iff_left fun swept => outside swept.2.2
    · intro b v waited gone u member
      rw [silent, List.append_nil]
      obtain ⟨-, full, -⟩ := not_not.mp fun stays => gone ((bars b v).mpr ⟨waited, stays⟩)
      rw [active, ← full] at member
      exact left.arrived b u (Finset.mem_inter.mp member).2
  refine ⟨⟨orderly, ?_⟩, wakes⟩
  intro c taken held
  rw [ctas] at held
  by_cases here : c = ctaId
  · subst here
    obtain rfl := Option.some.inj (resident.symm.trans held)
    intro some b same
    rw [active] at some same
    have noneLeft : warps ∩ next.barIdToWarps b = ∅ := by
      by_contra nonempty
      obtain ⟨v, member⟩ := Finset.nonempty_iff_ne_empty.mpr nonempty
      obtain ⟨there, stays⟩ := Finset.mem_inter.mp member
      rw [bars] at stays
      refine stays.2 ⟨List.mem_range.mpr (left.bounded b v stays.1), ?_, there⟩
      -- nobody else of the CTA has left the barrier, so it is full before the sweep as well
      rw [← same]
      ext u
      simp only [Finset.mem_inter, bars]
      refine and_congr_right fun mine => ⟨fun old => ⟨old, fun gone => ?_⟩, And.left⟩
      exact stays.2 ⟨gone.1, gone.2.1, there⟩
    exact some.ne_empty (same.symm.trans noneLeft)
  · have apart := others c taken held here
    refine wakes.missing apart ?_ (sound.missing c taken held)
    rw [active]
    ext v
    simp only [Finset.mem_inter, leave, Finset.mem_erase, and_congr_right_iff, and_iff_right_iff_imp]
    rintro mine - rfl
    exact Finset.disjoint_left.mp apart mine inside

/-- What a successful deallocation leaves. -/
structure Deallocated (set next : BarrierSet) : Prop where
  fewer : ∀ c taken, next.ctaToWarps c = some taken → set.ctaToWarps c = some taken
  kept : ∀ c taken, set.ctaToWarps c = some taken → (taken ∩ set.warpActive).Nonempty → next.ctaToWarps c = some taken
  active : next.warpActive = set.warpActive
  waiting : next.warpAtBarrier = set.warpAtBarrier
  bars : next.barIdToWarps = set.barIdToWarps
  limits : next.maxCtaPerCore = set.maxCtaPerCore ∧ next.maxBarriersPerCta = set.maxBarriersPerCta

/-- Where all warps in the sets are active, a deallocation has nothing to clear. -/
theorem deallocateBarrier_ok (held : ∀ b, ∀ v ∈ set.barIdToWarps b, v ∈ set.warpAtBarrier)
    (awake : ∀ v ∈ set.warpAtBarrier, v ∈ set.warpActive) (done : set.deallocateBarrier ctaId = .ok next) :
    Deallocated set next := by
  simp only [deallocateBarrier] at done
  split at done
  · cases done
    exact ⟨fun _ _ same => same, fun _ _ same _ => same, rfl, rfl, rfl, rfl, rfl⟩
  · next warps resident =>
    split at done
    · cases done
    · next unwaiting =>
      split at done
      · cases done
      · next inactive =>
        split at done
        · cases done
        · obtain rfl := Except.ok.inj done
          have idle : ∀ v ∈ set.warpActive, v ∉ warps := fun v active inside =>
            Finset.notMem_empty v (not_not.mp inactive ▸ Finset.mem_inter.mpr ⟨inside, active⟩)
          have outside : ∀ b, ∀ v ∈ set.barIdToWarps b, v ∉ warps :=
            fun b v member => idle v (awake v (held b v member))
          refine ⟨?_, ?_, Finset.sdiff_eq_self_of_disjoint (Finset.disjoint_left.mpr idle),
            Finset.sdiff_eq_self_of_disjoint (Finset.disjoint_left.mpr fun v waits => idle v (awake v waits)),
            ?_, rfl, rfl⟩
          · intro c taken same
            dsimp only at same
            by_cases here : c = ctaId
            · subst here
              rw [Function.update_self] at same
              cases same
            · rwa [Function.update_of_ne here] at same
          · intro c taken same nonempty
            refine (Function.update_of_ne ?_ ..).trans same
            rintro rfl
            obtain rfl := Option.some.inj (resident.symm.trans same)
            exact nonempty.ne_empty (not_not.mp inactive)
          · funext i
            dsimp only
            split
            · exact Finset.sdiff_eq_self_of_disjoint (Finset.disjoint_left.mpr (outside i))
            · rfl

theorem Sound.deallocate (sound : Sound history set) (done : set.deallocateBarrier ctaId = .ok next) :
    Sound history next ∧ next.barIdToWarps = set.barIdToWarps := by
  obtain ⟨fewer, kept, active, waiting, bars, limits⟩ := deallocateBarrier_ok sound.held sound.awake done
  refine ⟨?_, bars⟩
  exact {
    keys := fun c taken held => limits.1 ▸ sound.keys c taken (fewer c taken held)
    apart := fun c d taken others left right => sound.apart c d taken others (fewer c taken left) (fewer d others right)
    owned := fun v running => by
      rw [active] at running
      obtain ⟨c, taken, held, member⟩ := sound.owned v running
      exact ⟨c, taken, kept c taken held ⟨v, Finset.mem_inter.mpr ⟨member, running⟩⟩, member⟩
    awake := active ▸ waiting ▸ sound.awake
    waits := waiting ▸ bars ▸ sound.waits
    held := waiting ▸ bars ▸ sound.held
    single := bars ▸ sound.single
    bounded := limits.2 ▸ bars ▸ sound.bounded
    arrived := bars ▸ sound.arrived
    missing := fun c taken held some b full => by
      rw [active] at some full
      rw [bars] at full
      exact sound.missing c taken (fewer c taken held) some b full }

/-- A CTA whose warps have all exited can be deallocated. -/
theorem Sound.deallocates (sound : Sound history set) (resident : set.ctaToWarps ctaId = some warps)
    (exited : warps ∩ set.warpActive = ∅) : ∃ next, set.deallocateBarrier ctaId = .ok next := by
  have idle : ∀ v ∈ warps, v ∉ set.warpAtBarrier := fun v inside waits =>
    Finset.notMem_empty v (exited ▸ Finset.mem_inter.mpr ⟨inside, sound.awake v waits⟩)
  have unwaiting : warps ∩ set.warpAtBarrier = ∅ :=
    Finset.disjoint_iff_inter_eq_empty.mp (Finset.disjoint_left.mpr idle)
  have clear : ¬ ∃ i ∈ List.range set.maxBarriersPerCta, warps ∩ set.barIdToWarps i ≠ ∅ := by
    rintro ⟨i, -, nonempty⟩
    obtain ⟨v, member⟩ := Finset.nonempty_iff_ne_empty.mpr nonempty
    exact idle v (Finset.mem_inter.mp member).1 (sound.held i v (Finset.mem_inter.mp member).2)
  simp only [deallocateBarrier, resident, unwaiting, exited, ne_eq, not_true_eq_false, if_false]
  exact ⟨_, if_neg clear⟩

end BarrierSet

/-- A step that reaches only barriers with an id below `m_max_barriers_per_cta`. -/
def CheckedStep (set : BarrierSet) (events : List BarrierEvent) (next : BarrierSet) : Prop :=
  ∃ ctaId, BarrierStep set ctaId events next ∧ Within set.maxBarriersPerCta events

namespace BarrierSet

variable {trace events : List BarrierEvent} {start set next : BarrierSet} {ctaId : Nat}

theorem Sound.step (sound : Sound trace set) (stepped : BarrierStep set ctaId events next)
    (ids : Within set.maxBarriersPerCta events) :
    Sound (trace ++ events) next ∧ (next.barIdToWarps = set.barIdToWarps ∨
      ∃ warps, set.ctaToWarps ctaId = some warps ∧ Wakes trace events set next warps) := by
  cases stepped with
  | allocate done free =>
      obtain ⟨kept, bars⟩ := sound.allocate done free
      exact ⟨kept, .inl bars⟩
  | @reach warpId inst _ _ done blocks whole active ready =>
      have small : inst.barId < set.maxBarriersPerCta := by
        refine ids warpId inst.barId ?_
        obtain ⟨warps, -, -, ⟨-, -, broadcasts, -, rfl, -⟩ | ⟨-, -, rfl⟩⟩ := warpReachesBarrier_ok done whole
        · simp
        · simp
      obtain ⟨kept, wakes⟩ := sound.reach done blocks whole active (of_decide_eq_false ready) small
      exact ⟨kept, .inr wakes⟩
  | exit done resident inside active ready =>
      obtain ⟨kept, wakes⟩ := sound.exit resident inside (of_decide_eq_false ready) done
      exact ⟨kept, .inr ⟨_, resident, wakes⟩⟩
  | deallocate done =>
      obtain ⟨kept, bars⟩ := sound.deallocate done
      rw [List.append_nil]
      exact ⟨kept, .inl bars⟩

theorem Sound.of_run {maxWarps maxCta maxBarriers warpSize : Nat}
    (created : BarrierSet.create maxWarps maxCta maxBarriers warpSize = .ok start)
    (run : Reaches CheckedStep start trace set) : Sound trace set :=
  run.invariant (.create created) fun _ sound ⟨_, stepped, ids⟩ => (sound.step stepped ids).1

theorem not_frees_arrivals {barId warpId : Nat} : ∀ e ∈ arrivals events, ¬ e.Frees barId warpId := by
  intro e member
  have kind := (List.mem_filter.mp member).2
  cases e with
  | arrived warpId barId => exact id
  | allocated warps => cases kind
  | released barId warps => cases kind
  | broadcast ctaId barId warps => cases kind

/-- As long as only barriers below the configured number are reached, a warp is released from a barrier
only when all active warps of its CTA have come there, a CTA never waits there as a whole, CTAs do not
wake each other's warps, and a CTA that has exited can be deallocated. -/
theorem barriers_release_when_all_arrived {maxWarps maxCta maxBarriers warpSize : Nat}
    (created : BarrierSet.create maxWarps maxCta maxBarriers warpSize = .ok start)
    (run : Reaches CheckedStep start trace set) :
    (∀ ctaId events next, BarrierStep set ctaId events next → Within set.maxBarriersPerCta events →
      (∀ w ∈ set.warpAtBarrier, w ∉ next.warpAtBarrier → ∃ b warps, w ∈ set.barIdToWarps b ∧
        set.ctaToWarps ctaId = some warps ∧ w ∈ warps ∧
        ∀ v ∈ insert w (warps ∩ next.warpActive), Arrived (trace ++ arrivals events) b v) ∧
      ∀ c others, c ≠ ctaId → set.ctaToWarps c = some others →
        next.warpAtBarrier ∩ others = set.warpAtBarrier ∩ others) ∧
    (∀ c warps, set.ctaToWarps c = some warps → (warps ∩ set.warpActive).Nonempty →
      ¬ ∃ b, ∀ v ∈ warps ∩ set.warpActive, v ∈ set.barIdToWarps b) ∧
    ∀ c warps, set.ctaToWarps c = some warps → warps ∩ set.warpActive = ∅ →
      ∃ next, set.deallocateBarrier c = .ok next := by
  have sound := Sound.of_run created run
  refine ⟨?_, ?_, fun c warps resident exited => sound.deallocates resident exited⟩
  · intro ctaId events next stepped ids
    obtain ⟨kept, outcome⟩ := sound.step stepped ids
    refine ⟨?_, ?_⟩
    · intro w waited woken
      obtain ⟨b, there⟩ := sound.waits w waited
      have gone : w ∉ next.barIdToWarps b := fun stays => woken (kept.held b w stays)
      rcases outcome with bars | ⟨warps, resident, wakes⟩
      · exact absurd (bars ▸ there) gone
      · refine ⟨b, warps, there, resident, ?_, ?_⟩
        · by_contra outside
          exact gone ((wakes.frame b w outside).mpr there)
        · intro v member
          rcases Finset.mem_insert.mp member with rfl | active
          · exact (sound.arrived b v there).append not_frees_arrivals
          · exact wakes.wakes b w there gone v active
    · intro c others different held
      have same : ∀ v ∈ others, ∀ b, v ∈ next.barIdToWarps b ↔ v ∈ set.barIdToWarps b := by
        intro v inside b
        rcases outcome with bars | ⟨warps, resident, wakes⟩
        · rw [bars]
        · exact wakes.frame b v
            (Finset.disjoint_left.mp (sound.apart c ctaId others warps held resident different) inside)
      ext v
      simp only [Finset.mem_inter]
      refine and_congr_left fun inside => ⟨fun waits => ?_, fun waits => ?_⟩
      · obtain ⟨b, there⟩ := kept.waits v waits
        exact sound.held b v ((same v inside b).mp there)
      · obtain ⟨b, there⟩ := sound.waits v waits
        exact kept.held b v ((same v inside b).mpr there)
  · rintro c warps resident some ⟨b, all⟩
    refine sound.missing c warps resident some b ?_
    ext v
    simp only [Finset.mem_inter, and_congr_right_iff]
    exact fun inside => ⟨fun there => sound.awake v (sound.held b v there),
      fun active => all v (Finset.mem_inter.mpr ⟨inside, active⟩)⟩

/-- A core with 16 barriers. -/
def sixteen : BarrierSet :=
  { maxWarpsPerCore := 64, maxCtaPerCore := 8, maxBarriersPerCta := 16, warpSize := 32
    ctaToWarps := fun _ => none, barIdToWarps := fun _ => ∅, warpActive := ∅, warpAtBarrier := ∅ }

/-- Two warps of a CTA, one of which has come to barrier 15. -/
theorem barriers_release_when_all_arrived_sample :
    ∃ trace set, Reaches CheckedStep sixteen trace set ∧ set.warpAtBarrier = {0} ∧
      ∀ c warps, set.ctaToWarps c = some warps → (warps ∩ set.warpActive).Nonempty →
        ¬ ∃ b, ∀ v ∈ warps ∩ set.warpActive, v ∈ set.barIdToWarps b := by
  have run : ∃ trace set, Reaches CheckedStep sixteen trace set ∧ set.warpAtBarrier = {0} := by
    refine ⟨_, _, (Reaches.refl.next ⟨0, @BarrierStep.allocate sixteen 0 {0, 1} _ _ rfl (by simp [sixteen]), ?_⟩).next
      ⟨0, @BarrierStep.reach _ 0 0 ⟨.sync, 15, unset⟩ _ _ rfl (.inl rfl) rfl (by decide) (by decide), ?_⟩, by decide⟩
    · intro warpId barId member
      have last : barId = 15 := (BarrierEvent.arrived.inj (List.mem_singleton.mp member)).2
      rw [last]
      exact (by decide : 15 < 16)
    · intro warpId barId member
      simp at member
  obtain ⟨trace, set, run, waits⟩ := run
  exact ⟨trace, set, run, waits, (@barriers_release_when_all_arrived trace sixteen set 64 8 16 32 rfl run).2.1⟩

/-- Barrier 16, which the `sst` instruction uses, is not looked at when a warp exits: the other warp of
the CTA waits there for ever. -/
theorem sst_barrier_not_released_by_exit :
    ∃ trace set, Reaches (fun s events next => ∃ ctaId, BarrierStep s ctaId events next) sixteen trace set ∧
      set.ctaToWarps 0 = some {0, 1} ∧ set.warpActive = {0} ∧ set.barIdToWarps 16 = {0} ∧ set.warpAtBarrier = {0} := by
  refine ⟨_, _, ((Reaches.refl.next ⟨0, @BarrierStep.allocate sixteen 0 {0, 1} _ _ rfl (by simp [sixteen])⟩).next
    ⟨0, @BarrierStep.reach _ 0 0 ⟨.sync, 16, unset⟩ _ _ rfl (.inl rfl) rfl (by decide) (by decide)⟩).next
    ⟨0, @BarrierStep.exit _ 0 1 {0, 1} _ _ rfl rfl (by decide) (by decide) (by decide)⟩, ?_, ?_, ?_, ?_⟩
  all_goals decide

end BarrierSet

end GpgpuSim.Shader
