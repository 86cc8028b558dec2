import Mathlib.Algebra.Group.Nat.Defs
import Mathlib.Data.Finset.Card
import Mathlib.Data.Finset.Lattice.Basic
import Mathlib.Logic.Function.Basic

/-! The barriers of a shader core. The warps of all resident CTAs share one set of active
warps, one of waiting warps, and one for each barrier id. -/
namespace GpgpuSim.Shader

/-- `(unsigned)-1`: no barrier id, and the count of a barrier over the whole CTA. -/
def unset : Nat := 2 ^ 32 - 1

inductive BarrierType
  | sync
  | arrive
  | red
  deriving DecidableEq, Repr

/-- What a barrier reads of its instruction. -/
structure BarrierInst where
  barType : BarrierType
  barId : Nat
  barCount : Nat := unset

inductive BarrierFault
  | exit
  | abort
  | assertion
  | endIterator
  deriving DecidableEq, Repr

/-- What an observer sees a call do. -/
inductive BarrierEvent
  | allocated (warps : Finset Nat)
  | arrived (warpId barId : Nat)
  | released (barId : Nat) (warps : Finset Nat)
  | broadcast (ctaId barId : Nat) (warps : Finset Nat)
  deriving DecidableEq

structure BarrierSet where
  maxWarpsPerCore : Nat
  maxCtaPerCore : Nat
  maxBarriersPerCta : Nat
  warpSize : Nat
  ctaToWarps : Nat → Option (Finset Nat)
  barIdToWarps : Nat → Finset Nat
  warpActive : Finset Nat
  warpAtBarrier : Finset Nat

namespace BarrierSet

/-- The constructor; the limits are `WARP_PER_CTA_MAX` and `MAX_BARRIERS_PER_CTA`. -/
def create (maxWarpsPerCore maxCtaPerCore maxBarriersPerCta warpSize : Nat) : Except BarrierFault BarrierSet :=
  if maxWarpsPerCore > 64 then .error .exit
  else if maxBarriersPerCta > 16 then .error .exit
  else .ok
    { maxWarpsPerCore, maxCtaPerCore, maxBarriersPerCta, warpSize
      ctaToWarps := fun _ => none, barIdToWarps := fun _ => ∅, warpActive := ∅, warpAtBarrier := ∅ }

/-- The CTAs with an entry in `m_cta_to_warps`; their ids are below `m_max_cta_per_core`. -/
def resident (set : BarrierSet) : List Nat :=
  (List.range set.maxCtaPerCore).filter fun ctaId => (set.ctaToWarps ctaId).isSome

def allocateBarrier (set : BarrierSet) (ctaId : Nat) (warps : Finset Nat) :
    Except BarrierFault (BarrierSet × List BarrierEvent) :=
  if ¬ ctaId < set.maxCtaPerCore then .error .assertion
  else if (set.ctaToWarps ctaId).isSome then .error .assertion
  else
    let set := { set with ctaToWarps := Function.update set.ctaToWarps ctaId (some warps) }
    if ¬ set.resident.length ≤ set.maxCtaPerCore then .error .assertion
    else .ok ({ set with
      warpActive := set.warpActive ∪ warps
      warpAtBarrier := set.warpAtBarrier \ warps
      barIdToWarps := fun i =>
        if i < set.maxBarriersPerCta then set.barIdToWarps i \ warps else set.barIdToWarps i },
      [.allocated warps])

/-- `deallocate_barrier`: the sets are cleared of the warps, and each must be clear of them already. -/
def deallocateBarrier (set : BarrierSet) (ctaId : Nat) : Except BarrierFault BarrierSet :=
  match set.ctaToWarps ctaId with
  | none => .ok set
  | some warps =>
      if warps ∩ set.warpAtBarrier ≠ ∅ then .error .assertion
      else if warps ∩ set.warpActive ≠ ∅ then .error .assertion
      else if ∃ i ∈ List.range set.maxBarriersPerCta, warps ∩ set.barIdToWarps i ≠ ∅ then .error .assertion
      else .ok { set with
        warpActive := set.warpActive \ warps
        warpAtBarrier := set.warpAtBarrier \ warps
        barIdToWarps := fun i =>
          if i < set.maxBarriersPerCta then set.barIdToWarps i \ warps else set.barIdToWarps i
        ctaToWarps := Function.update set.ctaToWarps ctaId none }

/-- Releases the warps that wait at a barrier. -/
def release (set : BarrierSet) (barId : Nat) (warps : Finset Nat) : BarrierSet :=
  { set with
    barIdToWarps := Function.update set.barIdToWarps barId (set.barIdToWarps barId \ warps)
    warpAtBarrier := set.warpAtBarrier \ warps }

/-- The warp at the barrier; a warp that only arrives does not wait there. -/
def arrive (set : BarrierSet) (warpId : Nat) (inst : BarrierInst) : BarrierSet :=
  { set with
    barIdToWarps := Function.update set.barIdToWarps inst.barId (insert warpId (set.barIdToWarps inst.barId))
    warpAtBarrier :=
      if inst.barType = .sync ∨ inst.barType = .red then insert warpId set.warpAtBarrier else set.warpAtBarrier }

def warpReachesBarrier (set : BarrierSet) (ctaId warpId : Nat) (inst : BarrierInst) :
    Except BarrierFault (BarrierSet × List BarrierEvent) :=
  if inst.barId = unset then .error .assertion
  else
    match set.ctaToWarps ctaId with
    | none => .error .abort
    | some warps =>
        if warpId ∉ warps then .error .assertion
        else
          let set := set.arrive warpId inst
          let atBarrier := warps ∩ set.barIdToWarps inst.barId
          let active := warps ∩ set.warpActive
          let reached :=
            if inst.barCount = unset then decide (atBarrier = active)
            else decide (atBarrier.card * set.warpSize = inst.barCount)
          if reached then
            .ok (set.release inst.barId atBarrier,
              .arrived warpId inst.barId :: .released inst.barId atBarrier ::
                if inst.barType = .red then [.broadcast ctaId inst.barId atBarrier] else [])
          else .ok (set, [.arrived warpId inst.barId])

/-- The loop of `warp_exit` over the barrier ids: the barriers at which all active warps of the
CTA wait are released. -/
def sweep (warps active : Finset Nat) : List Nat → BarrierSet → BarrierSet × List BarrierEvent
  | [], set => (set, [])
  | i :: rest, set =>
      let atSpecific := warps ∩ set.barIdToWarps i
      if atSpecific = active then
        let (swept, events) := sweep warps active rest (set.release i atSpecific)
        (swept, .released i atSpecific :: events)
      else sweep warps active rest set

def warpExit (set : BarrierSet) (warpId : Nat) : Except BarrierFault (BarrierSet × List BarrierEvent) :=
  let set := { set with warpActive := set.warpActive.erase warpId }
  match set.resident.find? fun ctaId => decide (warpId ∈ (set.ctaToWarps ctaId).getD ∅) with
  | none => .error .endIterator
  | some ctaId =>
      let warps := (set.ctaToWarps ctaId).getD ∅
      let active := warps ∩ set.warpActive
      .ok (sweep warps active (List.range set.maxBarriersPerCta) set)

def warpWaitingAtBarrier (set : BarrierSet) (warpId : Nat) : Bool := warpId ∈ set.warpAtBarrier

end BarrierSet

/-- The calls of a run: CTAs get warps that no other CTA has, and the warps that reach a barrier
of the whole CTA or exit are active and do not wait. -/
inductive BarrierStep (set : BarrierSet) : Nat → List BarrierEvent → BarrierSet → Prop
  | allocate {ctaId : Nat} {warps : Finset Nat} {events : List BarrierEvent} {next : BarrierSet} :
      set.allocateBarrier ctaId warps = .ok (next, events) →
      (∀ c taken, set.ctaToWarps c = some taken → Disjoint taken warps) →
      BarrierStep set ctaId events next
  | reach {ctaId warpId : Nat} {inst : BarrierInst} {events : List BarrierEvent} {next : BarrierSet} :
      set.warpReachesBarrier ctaId warpId inst = .ok (next, events) →
      inst.barType = .sync ∨ inst.barType = .red → inst.barCount = unset →
      warpId ∈ set.warpActive → set.warpWaitingAtBarrier warpId = false →
      BarrierStep set ctaId events next
  | exit {ctaId warpId : Nat} {warps : Finset Nat} {events : List BarrierEvent} {next : BarrierSet} :
      set.warpExit warpId = .ok (next, events) →
      set.ctaToWarps ctaId = some warps → warpId ∈ warps →
      warpId ∈ set.warpActive → set.warpWaitingAtBarrier warpId = false →
      BarrierStep set ctaId events next
  | deallocate {ctaId : Nat} {next : BarrierSet} :
      set.deallocateBarrier ctaId = .ok next → BarrierStep set ctaId [] next

end GpgpuSim.Shader
