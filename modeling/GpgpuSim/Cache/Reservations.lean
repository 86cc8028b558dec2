import GpgpuSim.Cache.Pinning

/-! Reserved sectors and the requests that will fill them. A read that joins an entry of
the registers sends nothing, so it may not reserve a sector. -/
namespace GpgpuSim.Cache
open GpgpuSim.Memory Transition

/-- A request under way will fill sector `c` of line `i`. -/
def Awaited (cfg : DataCacheConfig) (s : CacheSystem) (i c : Nat) : Prop :=
  ∃ mf extra, s.cache.extraMfFields mf = some extra ∧ extra.cacheIndex = some i ∧
    cfg.cell (s.pool.get mf).sectorMask = .ok c

/-- The line that an access reserves a sector of although its read joins an entry. -/
def joinsFor (kind : CacheKind) (cfg : DataCacheConfig) (s : CacheSystem) (mf : MfId) : Option Nat :=
  let request := s.pool.get mf
  let mshrAddr := cfg.mshrAddr request.addr
  if sendsRead kind cfg s.cache s.pool mf && s.cache.mshrs.probe mshrAddr &&
      !s.cache.mshrs.full cfg.toCacheConfig mshrAddr then
    match s.cache.tagArray.probe cfg.toCacheConfig (cfg.blockAddr request.addr) request false with
    | .ok (.miss, line) | .ok (.sectorMiss, line) => line
    | _ => none
  else none

/-- No read joins an entry of the registers and reserves a sector. -/
def JoinsNone (kind : CacheKind) (cfg : DataCacheConfig) (move : CacheMove) : Prop :=
  ∀ mf time result, move.action = .access mf time result → joinsFor kind cfg move.before mf = none

namespace TagArray

variable {cfg : CacheConfig} {tags : TagArray} {addr c i : Nat} {status : CacheRequestStatus}
  {lines : Nat → Sectors} {evicted : Option EvictedBlockInfo}

/-- An access reserves no sector but its own. -/
theorem Touched.reserved_of (touched : Touched cfg tags addr c status (some i) lines evicted) {j d : Nat}
    (reserved : (lines j).status d = .reserved) : j = i ∧ d = c ∨ (tags.view j).status d = .reserved := by
  cases touched with
  | present probed is_hit => exact .inr reserved
  | allocated onMiss free =>
      by_cases line : j = i
      · subst line
        by_cases sector : d = c
        · exact .inl ⟨rfl, sector⟩
        · simp [Sectors.allocated, sector] at reserved
      · rw [Function.update_of_ne line] at reserved
        exact .inr reserved
  | sectorAdded onMiss at_tag absent =>
      by_cases line : j = i
      · subst line
        by_cases sector : d = c
        · exact .inl ⟨rfl, sector⟩
        · exact .inr (by simpa [Sectors.addSector, sector] using reserved)
      · rw [Function.update_of_ne line] at reserved
        exact .inr reserved
  | unallocated onFill is_miss => exact .inr reserved
  | refused => exact .inr reserved

end TagArray

open CacheSystem

variable {kind : CacheKind} {cfg : DataCacheConfig} {s t : CacheSystem} {action : CacheAction}

/-- Every reserved sector is on its way. -/
def ReservedAwaited (cfg : DataCacheConfig) (s : CacheSystem) : Prop :=
  ∀ i c, (s.cache.tagArray.view i).status c = .reserved → Awaited cfg s i c

namespace ReservedAwaited

theorem view_create (cfg : CacheConfig) (i c : Nat) : ((TagArray.create cfg).view i).status c = .invalid := by
  unfold TagArray.view TagArray.create CacheBlock.create
  cases cfg.cacheType with
  | normal =>
      by_cases zero : c = 0
      · simp [CacheBlock.view, zero]
      · simp [CacheBlock.view]
  | sector => rfl

theorem create (cfg : DataCacheConfig) (pool : MfPool) : ReservedAwaited cfg (CacheSystem.create cfg pool) := by
  intro i c reserved
  have invalid := view_create cfg.toCacheConfig i c
  rw [show ((TagArray.create cfg.toCacheConfig).view i).status c = .reserved from reserved] at invalid
  contradiction

/-- Setting a sector to another status reserves nothing. -/
theorem of_setStatus {lines : Nat → Sectors} {i c j d : Nat} {status : CacheBlockState} (other : status ≠ .reserved)
    (reserved : (Function.update lines i ((lines i).setStatus c status) j).status d = .reserved) :
    (lines j).status d = .reserved ∧ ¬ (j = i ∧ d = c) := by
  by_cases line : j = i
  · subst line
    rw [Function.update_self] at reserved
    by_cases sector : d = c
    · subst sector
      simp only [Sectors.setStatus, Function.update_self] at reserved
      exact absurd reserved other
    · exact ⟨by simpa [Sectors.setStatus, sector] using reserved, fun h => sector h.2⟩
  · rw [Function.update_of_ne line] at reserved
    exact ⟨reserved, fun h => line h.1⟩

/-- What was awaited is awaited while its record stays. -/
theorem kept {i c : Nat} (awaited : Awaited cfg s i c)
    (records : ∀ mf extra, s.cache.extraMfFields mf = some extra → extra.cacheIndex = some i →
      cfg.cell (s.pool.get mf).sectorMask = .ok c →
      ∃ later, t.cache.extraMfFields mf = some later ∧ later.cacheIndex = extra.cacheIndex)
    (mask : ∀ mf, (s.cache.extraMfFields mf).isSome → (t.pool.get mf).sectorMask = (s.pool.get mf).sectorMask) :
    Awaited cfg t i c := by
  obtain ⟨mf, extra, found, index, cell⟩ := awaited
  obtain ⟨later, here, same⟩ := records mf extra found index cell
  exact ⟨mf, later, here, same.trans index, by rw [mask mf (by rw [found]; rfl), cell]⟩

theorem access {mf : MfId} {time : Nat} {result : AccessResult} (reserved_awaited : ReservedAwaited cfg s)
    (outstanding : Outstanding cfg s) (presented : Presented cfg s mf)
    (done : kind.access cfg s.cache s.pool mf time = .ok result)
    (joins : JoinsNone kind cfg ⟨s, .access mf time result, ⟨result.cache, result.pool⟩⟩) :
    ReservedAwaited cfg ⟨result.cache, result.pool⟩ := by
  obtain ⟨c, cell, -⟩ := Outstanding.cell_of_presented presented
  obtain ⟨typed, extends_pool, effect⟩ := CacheKind.access_handled outstanding.typed cell presented.in_use done
  have mask := outstanding.of_extends extends_pool
  -- an access that sends nothing and reserves nothing
  have old : result.cache.extraMfFields = s.cache.extraMfFields →
      (∀ j d, (result.cache.tagArray.view j).status d = .reserved → (s.cache.tagArray.view j).status d = .reserved) →
      ReservedAwaited cfg ⟨result.cache, result.pool⟩ := by
    intro same before j d reserved
    refine kept (reserved_awaited j d (before j d reserved)) ?_ mask
    intro mf' extra found _ _
    exact ⟨extra, by dsimp only; rw [same, found], rfl⟩
  cases effect with
  | unchanged view same still sent =>
      refine old same.extraMfFields ?_
      rw [view]
      exact fun _ _ reserved => reserved
  | written i found probed view same =>
      refine old same.extraMfFields ?_
      rw [view]
      exact fun j d reserved => (of_setStatus (by decide) reserved).1
  | writeEvicted i found probed policy sent view same =>
      refine old same.extraMfFields ?_
      rw [view]
      exact fun j d reserved => (of_setStatus (by decide) reserved).1
  | stored i status middle evicted write stores queue_room probed no_hit room touched view same disposed =>
      refine old same.extraMfFields ?_
      intro j d reserved
      have left : (middle j).status d = .reserved ∧ ¬ (j = i ∧ d = c) := by
        rcases view with view | view
        · rw [view] at reserved
          exact of_setStatus (by decide) reserved
        · refine @of_setStatus middle i c j d .modified (by decide) ?_
          rw [view] at reserved
          by_cases line : j = i
          · subst line
            rw [Function.update_self] at reserved ⊢
            exact reserved
          · rw [Function.update_of_ne line] at reserved ⊢
            exact reserved
      exact (touched.reserved_of left.1).resolve_left left.2
  | fetched r i status middle evicted reader sends probed no_hit room touched view registered sectorMask disposed =>
      intro j d reserved
      have in_middle : (middle j).status d = .reserved := by
        rcases view with ⟨view, -⟩ | ⟨-, view⟩
        · dsimp only at reserved
          rwa [view] at reserved
        · dsimp only at reserved
          rw [view] at reserved
          by_cases line : j = i
          · subst line
            rw [Function.update_self] at reserved
            exact reserved
          · rwa [Function.update_of_ne line] at reserved
      cases registered with
      | merged isAtomic known free added extras =>
          have records : ∀ mf' extra, s.cache.extraMfFields mf' = some extra → extra.cacheIndex = some j →
              cfg.cell (s.pool.get mf').sectorMask = .ok d →
              ∃ later, result.cache.extraMfFields mf' = some later ∧ later.cacheIndex = extra.cacheIndex := by
            intro mf' extra found _ _
            exact ⟨extra, by rw [extras, found], rfl⟩
          rcases touched.reserved_of in_middle with ⟨rfl, rfl⟩ | before
          · have missed : status = .hitReserved ∨ joinsFor kind cfg s mf = some j := by
              have joined : sendsRead kind cfg s.cache s.pool mf &&
                  s.cache.mshrs.probe (cfg.mshrAddr (s.pool.get mf).addr) &&
                  !s.cache.mshrs.full cfg.toCacheConfig (cfg.mshrAddr (s.pool.get mf).addr) := by
                simp [sends, known, free]
              cases status with
              | hit => contradiction
              | hitReserved => exact .inl rfl
              | reservationFail => contradiction
              | miss => exact .inr (by simp only [joinsFor]; rw [if_pos joined, probed])
              | sectorMiss => exact .inr (by simp only [joinsFor]; rw [if_pos joined, probed])
            rcases missed with rfl | joined
            · have was_reserved : (s.cache.tagArray.view j).status d = .reserved := by
                cases touched with
                | present probed is_hit =>
                    cases probed with
                    | hitReserved i at_tag reserved => exact reserved
                | unallocated onFill is_miss => rcases is_miss with absurd | absurd <;> cases absurd
              exact kept (reserved_awaited j d was_reserved) records mask
            · rw [joins mf time result rfl] at joined
              contradiction
          · exact kept (reserved_awaited j d before) records mask
      | primary isAtomic extra unknown added extras blockAddr at_addr cacheIndex =>
          rcases touched.reserved_of in_middle with ⟨rfl, rfl⟩ | before
          · refine ⟨r, extra, ?_, cacheIndex, by rw [sectorMask, cell]⟩
            dsimp only
            rw [extras, Function.update_self]
          · refine kept (reserved_awaited j d before) ?_ mask
            intro mf' extra' found _ _
            have apart : mf' ≠ r := by
              rintro rfl
              rcases reader with rfl | ⟨fresh, -⟩
              · rw [presented.idle] at found
                contradiction
              · exact Nat.lt_irrefl _ (Nat.lt_of_lt_of_le (outstanding.in_use found) fresh)
            exact ⟨extra', by dsimp only; rw [extras, Function.update_of_ne apart, found], rfl⟩

theorem completed {r : MfId} {extra : ExtraMfFields} {time : Nat} (reserved_awaited : ReservedAwaited cfg s)
    (outstanding : Outstanding cfg s) (onMiss : cfg.allocPolicy = .onMiss)
    (completed : DataCache.Completed cfg.toCacheConfig s.cache s.pool r extra time t.cache t.pool) :
    ReservedAwaited cfg t := by
  obtain ⟨c, cell, -⟩ := outstanding.named completed.pending
  obtain ⟨i, index, -, line, is_line, view⟩ := completed.onMiss outstanding.typed cell onMiss
  intro j d reserved
  have before : (s.cache.tagArray.view j).status d = .reserved ∧ ¬ (j = i ∧ d = c) := by
    rw [view] at reserved
    rcases is_line with rfl | rfl
    · refine of_setStatus ?_ reserved
      split <;> decide
    · refine @of_setStatus s.cache.tagArray.view i c j d .modified (by decide) ?_
      by_cases same : j = i
      · subst same
        simp only [Function.update_self, Sectors.setStatus, Sectors.fill, Function.update_idem] at reserved ⊢
        exact reserved
      · rw [Function.update_of_ne same] at reserved ⊢
        exact reserved
  refine kept (reserved_awaited j d before.1) ?_ fun mf _ => completed.sectorMask mf
  intro mf found was at_index named
  have apart : mf ≠ r := by
    rintro rfl
    rw [completed.pending] at was
    cases was
    rw [index] at at_index
    rw [cell] at named
    cases at_index
    cases named
    exact before.2 ⟨rfl, rfl⟩
  exact ⟨found, by rw [completed.extraMfFields, Function.update_of_ne apart, was], rfl⟩

theorem step (reserved_awaited : ReservedAwaited cfg s) (outstanding : Outstanding cfg s)
    (onMiss : cfg.allocPolicy = .onMiss) (step : Step kind cfg s action t)
    (joins : JoinsNone kind cfg ⟨s, action, t⟩) : ReservedAwaited cfg t := by
  cases step with
  | access presented done => exact reserved_awaited.access outstanding presented done joins
  | fill done =>
      obtain ⟨r, extra, counted | completed⟩ := DataCache.fill_cases done
      · obtain ⟨pendingRead, rest⟩ := counted.rest
        intro i c reserved
        have before : (s.cache.tagArray.view i).status c = .reserved := by
          dsimp only at reserved
          rwa [rest] at reserved
        refine kept (reserved_awaited i c before) ?_ (by intro mf _; dsimp only; rw [counted.pool_eq])
        intro mf found was _ _
        by_cases same : mf = r
        · subst same
          rw [counted.pending] at was
          cases was
          refine ⟨{ extra with pendingRead }, ?_, rfl⟩
          dsimp only
          rw [rest]
          exact Function.update_self _ _ _
        · refine ⟨found, ?_, rfl⟩
          dsimp only
          rw [rest]
          exact (Function.update_of_ne same _ _).trans was
      · exact reserved_awaited.completed outstanding onMiss completed
  | nextAccess done =>
      obtain ⟨⟨first, mshrs⟩, -, done⟩ := bind_ok.mp done
      cases done
      exact reserved_awaited
  | cycle memportFull =>
      obtain ⟨same, tags⟩ := Outstanding.cycle_same memportFull s.cache
      intro i c reserved
      dsimp only at reserved
      rw [tags] at reserved
      refine kept (reserved_awaited i c reserved) ?_ fun _ _ => rfl
      intro mf found was _ _
      exact ⟨found, by dsimp only; rw [same.extraMfFields, was], rfl⟩
  | elsewhere serial masks =>
      intro i c reserved
      exact kept (reserved_awaited i c reserved) (fun mf found was _ _ => ⟨found, was, rfl⟩) masks

end ReservedAwaited

/-- No sector stays reserved with nothing on its way to fill it. -/
theorem reserved_is_awaited (onMiss : cfg.allocPolicy = .onMiss) {pool : MfPool} {history : List CacheMove}
    (run : Run kind cfg pool history s) (joins : ∀ move ∈ history, JoinsNone kind cfg move) {i c : Nat}
    (reserved : (s.cache.tagArray.view i).status c = .reserved) :
    ∃ mf extra, s.cache.extraMfFields mf = some extra ∧ extra.cacheIndex = some i ∧
      cfg.cell (s.pool.get mf).sectorMask = .ok c := by
  suffices ReservedAwaited cfg s from this i c reserved
  clear reserved
  induction run with
  | refl => exact ReservedAwaited.create cfg pool
  | next earlier stepped ih =>
      obtain ⟨action, rfl, step⟩ := stepped
      have reserved_awaited := ih fun move member => joins move (List.mem_append_left _ member)
      exact reserved_awaited.step (Outstanding.run earlier) onMiss step (joins _ (by simp))

def joinsNone (kind : CacheKind) (cfg : DataCacheConfig) (move : CacheMove) : Bool :=
  match move.action with
  | .access mf _ _ => (joinsFor kind cfg move.before mf).isNone
  | _ => true

theorem joinsNone_of_test {move : CacheMove} (alone : joinsNone kind cfg move = true) : JoinsNone kind cfg move := by
  intro mf time result access
  simpa [joinsNone, access] using alone

/-- A read misses and one of the same block joins it, and one of another block replaces it when it is filled. -/
theorem reserved_is_awaited_after_miss :
    ∃ history s, Run .data (oneLine .writeBack .noWriteAllocate)
        (poolOf [requestTo .globalAccR 0, requestTo .globalAccR 0, requestTo .globalAccR 128]) history s ∧
      history.length = 6 ∧ (s.cache.tagArray.view 0).status 0 = .reserved ∧
      ∃ mf extra, s.cache.extraMfFields mf = some extra ∧ extra.cacheIndex = some 0 ∧
        (oneLine .writeBack .noWriteAllocate).cell (s.pool.get mf).sectorMask = .ok 0 := by
  have passed : testRun .data (oneLine .writeBack .noWriteAllocate)
      (poolOf [requestTo .globalAccR 0, requestTo .globalAccR 0, requestTo .globalAccR 128])
      [.access (.request 0) 0, .access (.request 1) 1, .fill (.request 0) 2, .nextAccess, .nextAccess,
        .access (.request 2) 3] (fun history s =>
        history.all (joinsNone .data (oneLine .writeBack .noWriteAllocate)) && history.length == 6 &&
          (s.cache.tagArray.view 0).status 0 == .reserved) = true := rfl
  obtain ⟨history, s, run, test⟩ := exists_run passed
  simp only [Bool.and_eq_true, List.all_eq_true, beq_iff_eq] at test
  exact ⟨history, s, run, test.1.2, test.2,
    reserved_is_awaited rfl run (fun move member => joinsNone_of_test (test.1.1 move member)) test.2⟩

/-- A second read waits for a block that has come back; the block is replaced, and a third
read joins the second one: its line is reserved for nothing. -/
theorem reserved_for_nothing :
    ¬ ∀ (kind : CacheKind) (cfg : DataCacheConfig) (pool : MfPool) (history : List CacheMove) (s : CacheSystem)
      (i c : Nat), cfg.Accepted → cfg.allocPolicy = .onMiss → Run kind cfg pool history s →
      (s.cache.tagArray.view i).status c = .reserved →
      ∃ mf extra, s.cache.extraMfFields mf = some extra ∧ extra.cacheIndex = some i ∧
        cfg.cell (s.pool.get mf).sectorMask = .ok c := by
  intro claim
  have passed : testRun .data (oneLine .writeBack .noWriteAllocate)
      (poolOf [requestTo .globalAccR 0, requestTo .globalAccR 0, requestTo .globalAccR 128, requestTo .globalAccR 0])
      [.access (.request 0) 0, .access (.request 1) 1, .fill (.request 0) 2, .nextAccess, .access (.request 2) 3,
        .fill (.request 2) 4, .access (.request 3) 5] (fun _ s =>
        (s.cache.tagArray.view 0).status 0 == .reserved &&
          (List.range s.pool.nextSerial).all fun n =>
            (s.cache.extraMfFields (.request n)).isNone && (s.cache.extraMfFields (.original n)).isNone) = true := rfl
  obtain ⟨history, s, run, test⟩ := exists_run passed
  simp only [Bool.and_eq_true, List.all_eq_true, beq_iff_eq, List.mem_range, Option.isNone_iff_eq_none] at test
  obtain ⟨mf, extra, found, -, -⟩ := claim .data _ _ history s 0 0 (oneLine_accepted _ _) rfl run test.1
  have nothing := test.2 mf.serial ((Outstanding.run run).in_use found)
  cases mf with
  | request serial =>
      rw [show s.cache.extraMfFields (.request serial) = none from nothing.1] at found
      contradiction
  | original serial =>
      rw [show s.cache.extraMfFields (.original serial) = none from nothing.2] at found
      contradiction

end GpgpuSim.Cache
