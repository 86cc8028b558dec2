import GpgpuSim.Simt.Stack

/-! One update of the SIMT stack: how the active threads are grouped by their next
PC, and what becomes of the top entry for each way the groups can fall. -/
namespace GpgpuSim.Simt

variable {w : Nat}

namespace SimtStack

section Groups

variable {threadDone : SimtMask w} {nextPc : Fin w → AddressType}

/-- What the lanes seen so far have made of the group. -/
structure Gathered (threadDone : SimtMask w) (nextPc : Fin w → AddressType) (start : SimtMask w)
    (lanes : List (Fin w)) (group : Group w) : Prop where
  left : ∀ i, i ∈ group.topActiveMask ↔
    i ∈ start ∧ (i ∈ lanes → i ∉ threadDone ∧ nextPc i ≠ group.tmpNextPc)
  taken : ∀ i, i ∈ group.tmpActiveMask ↔
    i ∈ lanes ∧ i ∈ start ∧ i ∉ threadDone ∧ nextPc i = group.tmpNextPc
  found : group.tmpNextPc ≠ nullPc → group.tmpActiveMask.Nonempty
  idle : group.tmpNextPc = nullPc → ∀ i ∈ lanes, i ∈ start → i ∈ threadDone

theorem Gathered.groupLane {start : SimtMask w} {lanes : List (Fin w)} {group : Group w}
    (gathered : Gathered threadDone nextPc start lanes group)
    (real : ∀ i ∈ start, i ∉ threadDone → nextPc i ≠ nullPc) (i : Fin w) :
    Gathered threadDone nextPc start (lanes ++ [i]) (groupLane threadDone nextPc group i) := by
  have left := gathered.left
  have taken := gathered.taken
  have idle := gathered.idle
  have real_i := real i
  unfold SimtStack.groupLane
  split
  next mem =>
    split
    next done =>
      refine ⟨fun j => ?_, fun j => ?_, gathered.found, ?_⟩ <;> simp <;> grind
    next live =>
      split
      next null =>
        refine ⟨fun j => ?_, fun j => ?_, fun _ => ⟨i, by simp⟩, ?_⟩ <;> simp <;> grind
      next taken_pc =>
        split
        next same =>
          refine ⟨fun j => ?_, fun j => ?_, fun _ => ⟨i, by simp⟩, ?_⟩ <;> simp <;> grind
        next other =>
          refine ⟨fun j => ?_, fun j => ?_, gathered.found, ?_⟩ <;> simp <;> grind
  next absent =>
    refine ⟨fun j => ?_, fun j => ?_, gathered.found, ?_⟩ <;> simp <;> grind

theorem gathered_foldl {start : SimtMask w} (real : ∀ i ∈ start, i ∉ threadDone → nextPc i ≠ nullPc)
    (more lanes : List (Fin w)) (group : Group w) (gathered : Gathered threadDone nextPc start lanes group) :
    Gathered threadDone nextPc start (lanes ++ more)
      (more.foldl (groupLane threadDone nextPc) group) := by
  induction more generalizing lanes group with
  | nil => simpa using gathered
  | cons i more ih =>
      rw [List.foldl_cons, List.append_cons]
      exact ih _ _ (gathered.groupLane real i)

/-- A pass takes the live threads at one of their PCs and drops the finished ones. -/
theorem extractGroup_spec {start : SimtMask w} (real : ∀ i ∈ start, i ∉ threadDone → nextPc i ≠ nullPc) :
    let group := extractGroup threadDone nextPc start
    group.topActiveMask = (start \ threadDone).filter (nextPc · ≠ group.tmpNextPc) ∧
    group.tmpActiveMask = (start \ threadDone).filter (nextPc · = group.tmpNextPc) ∧
    (group.tmpNextPc ≠ nullPc → group.tmpActiveMask.Nonempty) ∧
    (group.tmpNextPc = nullPc → start ⊆ threadDone) := by
  have gathered : Gathered threadDone nextPc start (List.finRange w).reverse
      (extractGroup threadDone nextPc start) := by
    apply gathered_foldl real _ [] { topActiveMask := start }
    constructor <;> simp
  refine ⟨?_, ?_, gathered.found, fun null i mem => gathered.idle null i (by simp) mem⟩
  · ext i
    simp [gathered.left i, and_assoc]
  · ext i
    simp [gathered.taken i, and_assoc]

/-- `before` with the paths that the threads of `active` take: one for each of their
next PCs, with the threads that go there. -/
structure Paths (nextPc : Fin w → AddressType) (active : SimtMask w) (pcs : List AddressType)
    (before after : PathMap w) : Prop where
  nodup : pcs.Nodup
  mem : ∀ pc, pc ∈ pcs ↔ ∃ i ∈ active, nextPc i = pc
  get : ∀ pc, after[pc]? = if pc ∈ pcs then some (active.filter (nextPc · = pc)) else before[pc]?

variable {active : SimtMask w} {pcs : List AddressType} {before after : PathMap w}

theorem Paths.none : Paths nextPc ∅ [] before before :=
  ⟨List.nodup_nil, by simp, by simp⟩

theorem Paths.nonempty (paths : Paths nextPc active pcs before after) {pc : AddressType} (mem : pc ∈ pcs) :
    (active.filter (nextPc · = pc)).Nonempty := by
  obtain ⟨i, active, at_pc⟩ := (paths.mem pc).mp mem
  exact ⟨i, Finset.mem_filter.mpr ⟨active, at_pc⟩⟩

theorem Paths.length_eq (paths : Paths nextPc active pcs before after) :
    pcs.length = (active.image nextPc).card := by
  have same : pcs.toFinset = active.image nextPc := by
    ext pc
    simp [paths.mem]
  rw [← same, List.toFinset_card_of_nodup paths.nodup]

theorem Paths.cons {pc : AddressType} (here : (active.filter (nextPc · = pc)).Nonempty)
    (paths : Paths nextPc (active.filter (nextPc · ≠ pc)) pcs
      (before.insert pc (active.filter (nextPc · = pc))) after) :
    Paths nextPc active (pc :: pcs) before after := by
  have absent : pc ∉ pcs := by
    simp [paths.mem]
  constructor
  · exact List.nodup_cons.mpr ⟨absent, paths.nodup⟩
  · intro other
    obtain ⟨i, mem⟩ := here
    rw [List.mem_cons, paths.mem]
    grind
  · intro other
    rw [paths.get, Std.TreeMap.getElem?_insert]
    by_cases same : pc = other
    · subst same
      simp [absent]
    · have same_threads : (active.filter (nextPc · ≠ pc)).filter (nextPc · = other) =
          active.filter (nextPc · = other) := by
        ext i
        grind
      simp [same_threads, same, Ne.symm same]

/-- The `while` loop ends, with a path for each next PC of the live threads. -/
theorem extractPaths_spec (fuel : Nat) (start : SimtMask w) (enough : start.card ≤ fuel)
    (real : ∀ i ∈ start, i ∉ threadDone → nextPc i ≠ nullPc) (before : PathMap w) (count : Nat) :
    ∃ pcs after, Paths nextPc (start \ threadDone) pcs before after ∧
      extractPaths threadDone nextPc fuel start (before, count) = .ok (after, count + pcs.length) := by
  induction fuel generalizing start before count with
  | zero =>
      obtain rfl := Finset.card_eq_zero.mp (Nat.le_zero.mp enough)
      exact ⟨[], before, by simpa using Paths.none, rfl⟩
  | succ fuel ih =>
      rw [extractPaths]
      by_cases empty : start = ∅
      · subst empty
        exact ⟨[], before, by simpa using Paths.none, rfl⟩
      · obtain ⟨left, taken, found, idle⟩ := extractGroup_spec real
        rw [if_neg empty]
        dsimp only
        generalize extractGroup threadDone nextPc start = group at *
        by_cases null : group.tmpNextPc = nullPc
        · have all_done : start \ threadDone = ∅ := Finset.sdiff_eq_empty_iff_subset.mpr (idle null)
          have none_active : group.topActiveMask = ∅ := by rw [left, all_done, Finset.filter_empty]
          rw [if_pos null, if_pos none_active, none_active, all_done]
          simpa using ih ∅ (by simp) (by simp) before count
        · have active_eq : group.topActiveMask \ threadDone =
              (start \ threadDone).filter (nextPc · ≠ group.tmpNextPc) := by
            rw [left]
            grind
          have fewer : group.topActiveMask.card < start.card := by
            obtain ⟨i, mem⟩ := found null
            apply Finset.card_lt_card
            rw [Finset.ssubset_iff_of_subset (by rw [left]; grind)]
            exact ⟨i, by grind, by grind⟩
          obtain ⟨pcs, after, paths, ok⟩ := ih group.topActiveMask (by omega)
            (fun i mem => real i (by grind)) (before.insert group.tmpNextPc group.tmpActiveMask)
              (count + 1)
          rw [active_eq, taken] at paths
          refine ⟨group.tmpNextPc :: pcs, after, paths.cons (taken ▸ found null), ?_⟩
          rw [if_neg null, ok, List.length_cons]
          congr 2
          omega

end Groups

section Loop

variable {nextPc : Fin w → AddressType} {active : SimtMask w}

/-- The threads of `active` that go to `pc`. -/
abbrev goingTo (nextPc : Fin w → AddressType) (active : SimtMask w) (pc : AddressType) : SimtMask w :=
  active.filter (nextPc · = pc)

/-- The paths of the map are those at `pcs`. -/
def PathsLeft (nextPc : Fin w → AddressType) (active : SimtMask w) (pcs : List AddressType)
    (map : PathMap w) : Prop :=
  ∀ pc, map[pc]? = if pc ∈ pcs then some (goingTo nextPc active pc) else none

theorem takePath_spec {pcs : List AddressType} {map : PathMap w} (left : PathsLeft nextPc active pcs map)
    (some : pcs ≠ []) (notTakenPc : AddressType) {i : Nat} (first : notTakenPc ∈ pcs → i = 0) :
    ∃ pc ∈ pcs, (notTakenPc ∈ pcs → pc = notTakenPc) ∧
      takePath notTakenPc i map = .ok (pc, goingTo nextPc active pc, map.erase pc) := by
  have mem_iff : ∀ pc, pc ∈ map ↔ pc ∈ pcs := by
    intro pc
    rw [Std.TreeMap.mem_iff_isSome_getElem?, left]
    split <;> simp_all
  have getD_eq : ∀ pc ∈ pcs, map.getD pc ∅ = goingTo nextPc active pc := by
    intro pc mem
    rw [Std.TreeMap.getD_eq_getD_getElem?, left, if_pos mem, Option.getD_some]
  unfold takePath
  by_cases fallThrough : notTakenPc ∈ pcs
  · rw [if_pos ((mem_iff _).mpr fallThrough), if_pos (first fallThrough), getD_eq _ fallThrough]
    exact ⟨notTakenPc, fallThrough, fun _ => rfl, rfl⟩
  · rw [if_neg (fun mem => fallThrough ((mem_iff _).mp mem))]
    obtain ⟨pc, mem⟩ := List.exists_mem_of_ne_nil _ some
    obtain ⟨least, is_least⟩ := Option.isSome_iff_exists.mp
      (Std.TreeMap.isSome_minKey?_of_mem ((mem_iff pc).mpr mem))
    have least_mem := (mem_iff _).mp (Std.TreeMap.minKey?_eq_some_iff_mem_and_forall.mp is_least).1
    rw [← Std.TreeMap.minKey?_eq_head?_keys, is_least]
    refine ⟨least, least_mem, fun mem => absurd mem fallThrough, ?_⟩
    simp only [getD_eq _ least_mem]

theorem PathsLeft.pair {p q : AddressType} (apart : p ≠ q) {map : PathMap w}
    (left : PathsLeft nextPc active [p, q] map) : PathsLeft nextPc active [q] (map.erase p) := by
  intro pc
  rw [Std.TreeMap.getElem?_erase, left]
  by_cases same : p = pc
  · subst same
    simp [apart]
  · simp [same, Ne.symm same]

/-- What an update makes of a stack `top :: rest` with the live active threads `active`. -/
inductive UpdateCase (nextPc : Fin w → AddressType) (active : SimtMask w) (recvgPc : AddressType) (op : OpType)
    (top : SimtStackEntry w) (rest : Stack w) : Except StackFault (Stack w) → Prop
  | finished (none : active = ∅) : UpdateCase nextPc active recvgPc op top rest (.ok rest)
  | called (pc) (some : active.Nonempty) (all : ∀ i ∈ active, nextPc i = pc) (call : op = .callOps) :
      UpdateCase nextPc active recvgPc op top rest (.ok (pushCall pc active (top :: rest)))
  | returned (pc) (some : active.Nonempty) (all : ∀ i ∈ active, nextPc i = pc) (call : top.type = .call) :
      UpdateCase nextPc active recvgPc op top rest (returnTo pc rest)
  | reconverged (all : ∀ i ∈ active, nextPc i = top.recvgPc) (normal : top.type = .normal)
      (some : active.Nonempty) : UpdateCase nextPc active recvgPc op top rest (.ok rest)
  | moved (pc) (some : active.Nonempty) (all : ∀ i ∈ active, nextPc i = pc)
      (stays : pc ≠ top.recvgPc ∨ top.type = .call) :
      UpdateCase nextPc active recvgPc op top rest (.ok ({ top with pc, activeMask := active } :: rest))
  | joined (pc) (some : (goingTo nextPc active pc).Nonempty) (normal : top.type = .normal)
      (two : ∀ i ∈ active, nextPc i = pc ∨ nextPc i = top.recvgPc) (apart : pc ≠ top.recvgPc) :
      UpdateCase nextPc active recvgPc op top rest
        (.ok ({ top with pc, activeMask := goingTo nextPc active pc } :: rest))
  | splitInPlace (pc pc') (some : (goingTo nextPc active pc).Nonempty)
      (some' : (goingTo nextPc active pc').Nonempty)
      (two : ∀ i ∈ active, nextPc i = pc ∨ nextPc i = pc') (apart : pc ≠ pc')
      (stays : pc ≠ top.recvgPc) (stays' : pc' ≠ top.recvgPc) :
      UpdateCase nextPc active recvgPc op top rest
        (.ok (⟨pc', goingTo nextPc active pc', top.recvgPc, .normal, top.lineage⟩ ::
          { top with pc, activeMask := goingTo nextPc active pc } :: rest))
  | splitOver (pc pc') (some : (goingTo nextPc active pc).Nonempty)
      (some' : (goingTo nextPc active pc').Nonempty)
      (two : ∀ i ∈ active, nextPc i = pc ∨ nextPc i = pc') (apart : pc ≠ pc')
      (stays : pc ≠ recvgPc) (stays' : pc' ≠ recvgPc) (beyond : recvgPc ≠ top.recvgPc) :
      UpdateCase nextPc active recvgPc op top rest
        (.ok (⟨pc', goingTo nextPc active pc', recvgPc, .normal, rest.length :: top.lineage⟩ ::
          ⟨pc, goingTo nextPc active pc, recvgPc, .normal, rest.length :: top.lineage⟩ ::
          { top with pc := recvgPc } :: rest))
  | joinedOver (pc) (some : (goingTo nextPc active pc).Nonempty)
      (two : ∀ i ∈ active, nextPc i = pc ∨ nextPc i = recvgPc) (apart : pc ≠ recvgPc)
      (beyond : recvgPc ≠ top.recvgPc) :
      UpdateCase nextPc active recvgPc op top rest
        (.ok (⟨pc, goingTo nextPc active pc, recvgPc, .normal, rest.length :: top.lineage⟩ ::
          { top with pc := recvgPc } :: rest))

variable {recvgPc : AddressType} {op : OpType} {notTakenPc : AddressType} {top : SimtStackEntry w} {rest : Stack w}

theorem onePath (pc : AddressType) (map : PathMap w) (all : ∀ i ∈ active, nextPc i = pc) (some : active.Nonempty)
    (left : PathsLeft nextPc active [pc] map) :
    UpdateCase nextPc active recvgPc op top rest
      (handlePaths ⟨top.recvgPc, top.type, recvgPc, op, notTakenPc, 1⟩ [0]
        { stack := top :: rest, divergentPaths := map }) := by
  have everyone : goingTo nextPc active pc = active := Finset.filter_true_of_mem all
  obtain ⟨pc', mem, -, take⟩ := takePath_spec left (by simp) notTakenPc (i := 0) (by simp)
  obtain rfl := List.mem_singleton.mp mem
  simp only [handlePaths, take, everyone, bind, Except.bind, handlePath]
  by_cases call : op = .callOps
  · rw [if_pos call, if_true]
    exact .called pc' some all call
  · rw [if_neg call]
    by_cases ret : op = .retOps ∧ top.type = .call
    · rw [if_pos ret, if_true, List.tail_cons]
      have outcome : UpdateCase nextPc active recvgPc op top rest (returnTo pc' rest) :=
        .returned pc' some all ret.2
      cases back : returnTo pc' rest with
      | error fault => rwa [back] at outcome
      | ok stack => rwa [back] at outcome
    · rw [if_neg ret]
      by_cases joins : pc' = top.recvgPc ∧ top.type ≠ .call
      · rw [if_pos joins]
        exact .reconverged (joins.1 ▸ all) (by cases kind : top.type <;> simp_all) some
      · rw [if_neg joins]
        simp
        exact .moved pc' some all (by tauto)

/-- The operations that have no case of their own. -/
def PathLoop.Plain (loop : PathLoop w) : Prop :=
  loop.nextInstOp ≠ .callOps ∧ ¬ (loop.nextInstOp = .retOps ∧ loop.topType = .call)

section Handle

variable {loop : PathLoop w} {pc : AddressType} {mask : SimtMask w} {state : PathState w} {back : SimtStackEntry w}

theorem handlePath_joins (plain : loop.Plain) (joins : pc = loop.topRecvgPc ∧ loop.topType ≠ .call) :
    handlePath loop pc mask state = .ok (.next state) := by
  rw [handlePath, if_neg plain.1, if_neg plain.2, if_pos joins]

/-- Every path that does not reconverge after the first. -/
theorem handlePath_diverged (plain : loop.Plain) (stays : ¬ (pc = loop.topRecvgPc ∧ loop.topType ≠ .call))
    (diverged : state.warpDiverged = true) :
    handlePath loop pc mask state =
      if pc = state.newRecvgPc then .ok (.next state) else .next <$> updateTop loop pc mask state := by
  rw [handlePath, if_neg plain.1, if_neg plain.2, if_neg stays, if_neg (by simp [diverged])]
  simp only [bind, Except.bind, diverged, true_and]
  rfl

theorem handlePath_diverges (plain : loop.Plain) (stays : ¬ (pc = loop.topRecvgPc ∧ loop.topType ≠ .call))
    (many : 1 < loop.numDivergentPaths) (whole : state.warpDiverged = false) {split : PathState w}
    (diverges : diverge loop state = .ok split) :
    handlePath loop pc mask state =
      if split.warpDiverged ∧ pc = split.newRecvgPc then .ok (.next split)
      else .next <$> updateTop loop pc mask split := by
  rw [handlePath, if_neg plain.1, if_neg plain.2, if_neg stays, if_pos (by simp [whole, many]), diverges]
  rfl

theorem diverge_in_place (same : loop.recvgPc = loop.topRecvgPc) :
    diverge loop state = .ok { state with warpDiverged := true, newRecvgPc := loop.topRecvgPc } := by
  rw [diverge, if_neg (by simpa using same), same]

theorem diverge_over (beyond : loop.recvgPc ≠ loop.topRecvgPc) (stack : state.stack = back :: rest) :
    diverge loop state = .ok { state with
      stack := { lineage := rest.length :: back.lineage } :: { back with pc := loop.recvgPc } :: rest
      warpDiverged := true
      newRecvgPc := loop.recvgPc } := by
  rw [diverge, if_pos beyond, stack]

theorem updateTop_diverged (diverged : state.warpDiverged = true) (stack : state.stack = back :: rest) :
    updateTop loop pc mask state = .ok { state with
      stack := { lineage := back.lineage } ::
        { back with pc, activeMask := mask, recvgPc := state.newRecvgPc } :: rest } := by
  rw [updateTop, stack]
  simp only [diverged, if_true]

end Handle

/-- The second path of two is taken after the fall-through path. -/
theorem secondPath {pc pc' : AddressType} (apart : pc ≠ pc') {map : PathMap w}
    (left : PathsLeft nextPc active [pc, pc'] map) (chosen : notTakenPc ∈ [pc, pc'] → pc = notTakenPc) :
    takePath notTakenPc 1 (map.erase pc) =
      .ok (pc', goingTo nextPc active pc', (map.erase pc).erase pc') := by
  have passed : notTakenPc ∉ [pc'] := by
    intro mem
    have same := chosen (by simp_all)
    simp_all
  obtain ⟨other, mem, -, take⟩ := takePath_spec (left.pair apart) (by simp) notTakenPc (i := 1)
    (fun mem => absurd mem passed)
  obtain rfl := List.mem_singleton.mp mem
  exact take

theorem orderedPaths {pc pc' : AddressType} (apart : pc ≠ pc') {map : PathMap w}
    (two : ∀ i ∈ active, nextPc i = pc ∨ nextPc i = pc')
    (some : (goingTo nextPc active pc).Nonempty) (some' : (goingTo nextPc active pc').Nonempty)
    (left : PathsLeft nextPc active [pc, pc'] map) (chosen : notTakenPc ∈ [pc, pc'] → pc = notTakenPc)
    (take : takePath notTakenPc 0 map = .ok (pc, goingTo nextPc active pc, map.erase pc))
    (plain : (⟨top.recvgPc, top.type, recvgPc, op, notTakenPc, 2⟩ : PathLoop w).Plain)
    (bottom : top.type = .call → top.recvgPc = nullPc) (real : pc ≠ nullPc ∧ pc' ≠ nullPc)
    (join : pc = top.recvgPc ∨ pc' = top.recvgPc → recvgPc = top.recvgPc) :
    UpdateCase nextPc active recvgPc op top rest
      (handlePaths ⟨top.recvgPc, top.type, recvgPc, op, notTakenPc, 2⟩ [0, 1]
        { stack := top :: rest, divergentPaths := map }) := by
  have take' := secondPath apart left chosen
  have stays : ∀ {pc}, pc ≠ nullPc → ¬ (pc = top.recvgPc ∧ top.type ≠ .call) → pc ≠ top.recvgPc := by
    rintro pc real joins rfl
    exact real (bottom (by tauto))
  have swapped : ∀ i ∈ active, nextPc i = pc' ∨ nextPc i = pc := fun i mem => (two i mem).symm
  simp only [handlePaths, take, bind, Except.bind]
  by_cases first : pc = top.recvgPc ∧ top.type ≠ .call
  · have at_recvg := join (.inl first.1)
    have second : ¬ (pc' = top.recvgPc ∧ top.type ≠ .call) := fun second => apart
      (first.1.trans second.1.symm)
    have second_stays := stays real.2 second
    rw [handlePath_joins plain first]
    simp only [take']
    rw [handlePath_diverges plain second (by simp) rfl (diverge_in_place at_recvg), if_neg
      (by simp [second_stays]),
      updateTop_diverged rfl rfl]
    exact .joined pc' some' (by cases kind : top.type <;> simp_all) (first.1 ▸ swapped) second_stays
  · have first_stays := stays real.1 first
    by_cases second : pc' = top.recvgPc ∧ top.type ≠ .call
    · have at_recvg := join (.inr second.1)
      rw [handlePath_diverges plain first (by simp) rfl (diverge_in_place at_recvg), if_neg
        (by simp [first_stays]),
        updateTop_diverged rfl rfl]
      simp only [Functor.map, Except.map, take']
      rw [handlePath_joins plain second]
      exact .joined pc some (by cases kind : top.type <;> simp_all) (second.1 ▸ two) first_stays
    · have second_stays := stays real.2 second
      by_cases beyond : recvgPc = top.recvgPc
      · rw [handlePath_diverges plain first (by simp) rfl (diverge_in_place beyond), if_neg
          (by simp [first_stays]),
          updateTop_diverged rfl rfl]
        simp only [Functor.map, Except.map, take']
        rw [handlePath_diverged plain second rfl, if_neg second_stays, updateTop_diverged rfl rfl]
        exact .splitInPlace pc pc' some some' two apart first_stays second_stays
      · rw [handlePath_diverges plain first (by simp) rfl (diverge_over beyond rfl)]
        by_cases first_recvg : pc = recvgPc
        · rw [if_pos (by simp [first_recvg])]
          simp only [take']
          rw [handlePath_diverged plain second rfl, if_neg (first_recvg ▸ apart.symm),
            updateTop_diverged rfl rfl]
          exact .joinedOver pc' some' (first_recvg ▸ swapped) (first_recvg ▸ apart.symm) beyond
        · rw [if_neg (by simp [first_recvg]), updateTop_diverged rfl rfl]
          simp only [Functor.map, Except.map, take']
          rw [handlePath_diverged plain second rfl]
          by_cases second_recvg : pc' = recvgPc
          · rw [if_pos second_recvg]
            exact .joinedOver pc some (second_recvg ▸ two) first_recvg beyond
          · rw [if_neg second_recvg, updateTop_diverged rfl rfl]
            exact .splitOver pc pc' some some' two apart first_recvg second_recvg beyond
/-- What the caller of `update` promises about the instruction that the warp executed
at its top entry. -/
structure Executed (threadDone : SimtMask w) (nextPc : Fin w → AddressType) (recvgPc : AddressType) (op : OpType)
    (top : SimtStackEntry w) : Prop where
  real : ∀ i ∈ top.activeMask, i ∉ threadDone → nextPc i ≠ nullPc
  two : ((top.activeMask \ threadDone).image nextPc).card ≤ 2
  single : op = .callOps ∨ op = .retOps ∧ top.type = .call →
    ((top.activeMask \ threadDone).image nextPc).card ≤ 1
  reconverges : ((top.activeMask \ threadDone).image nextPc).card = 2 →
    top.recvgPc ∈ (top.activeMask \ threadDone).image nextPc → recvgPc = top.recvgPc

theorem updateCase {threadDone : SimtMask w} (executed : Executed threadDone nextPc recvgPc op top)
    (some : top.activeMask.Nonempty) (bottom : top.type = .call → top.recvgPc = nullPc) (size : AddressType) :
    UpdateCase nextPc (top.activeMask \ threadDone) recvgPc op top rest
      (update threadDone nextPc recvgPc op size top.pc (top :: rest)) := by
  obtain ⟨pcs, map, paths, extracted⟩ := extractPaths_spec w top.activeMask
    (by simpa using Finset.card_le_univ top.activeMask) executed.real ∅ 0
  have left : PathsLeft nextPc (top.activeMask \ threadDone) pcs map := by
    intro pc
    simpa using paths.get pc
  have length := paths.length_eq
  have two := executed.two
  rw [update, if_neg (by simp), if_neg some.ne_empty, extracted]
  simp only [bind, Except.bind, Nat.zero_add]
  rw [if_pos (by omega)]
  match pcs, length with
  | [], length =>
      exact .finished (Finset.image_eq_empty.mp (Finset.card_eq_zero.mp length.symm))
  | [pc], length =>
      obtain ⟨i, mem, at_pc⟩ := (paths.mem pc).mp (by simp)
      exact onePath pc map
        (fun i mem => List.mem_singleton.mp ((paths.mem _).mpr ⟨i, mem, rfl⟩)) ⟨i, mem⟩ left
  | [a, b], length =>
      have apart : a ≠ b := by simpa using paths.nodup
      have cover : ∀ i ∈ top.activeMask \ threadDone, nextPc i = a ∨ nextPc i = b := by
        intro i mem
        simpa using (paths.mem _).mpr ⟨i, mem, rfl⟩
      have real : ∀ pc ∈ [a, b], pc ≠ nullPc := by
        intro pc mem
        obtain ⟨i, active, rfl⟩ := (paths.mem pc).mp mem
        rw [Finset.mem_sdiff] at active
        exact executed.real i active.1 active.2
      have join : ∀ pc ∈ [a, b], pc = top.recvgPc → recvgPc = top.recvgPc := by
        rintro pc mem rfl
        apply executed.reconverges length.symm
        rw [Finset.mem_image]
        exact (paths.mem _).mp mem
      have plain : (⟨top.recvgPc, top.type, recvgPc, op, top.pc + size, 2⟩ : PathLoop w).Plain := by
        constructor
        · intro call
          have := executed.single (.inl call)
          simp at length
          omega
        · intro ret
          have := executed.single (.inr ret)
          simp at length
          omega
      obtain ⟨pc, mem, chosen, take⟩ := takePath_spec left (by simp) (top.pc + size) (i := 0) (by simp)
      obtain ⟨pc', apart', same⟩ : ∃ pc', pc ≠ pc' ∧ ∀ x, x ∈ [a, b] ↔ x ∈ [pc, pc'] := by
        rcases List.mem_pair.mp mem with rfl | rfl
        · exact ⟨b, apart, fun _ => Iff.rfl⟩
        · exact ⟨a, apart.symm, fun _ => by simp [or_comm]⟩
      have left' : PathsLeft nextPc (top.activeMask \ threadDone) [pc, pc'] map := by
        intro x
        rw [left, if_congr (same x) rfl rfl]
      exact orderedPaths apart' (fun i mem => by simpa using (same _).mp (by simpa using cover i mem))
        (paths.nonempty ((same pc).mpr (by simp))) (paths.nonempty ((same pc').mpr (by simp))) left'
        (fun mem => chosen ((same _).mpr mem)) take plain bottom
        ⟨real _ ((same pc).mpr (by simp)), real _ ((same pc').mpr (by simp))⟩
        (by rintro (h | h) <;> exact join _ ((same _).mpr (by simp)) h)
  | _ :: _ :: _ :: _, length =>
      simp only [List.length_cons] at length
      omega

end Loop

end SimtStack

end GpgpuSim.Simt
