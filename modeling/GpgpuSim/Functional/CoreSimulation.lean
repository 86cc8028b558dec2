import GpgpuSim.Functional.Interleaving
import GpgpuSim.Transition.Outcomes
import Mathlib.Data.Finset.Card

/-! `functionalCoreSim`: the warps of a CTA take turns, one instruction each, and wait at barriers until no live
warp is short of one. -/
namespace GpgpuSim.Functional
open Simt Shader Transition

variable {w : Nat} {μ : Type}

/-- `functionalCoreSim` in the loop of `execute`. -/
structure CoreSim (w : Nat) (μ : Type) where
  machine : Machine w μ
  warpAtBarrier : Nat → Bool
  liveThreadCount : Nat → Nat

/-- The operations after which a warp waits; a fence is one of them. -/
def DecodedInst.isBarrier (inst : DecodedInst) : Bool := inst.op == .barrierOp || inst.op == .memoryBarrierOp

/-- An instruction and the warp that has executed it. -/
abbrev Turn := Nat × DecodedInst

namespace CoreSim

/-- `m_liveThreadCount[i]--`, in 32 bits. -/
def decrement (count : Nat) : Nat := if count = 0 then 2 ^ 32 - 1 else count - 1

def checkExecutionStatusAndUpdate (model : ThreadModel w μ) (i : Nat) (count : Nat) (lane : Fin w) (threads : μ) :
    Except ExecFault Nat :=
  .ok (if model.done threads i lane then decrement count else count)

/-- The branch of `executeWarp` for a warp that lives and does not wait. -/
def executeInst (model : ThreadModel w μ) (program : InstructionMemory) (i : Nat) (sim : CoreSim w μ) :
    Except ExecFault (CoreSim w μ × DecodedInst) := do
  let (top, inst) ← sim.machine.getExecuteWarp program i
  let ended ← model.executeWarpInst (checkExecutionStatusAndUpdate model i) inst i top.activeMask sim.machine.threads
    (sim.liveThreadCount i)
  let threads := if inst.isAtomic then model.doAtomic inst i ended.active ended.threads else ended.threads
  let warpAtBarrier := if inst.isBarrier then Function.update sim.warpAtBarrier i true else sim.warpAtBarrier
  let stack ← model.updateSimtStack threads i inst (sim.machine.simtStack i)
  return (⟨⟨threads, Function.update sim.machine.simtStack i stack⟩, warpAtBarrier,
    Function.update sim.liveThreadCount i ended.core⟩, inst)

/-- A pass of the `while` loop over the warps, with the turns that have been taken. -/
structure Pass (w : Nat) (μ : Type) where
  sim : CoreSim w μ
  someOneLive : Bool
  allAtBarrier : Bool
  turns : List Turn

def Pass.flag (pass : Pass w μ) (i : Nat) : Pass w μ :=
  { pass with
    someOneLive := pass.someOneLive || decide (pass.sim.liveThreadCount i > 0)
    allAtBarrier := pass.allAtBarrier && (pass.sim.warpAtBarrier i || decide (pass.sim.liveThreadCount i = 0)) }

def executeWarp (model : ThreadModel w μ) (program : InstructionMemory) (pass : Pass w μ) (i : Nat) :
    Except ExecFault (Pass w μ) :=
  if !pass.sim.warpAtBarrier i ∧ pass.sim.liveThreadCount i ≠ 0 then
    match pass.sim.executeInst model program i with
    | .error fault => .error fault
    | .ok (sim, inst) => .ok ({ pass with sim, turns := pass.turns ++ [(i, inst)] }.flag i)
  else .ok (pass.flag i)

def runPass (model : ThreadModel w μ) (program : InstructionMemory) (warpCount : Nat) (sim : CoreSim w μ) :
    Except ExecFault (Pass w μ) :=
  (List.range warpCount).foldlM (executeWarp model program) ⟨sim, false, true, []⟩

def releaseAll (warpCount : Nat) (sim : CoreSim w μ) : CoreSim w μ :=
  { sim with warpAtBarrier := fun i => if i < warpCount then false else sim.warpAtBarrier i }

/-- `execute` in at most `fuel` passes, without checkpoints; the turns of the passes in order. -/
def execute (model : ThreadModel w μ) (program : InstructionMemory) (warpCount : Nat) :
    Nat → CoreSim w μ → Except ExecFault (Option (CoreSim w μ) × List Turn)
  | 0, _ => .ok (none, [])
  | fuel + 1, sim => do
      let pass ← runPass model program warpCount sim
      if !pass.someOneLive then return (some pass.sim, pass.turns)
      else
        let (ended, turns) ← execute model program warpCount fuel
          (if pass.allAtBarrier then pass.sim.releaseAll warpCount else pass.sim)
        return (ended, pass.turns ++ turns)

/-- The lanes of a warp that live. -/
def liveCount (model : ThreadModel w μ) (m : μ) (i : Nat) : Nat :=
  (Finset.univ.filter fun lane => model.done m i lane = false).card

/-- `createWarp`; the threads that are not there count as finished. -/
def createWarp (model : ThreadModel w μ) (m : μ) (i : Nat) : Except ExecFault (Stack w × Nat) :=
  match (List.finRange w).head? with
  | none => .error .assertion
  | some first =>
      if model.done m i first then .error .assertion
      else .ok (SimtStack.launch (model.pc m i first) (Finset.univ.filter fun lane => model.done m i lane = false),
        liveCount model m i)

/-- `initializeCTA`, from the threads that it has initialized on. -/
def initializeCta (model : ThreadModel w μ) (warpCount : Nat) (m : μ) : Except ExecFault (CoreSim w μ) :=
  (List.range warpCount).foldlM (fun sim i => do
    let (stack, count) ← createWarp model m i
    return ⟨⟨m, Function.update sim.machine.simtStack i stack⟩, sim.warpAtBarrier,
      Function.update sim.liveThreadCount i count⟩) ⟨⟨m, fun _ => []⟩, fun _ => false, fun _ => 0⟩

/-! ## One turn -/

variable {model : ThreadModel w μ} {program : InstructionMemory} {sim next : CoreSim w μ} {pass ended : Pass w μ}
  {i j warpCount : Nat} {inst : DecodedInst} {m : μ} {start : Machine w μ}

theorem liveCount_pos : 0 < liveCount model m i ↔ Machine.Live model m i := by
  rw [liveCount, Finset.card_pos]
  constructor
  · rintro ⟨lane, member⟩
    exact ⟨lane, by simpa using member⟩
  · rintro ⟨lane, live⟩
    exact ⟨lane, by simpa using live⟩

theorem liveCount_congr {m' : μ} (same : ∀ lane, model.done m' i lane = model.done m i lane) :
    liveCount model m' i = liveCount model m i := by
  unfold liveCount
  simp only [same]

/-- A lane that executes takes itself out of the count when it finishes. -/
theorem liveCount_execInst {lane : Fin w} (live : model.done m i lane = false) :
    (if model.done (model.execInst inst i lane m).1 i lane then decrement (liveCount model m i)
      else liveCount model m i) =
      liveCount model (model.execInst inst i lane m).1 i := by
  have others : ∀ other, other ≠ lane →
      model.done (model.execInst inst i lane m).1 i other = model.done m i other := by
    intro other apart
    refine (model.own inst i lane m i other ?_).2
    rintro ⟨⟩
    exact apart rfl
  have positive : 0 < liveCount model m i := liveCount_pos.mpr ⟨lane, live⟩
  split
  next finished =>
    have erased : (Finset.univ.filter fun other => model.done (model.execInst inst i lane m).1 i other = false) =
        (Finset.univ.filter fun other => model.done m i other = false).erase lane := by
      ext other
      by_cases same : other = lane
      · subst same
        simp [finished]
      · simp [same, others other same]
    rw [decrement, if_neg positive.ne']
    unfold liveCount
    rw [erased, Finset.card_erase_of_mem (by simpa using live)]
  next lives =>
    rw [Bool.not_eq_true] at lives
    refine (liveCount_congr ?_).symm
    intro other
    by_cases same : other = lane
    · rw [same, lives, live]
    · exact others other same

/-- What a turn has done. -/
structure Took (model : ThreadModel w μ) (program : InstructionMemory) (i : Nat) (sim : CoreSim w μ)
    (inst : DecodedInst) (next : CoreSim w μ) : Prop where
  counted : sim.liveThreadCount i = liveCount model sim.machine.threads i →
    next.liveThreadCount i = liveCount model next.machine.threads i
  falls : Machine.Live model next.machine.threads i → Machine.Live model sim.machine.threads i
  own : next.warpAtBarrier i = (sim.warpAtBarrier i || inst.isBarrier)
  others : ∀ j, j ≠ i → (∀ lane, model.done next.machine.threads j lane = model.done sim.machine.threads j lane) ∧
    next.liveThreadCount j = sim.liveThreadCount j ∧ next.warpAtBarrier j = sim.warpAtBarrier j
  stepped : inst.isAtomic = false → sim.machine.step model program i = .ok next.machine
  fetched : ∃ pc, program.fetch pc = some inst

/-- The count after the lanes of an instruction. -/
theorem counted_executeWarpInst {mask : SimtMask w} {loop : ThreadModel.LaneLoop w μ Nat}
    (done : model.executeWarpInst (checkExecutionStatusAndUpdate model i) inst i mask m
      (liveCount model m i) = .ok loop) :
    loop.core = liveCount model loop.threads i := by
  refine (ThreadModel.foldlM_visitLane (List.nodup_finRange w) (P := fun _ count m => count = liveCount model m i)
    ?_ (fun _ _ _ _ _ same => same) rfl done).1
  rintro loop next lane rest visited - same
  have checked := Except.ok.inj visited.checked
  rw [← checked, visited.threads, same]
  exact liveCount_execInst visited.live

/-- An instruction revives no thread. -/
theorem live_of_execWarp {mask : SimtMask w} (live : ∀ lane ∈ mask, model.done m i lane = false)
    (lives : Machine.Live model (model.execWarp inst i mask m) j) : Machine.Live model m j := by
  obtain ⟨lane, lives⟩ := lives
  by_cases apart : j = i
  · subst apart
    by_cases active : lane ∈ mask
    · exact ⟨lane, live lane active⟩
    · exact ⟨lane, (ThreadModel.execWarp_idle active).2 ▸ lives⟩
  · exact ⟨lane, (ThreadModel.execWarp_other apart lane).2 ▸ lives⟩

theorem executeInst_took (done : sim.executeInst model program i = .ok (next, inst)) :
    Took model program i sim inst next := by
  obtain ⟨⟨top, fetched⟩, found, done⟩ := bind_ok.mp done
  obtain ⟨loop, executed, done⟩ := bind_ok.mp done
  obtain ⟨stack, updated, done⟩ := bind_ok.mp done
  cases pure_ok.mp done
  have whole := ThreadModel.executeWarpInst_ok executed
  have doneSame : ∀ j lane, model.done (if inst.isAtomic then model.doAtomic inst i loop.active loop.threads
      else loop.threads) j lane = model.done loop.threads j lane := by
    intro j lane
    split
    · exact (model.atomic inst i loop.active loop.threads j lane).2
    · rfl
  refine ⟨?_, ?_, ?_, ?_, ?_, ⟨top.pc, (Machine.getExecuteWarp_ok found).2.1⟩⟩
  · intro counted
    rw [counted] at executed
    dsimp only
    rw [Function.update_self, counted_executeWarpInst executed]
    exact (liveCount_congr (doneSame i)).symm
  · rintro ⟨lane, lives⟩
    dsimp only at lives
    rw [doneSame, whole.threads] at lives
    exact live_of_execWarp whole.live ⟨lane, lives⟩
  · dsimp only
    split
    next barrier => rw [Function.update_self, barrier, Bool.or_true]
    next other => rw [Bool.not_eq_true _ |>.mp other, Bool.or_false]
  · intro j apart
    refine ⟨fun lane => ?_, Function.update_of_ne apart _ _, ?_⟩
    · dsimp only
      rw [doneSame, whole.threads]
      exact (ThreadModel.execWarp_other apart lane).2
    · dsimp only
      split
      · exact Function.update_of_ne apart _ _
      · rfl
  · intro plain
    simp only [plain, Bool.false_eq_true, if_false] at updated ⊢
    rw [Machine.step, found]
    exact bind_ok.mpr ⟨_, rfl, bind_ok.mpr ⟨_, ThreadModel.executeWarpInst_unchecked executed,
      bind_ok.mpr ⟨stack, updated, rfl⟩⟩⟩

/-! ## Turns and barriers -/

/-- The barriers that a warp has come to. -/
def barriers (turns : List Turn) (i : Nat) : Nat := turns.countP fun turn => turn.1 == i && turn.2.isBarrier

/-- Where the simulation stands after the turns, `n` barriers having been passed. A warp that has a turn left has
come to as many barriers as any other that has taken a turn since. Without atomic operations the turns are moves
of the machine. -/
structure Phase (model : ThreadModel w μ) (program : InstructionMemory) (warpCount : Nat) (start : Machine w μ)
    (n : Nat) (turns : List Turn) (sim : CoreSim w μ) : Prop where
  counted : ∀ i < warpCount, sim.liveThreadCount i = liveCount model sim.machine.threads i
  reached : ∀ i < warpCount, Machine.Live model sim.machine.threads i →
    barriers turns i = n + if sim.warpAtBarrier i then 1 else 0
  ordered : ∀ before turn after, turns = before ++ turn :: after → ∀ j < warpCount,
    (Machine.Live model sim.machine.threads j ∨ ∃ later ∈ after, later.1 = j) →
      barriers before turn.1 ≤ barriers before j
  scheduled : (∀ turn ∈ turns, turn.2.isAtomic = false) →
    runSchedule (Machine.move model program) (turns.map Prod.fst) start = some sim.machine

theorem barriers_append (turns : List Turn) (turn : Turn) (i : Nat) :
    barriers (turns ++ [turn]) i = barriers turns i + if turn.1 = i ∧ turn.2.isBarrier then 1 else 0 := by
  rw [barriers, List.countP_append, List.countP_singleton, barriers]
  simp

theorem Took.live (took : Took model program i sim inst next) (lives : Machine.Live model next.machine.threads j) :
    Machine.Live model sim.machine.threads j := by
  by_cases apart : j = i
  · subst apart
    exact took.falls lives
  · obtain ⟨lane, lives⟩ := lives
    exact ⟨lane, (took.others j apart).1 lane ▸ lives⟩

theorem Phase.take {turns : List Turn} {n : Nat} (phase : Phase model program warpCount start n turns sim)
    (took : Took model program i sim inst next) (inside : i < warpCount)
    (lives : Machine.Live model sim.machine.threads i) (free : sim.warpAtBarrier i = false) :
    Phase model program warpCount start n (turns ++ [(i, inst)]) next where
  counted j within := by
    by_cases apart : j = i
    · subst apart
      exact took.counted (phase.counted j within)
    · obtain ⟨same, count, -⟩ := took.others j apart
      rw [count, phase.counted j within]
      exact (liveCount_congr same).symm
  reached j within live := by
    have before := phase.reached j within (took.live live)
    rw [barriers_append]
    by_cases apart : j = i
    · subst apart
      rw [before, free, took.own, free]
      cases inst.isBarrier <;> simp
    · have idle : ¬((i, inst).1 = j ∧ (i, inst).2.isBarrier = true) := fun same => apart same.1.symm
      rw [before, (took.others j apart).2.2, if_neg idle, Nat.add_zero]
  ordered before turn after split j within still := by
    have here := phase.reached i inside lives
    rw [free, if_neg Bool.false_ne_true] at here
    rcases List.eq_nil_or_concat' after with rfl | ⟨earlier, last, rfl⟩
    · obtain ⟨rfl, same⟩ := List.append_inj' split rfl
      obtain rfl := (List.cons.inj same).1
      have living : Machine.Live model sim.machine.threads j := by
        rcases still with live | ⟨later, member, -⟩
        · exact took.live live
        · simp at member
      have reached := phase.reached j within living
      dsimp only
      omega
    · have whole : turns ++ [(i, inst)] = (before ++ turn :: earlier) ++ [last] := by simpa using split
      obtain ⟨rfl, same⟩ := List.append_inj' whole rfl
      obtain rfl := (List.cons.inj same).1
      apply phase.ordered before turn earlier rfl j within
      rcases still with live | ⟨later, member, same⟩
      · exact .inl (took.live live)
      · rcases List.mem_append.mp member with inside | last
        · exact .inr ⟨later, inside, same⟩
        · obtain rfl := List.mem_singleton.mp last
          obtain rfl : i = j := same
          exact .inl lives
  scheduled plain := by
    have stepped := took.stepped (plain (i, inst) (by simp))
    rw [List.map_append, runSchedule_append]
    refine ⟨_, phase.scheduled fun turn member => plain turn (List.mem_append_left _ member), ?_⟩
    refine runSchedule_cons.mpr ⟨next.machine, ?_, rfl⟩
    rw [Machine.move, if_pos lives, stepped]
    rfl

/-! ## A pass -/

/-- A pass that has come to warp `k`: the flags are right about the warps before it, and a warp that was free when
the pass began, as there is one where any lives, has had its turn or still is. -/
structure Passing (model : ThreadModel w μ) (program : InstructionMemory) (warpCount : Nat) (start : Machine w μ)
    (n : Nat) (history : List Turn) (free : Option Nat) (k : Nat) (pass : Pass w μ) : Prop where
  phase : Phase model program warpCount start n (history ++ pass.turns) pass.sim
  someOneLive : pass.someOneLive = true ↔ ∃ i < k, Machine.Live model pass.sim.machine.threads i
  allAtBarrier : pass.allAtBarrier = true ↔
    ∀ i < k, Machine.Live model pass.sim.machine.threads i → pass.sim.warpAtBarrier i = true
  turn : ∀ i, free = some i → pass.turns ≠ [] ∨
    k ≤ i ∧ Machine.Live model pass.sim.machine.threads i ∧ pass.sim.warpAtBarrier i = false
  ended : free = none → ∀ i < warpCount, ¬ Machine.Live model pass.sim.machine.threads i

theorem Passing.flag {n k : Nat} {history : List Turn} {free : Option Nat}
    (phase : Phase model program warpCount start n (history ++ pass.turns) pass.sim) (inside : k < warpCount)
    (someOneLive : pass.someOneLive = true ↔ ∃ i < k, Machine.Live model pass.sim.machine.threads i)
    (allAtBarrier : pass.allAtBarrier = true ↔
      ∀ i < k, Machine.Live model pass.sim.machine.threads i → pass.sim.warpAtBarrier i = true)
    (turn : ∀ i, free = some i → pass.turns ≠ [] ∨
      k + 1 ≤ i ∧ Machine.Live model pass.sim.machine.threads i ∧ pass.sim.warpAtBarrier i = false)
    (ended : free = none → ∀ i < warpCount, ¬ Machine.Live model pass.sim.machine.threads i) :
    Passing model program warpCount start n history free (k + 1) (pass.flag k) where
  phase := phase
  turn := turn
  ended := ended
  someOneLive := by
    have here : pass.sim.liveThreadCount k > 0 ↔ Machine.Live model pass.sim.machine.threads k := by
      rw [phase.counted k inside]
      exact liveCount_pos
    simp only [Pass.flag, Bool.or_eq_true, decide_eq_true_eq, someOneLive, here, Nat.lt_succ_iff_lt_or_eq]
    constructor
    · rintro (⟨i, below, live⟩ | live)
      · exact ⟨i, .inl below, live⟩
      · exact ⟨k, .inr rfl, live⟩
    · rintro ⟨i, below | rfl, live⟩
      · exact .inl ⟨i, below, live⟩
      · exact .inr live
  allAtBarrier := by
    have here : pass.sim.liveThreadCount k = 0 ↔ ¬ Machine.Live model pass.sim.machine.threads k := by
      rw [phase.counted k inside, ← liveCount_pos]
      omega
    simp only [Pass.flag, Bool.and_eq_true, Bool.or_eq_true, decide_eq_true_eq, allAtBarrier, here,
      Nat.lt_succ_iff_lt_or_eq]
    constructor
    · rintro ⟨others, own⟩ i (below | rfl) live
      · exact others i below live
      · exact own.resolve_right fun gone => gone live
    · intro all
      refine ⟨fun i below => all i (.inl below), ?_⟩
      by_cases live : Machine.Live model pass.sim.machine.threads k
      · exact .inl (all k (.inr rfl) live)
      · exact .inr live

theorem Passing.executeWarp {n k : Nat} {history : List Turn} {free : Option Nat} (inside : k < warpCount)
    (passing : Passing model program warpCount start n history free k pass) :
    Ends (executeWarp model program pass k) (Passing model program warpCount start n history free (k + 1))
      fun _ => True := by
  have lives : pass.sim.liveThreadCount k ≠ 0 ↔ Machine.Live model pass.sim.machine.threads k := by
    rw [passing.phase.counted k inside, ← liveCount_pos]
    omega
  rw [CoreSim.executeWarp]
  split
  next ready =>
    rw [Bool.not_eq_true', lives] at ready
    cases ran : pass.sim.executeInst model program k with
    | error fault => trivial
    | ok result =>
        obtain ⟨next, inst⟩ := result
        have took := executeInst_took ran
        have same : ∀ i < k, (Machine.Live model next.machine.threads i ↔
            Machine.Live model pass.sim.machine.threads i) ∧ next.warpAtBarrier i = pass.sim.warpAtBarrier i := by
          intro i below
          obtain ⟨done, -, barrier⟩ := took.others i below.ne
          exact ⟨by simp only [Machine.Live, done], barrier⟩
        refine Passing.flag ?_ inside ?_ ?_ ?_ ?_
        · rw [← List.append_assoc]
          exact passing.phase.take took inside ready.2 ready.1
        · dsimp only
          rw [passing.someOneLive]
          exact exists_congr fun i => and_congr_right fun below => (same i below).1.symm
        · dsimp only
          rw [passing.allAtBarrier]
          refine forall_congr' fun i => forall_congr' fun below => ?_
          rw [(same i below).1, (same i below).2]
        · intro i _
          exact .inl (by simp)
        · intro absent i within live
          exact passing.ended absent i within (took.live live)
  next idle =>
    refine Passing.flag passing.phase inside passing.someOneLive passing.allAtBarrier ?_ passing.ended
    intro i chosen
    rcases passing.turn i chosen with taken | ⟨below, live, open_⟩
    · exact .inl taken
    · refine .inr ⟨?_, live, open_⟩
      refine Nat.lt_of_le_of_ne below ?_
      rintro rfl
      exact idle ⟨by rw [open_]; rfl, lives.mpr live⟩

theorem runPass_passing {n : Nat} {history : List Turn} {free : Option Nat}
    (phase : Phase model program warpCount start n history sim)
    (ready : ∀ i, free = some i → Machine.Live model sim.machine.threads i ∧ sim.warpAtBarrier i = false)
    (ended : free = none → ∀ i < warpCount, ¬ Machine.Live model sim.machine.threads i) :
    Ends (runPass model program warpCount sim) (Passing model program warpCount start n history free warpCount)
      fun _ => True := by
  refine Ends.foldlM_range ?_ fun k inside pass passing => passing.executeWarp inside
  exact {
    phase := by simpa using phase
    someOneLive := by simp
    allAtBarrier := by simp
    turn := fun i chosen => .inr ⟨Nat.zero_le i, ready i chosen⟩
    ended := ended }

/-! ## The whole loop -/

variable {n fuel : Nat} {history : List Turn}

/-- Some warp is free as long as one lives. -/
def Awake (model : ThreadModel w μ) (warpCount : Nat) (sim : CoreSim w μ) : Prop :=
  (∃ i < warpCount, Machine.Live model sim.machine.threads i) →
    ∃ i < warpCount, Machine.Live model sim.machine.threads i ∧ sim.warpAtBarrier i = false

/-- The next pass begins with a free warp, be it that all have been released. -/
theorem Passing.nextPass {free : Option Nat}
    (passing : Passing model program warpCount start n history free warpCount pass)
    (someone : pass.someOneLive = true) :
    ∃ m, Phase model program warpCount start m (history ++ pass.turns)
        (if pass.allAtBarrier then pass.sim.releaseAll warpCount else pass.sim) ∧
      Awake model warpCount (if pass.allAtBarrier then pass.sim.releaseAll warpCount else pass.sim) := by
  obtain ⟨first, inside, live⟩ := passing.someOneLive.mp someone
  cases all : pass.allAtBarrier with
  | true =>
      have waiting := passing.allAtBarrier.mp all
      refine ⟨n + 1, ⟨passing.phase.counted, ?_, passing.phase.ordered, passing.phase.scheduled⟩,
        fun _ => ⟨first, inside, live, ?_⟩⟩
      · intro i within lives
        have reached := passing.phase.reached i within lives
        rw [waiting i within lives] at reached
        simpa [releaseAll, within] using reached
      · simp [releaseAll, inside]
  | false =>
      refine ⟨n, passing.phase, fun _ => ?_⟩
      by_contra none
      refine absurd (passing.allAtBarrier.mpr fun i _ lives => ?_) (by simp [all])
      by_contra open_
      exact none ⟨i, by assumption, lives, by simpa using open_⟩

/-- What the turns of `execute` are like. -/
structure Ran (model : ThreadModel w μ) (program : InstructionMemory) (warpCount : Nat) (start : Machine w μ)
    (history : List Turn) (fuel : Nat) (result : Option (CoreSim w μ) × List Turn) : Prop where
  ordered : ∀ before turn after, history ++ result.2 = before ++ turn :: after → ∀ j < warpCount,
    (∃ later ∈ after, later.1 = j) → barriers before turn.1 ≤ barriers before j
  progress : result.1 = none → fuel ≤ result.2.length
  finished : ∀ ended, result.1 = some ended → ∀ i < warpCount, ¬ Machine.Live model ended.machine.threads i
  scheduled : (∀ turn ∈ history ++ result.2, turn.2.isAtomic = false) →
    ∃ t, runSchedule (Machine.move model program) ((history ++ result.2).map Prod.fst) start = some t ∧
      ∀ ended, result.1 = some ended → ended.machine = t

theorem Phase.execute (phase : Phase model program warpCount start n history sim) (awake : Awake model warpCount sim) :
    Ends (execute model program warpCount fuel sim) (Ran model program warpCount start history fuel) fun _ => True := by
  induction fuel generalizing sim n history with
  | zero =>
      refine ⟨?_, fun _ => Nat.zero_le _, nofun, ?_⟩
      · intro before turn after split j within later
        rw [List.append_nil] at split
        exact phase.ordered before turn after split j within (.inr later)
      · intro plain
        rw [List.append_nil] at plain ⊢
        exact ⟨sim.machine, phase.scheduled plain, nofun⟩
  | succ fuel ih =>
      have first : ∃ free : Option Nat, (∀ i, free = some i → i < warpCount ∧
          Machine.Live model sim.machine.threads i ∧ sim.warpAtBarrier i = false) ∧
          (free = none → ∀ i < warpCount, ¬ Machine.Live model sim.machine.threads i) := by
        by_cases living : ∃ i < warpCount, Machine.Live model sim.machine.threads i
        · obtain ⟨i, within, live, open_⟩ := awake living
          refine ⟨some i, ?_, nofun⟩
          rintro _ ⟨⟩
          exact ⟨within, live, open_⟩
        · exact ⟨none, nofun, fun _ i within live => living ⟨i, within, live⟩⟩
      obtain ⟨free, ready, ended⟩ := first
      rw [CoreSim.execute]
      refine (runPass_passing phase (fun i chosen => (ready i chosen).2) ended).bind fun pass passing => ?_
      cases someone : pass.someOneLive with
      | false =>
          refine ⟨?_, by simp, ?_, ?_⟩
          · intro before turn after split j within later
            exact passing.phase.ordered before turn after split j within (.inr later)
          · rintro ended ⟨⟩ i within live
            have told := passing.someOneLive.mpr ⟨i, within, live⟩
            rw [someone] at told
            contradiction
          · intro plain
            refine ⟨pass.sim.machine, passing.phase.scheduled plain, ?_⟩
            rintro ended ⟨⟩
            rfl
      | true =>
          obtain ⟨m, next, awake⟩ := passing.nextPass someone
          have took : pass.turns ≠ [] := by
            obtain ⟨i, within, live⟩ := passing.someOneLive.mp someone
            cases free with
            | none => exact absurd live (passing.ended rfl i within)
            | some i =>
                rcases passing.turn i rfl with taken | ⟨beyond, -, -⟩
                · exact taken
                · exact absurd (ready i rfl).1 (Nat.not_lt.mpr beyond)
          refine (ih next awake).bind fun result ran => ?_
          refine ⟨?_, ?_, ran.finished, ?_⟩
          · simpa only [List.append_assoc] using ran.ordered
          · intro absent
            have enough := ran.progress absent
            have some_turn := List.length_pos_iff.mpr took
            rw [List.length_append]
            omega
          · simpa only [List.append_assoc] using ran.scheduled

/-- `initializeCTA` has the stacks launched and the live threads counted. -/
theorem initializeCta_ok (done : initializeCta model warpCount m = .ok sim) :
    sim.machine.threads = m ∧ (∀ i, sim.warpAtBarrier i = false) ∧
      ∀ i < warpCount, sim.liveThreadCount i = liveCount model m i := by
  suffices ends : Ends (initializeCta model warpCount m) (fun sim : CoreSim w μ => sim.machine.threads = m ∧
      (∀ i, sim.warpAtBarrier i = false) ∧ ∀ i < warpCount, sim.liveThreadCount i = liveCount model m i)
        fun _ => True from
    ends.result done
  refine Ends.foldlM_range (P := fun k (sim : CoreSim w μ) => sim.machine.threads = m ∧
    (∀ i, sim.warpAtBarrier i = false) ∧
    ∀ i < k, sim.liveThreadCount i = liveCount model m i) ⟨rfl, fun _ => rfl, by simp⟩ ?_
  rintro k - sim ⟨threads, free, counted⟩
  have created : Ends (createWarp model m k) (fun created => created.2 = liveCount model m k) fun _ => True := by
    rw [createWarp]
    split
    · trivial
    · split
      · trivial
      · rfl
  refine created.bind fun created count => ⟨rfl, free, ?_⟩
  intro i below
  dsimp only
  by_cases here : i = k
  · subst here
    rw [Function.update_self, count]
  · rw [Function.update_of_ne here]
    exact counted i (by omega)

/-- The functional simulation of a CTA. Whenever a warp takes a turn, every warp that has one later has come to as many
barriers: no warp goes on from its barrier before all others that go on have reached theirs. The loop ends as soon
as its passes outnumber the turns, with no live thread; and without atomic operations its turns are one schedule
of the moves of the warps. -/
theorem execute_in_phases {result : Option (CoreSim w μ)} {turns : List Turn}
    (created : initializeCta model warpCount m = .ok sim)
    (ran : execute model program warpCount fuel sim = .ok (result, turns)) :
    (∀ before turn after, turns = before ++ turn :: after → ∀ j < warpCount, (∃ later ∈ after, later.1 = j) →
      barriers before turn.1 ≤ barriers before j) ∧
    (result = none → fuel ≤ turns.length) ∧
    (∀ ended, result = some ended → ∀ i < warpCount, ¬ Machine.Live model ended.machine.threads i) ∧
    ((∀ turn ∈ turns, turn.2.isAtomic = false) →
      ∃ t, runSchedule (Machine.move model program) (turns.map Prod.fst) sim.machine = some t ∧
        ∀ ended, result = some ended → ended.machine = t) := by
  obtain ⟨rfl, free, counted⟩ := initializeCta_ok created
  have phase : Phase model program warpCount sim.machine 0 [] sim := by
    refine ⟨counted, ?_, ?_, fun _ => rfl⟩
    · intro i within live
      simp [barriers, free i]
    · intro before turn after split
      simp at split
  have awake : Awake model warpCount sim := fun ⟨i, within, live⟩ => ⟨i, within, live, free i⟩
  obtain ⟨ordered, progress, finished, scheduled⟩ := (phase.execute awake).result ran
  exact ⟨ordered, progress, finished, scheduled⟩

/-! ## Fences -/

/-- Warp 0 comes to a barrier; warp 1 branches to a fence and a barrier behind it. -/
def fenceProgram : List DecodedInst :=
  [plainInst .branchOp 32, plainInst .barrierOp nullPc, plainInst .aluOp nullPc, plainInst .exitOps nullPc,
    plainInst .memoryBarrierOp nullPc, plainInst .barrierOp nullPc, plainInst .exitOps nullPc]

/-- The simulation of two warps from their start at PC 0, put to a test. -/
def testTwo (functions : List (List DecodedInst)) (fuel : Nat)
    (test : Option (CoreSim 1 (Nat → AddressType × Bool)) → List Turn → Bool) : Bool :=
  match InstructionMemory.assemble functions with
  | .error _ => false
  | .ok program => succeedsWith
      (initializeCta oneThread 2 (fun i => (0, decide (2 ≤ i))) >>= execute oneThread program 2 fuel) fun result =>
        test result.1 result.2

theorem exists_of_testTwo (functions : List (List DecodedInst)) (fuel : Nat)
    (test : Option (CoreSim 1 (Nat → AddressType × Bool)) → List Turn → Bool)
    (passed : testTwo functions fuel test = true) :
    ∃ program sim result turns, InstructionMemory.assemble functions = .ok program ∧
      initializeCta oneThread 2 (fun i => (0, decide (2 ≤ i))) = .ok sim ∧
      execute oneThread program 2 fuel sim = .ok (result, turns) ∧ test result turns = true := by
  rw [testTwo] at passed
  split at passed
  · contradiction
  next program assembled =>
    obtain ⟨⟨result, turns⟩, done, holds⟩ := exists_of_succeedsWith passed
    obtain ⟨sim, created, ran⟩ := bind_ok.mp done
    exact ⟨program, sim, result, turns, assembled, created, ran, holds⟩

theorem execute_in_phases_two : ∃ program sim ended turns,
    initializeCta oneThread 2 (fun i => (0, decide (2 ≤ i))) = .ok sim ∧
    execute oneThread program 2 8 sim = .ok (some ended, turns) ∧ turns.length = 8 ∧
    ∀ i < 2, ¬ Machine.Live oneThread ended.machine.threads i := by
  obtain ⟨program, sim, result, turns, -, created, ran, holds⟩ := exists_of_testTwo [fenceProgram] 8
    (fun result turns => result.isSome && turns.length == 8) rfl
  simp only [Bool.and_eq_true, Option.isSome_iff_exists, beq_iff_eq] at holds
  obtain ⟨⟨ended, rfl⟩, length⟩ := holds
  exact ⟨program, sim, ended, turns, created, ran, length, (execute_in_phases created ran).2.2.1 ended rfl⟩

/-- The barriers proper. -/
def barrierOps (turns : List Turn) (i : Nat) : Nat := turns.countP fun turn => turn.1 == i && turn.2.op == .barrierOp

/-- The barriers proper hold the warps of a CTA back where none of its warps comes to a fence. With fences they do
not: a warp is let go from its barrier by another that has come to a fence only. -/
theorem fences_release_barriers :
    (∀ {w : Nat} {μ : Type} {model : ThreadModel w μ} {program : InstructionMemory} {warpCount fuel : Nat} {m : μ}
      {sim : CoreSim w μ} {result : Option (CoreSim w μ)} {turns : List Turn},
      initializeCta model warpCount m = .ok sim → execute model program warpCount fuel sim = .ok (result, turns) →
      (∀ turn ∈ turns, turn.2.op ≠ .memoryBarrierOp) →
      ∀ before turn after, turns = before ++ turn :: after → ∀ j < warpCount, (∃ later ∈ after, later.1 = j) →
        barrierOps before turn.1 ≤ barrierOps before j) ∧
    ∃ program sim ended turns, initializeCta oneThread 2 (fun i => (0, decide (2 ≤ i))) = .ok sim ∧
      execute oneThread program 2 8 sim = .ok (some ended, turns) ∧
      ∃ before turn after, turns = before ++ turn :: after ∧ (∃ later ∈ after, later.1 = 1) ∧
        barrierOps before 1 < barrierOps before turn.1 := by
  refine ⟨?_, ?_⟩
  · intro w μ model program warpCount fuel m sim result turns created ran unfenced before turn after split j within
      later
    have same : ∀ i, barrierOps before i = barriers before i := by
      intro i
      refine List.countP_congr fun turn member => ?_
      have other := unfenced turn (by rw [split]; exact List.mem_append_left _ member)
      simp [DecodedInst.isBarrier, other]
    rw [same, same]
    exact (execute_in_phases created ran).1 before turn after split j within later
  · obtain ⟨program, sim, result, turns, -, created, ran, holds⟩ := exists_of_testTwo [fenceProgram] 8
      (fun result turns => result.isSome && (turns[4]?.any fun turn =>
        ((turns.drop 5).any fun later => later.1 == 1) &&
          decide (barrierOps (turns.take 4) 1 < barrierOps (turns.take 4) turn.1))) rfl
    simp only [Bool.and_eq_true, Option.isSome_iff_exists, Option.any_eq_true, List.any_eq_true, beq_iff_eq,
      decide_eq_true_eq] at holds
    obtain ⟨⟨ended, rfl⟩, turn, found, later, early⟩ := holds
    obtain ⟨inside, rfl⟩ := List.getElem?_eq_some_iff.mp found
    refine ⟨program, sim, ended, turns, created, ran, turns.take 4, turns[4], turns.drop 5, ?_, later, early⟩
    rw [List.cons_getElem_drop_succ, List.take_append_drop]

/-- Two warps meet at two barriers, and neither comes to a fence. -/
theorem fences_release_barriers_unfenced : ∃ program sim ended turns,
    initializeCta oneThread 2 (fun i => (0, decide (2 ≤ i))) = .ok sim ∧
    execute oneThread program 2 8 sim = .ok (some ended, turns) ∧ barrierOps turns 0 = 2 ∧ barrierOps turns 1 = 2 ∧
    ∀ before turn after, turns = before ++ turn :: after → ∀ j < 2, (∃ later ∈ after, later.1 = j) →
      barrierOps before turn.1 ≤ barrierOps before j := by
  obtain ⟨program, sim, result, turns, -, created, ran, holds⟩ := exists_of_testTwo
    [[plainInst .barrierOp nullPc, plainInst .aluOp nullPc, plainInst .barrierOp nullPc, plainInst .exitOps nullPc]] 8
    (fun result turns => result.isSome && (turns.all fun turn => decide (turn.2.op ≠ .memoryBarrierOp)) &&
      barrierOps turns 0 == 2 && barrierOps turns 1 == 2) rfl
  simp only [Bool.and_eq_true, Option.isSome_iff_exists, List.all_eq_true, decide_eq_true_eq, beq_iff_eq] at holds
  obtain ⟨⟨⟨⟨ended, rfl⟩, unfenced⟩, first⟩, second⟩ := holds
  exact ⟨program, sim, ended, turns, created, ran, first, second, fences_release_barriers.1 created ran unfenced⟩

end CoreSim

end GpgpuSim.Functional
