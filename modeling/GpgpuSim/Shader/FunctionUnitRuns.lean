import GpgpuSim.Shader.FunctionUnits
import GpgpuSim.Transition.Runs
import Mathlib.Data.List.Nodup

/-! The function units never collide. A bit of `occupied` stands for the instruction of a unit that is that
many cycles away from its result port, and the result buses together have as many bits at each distance as
the units have instructions there. -/
namespace GpgpuSim.Shader
open Transition Words

namespace RegisterSet

variable {regs next : RegisterSet} {inst : AluInst} {i n : Nat}

/-- The registers in use. -/
def inUse (regs : RegisterSet) : Nat := regs.countP Option.isSome

theorem inUse_set_some (free : regs[i]? = some none) : inUse (regs.set i (some inst)) = inUse regs + 1 := by
  induction regs generalizing i with
  | nil => simp at free
  | cons head rest ih =>
      cases i with
      | zero =>
          obtain rfl : head = none := by simpa using free
          simp [inUse]
      | succ i =>
          have later := ih (by simpa using free)
          simp only [inUse, List.set_cons_succ, List.countP_cons] at later ⊢
          omega

theorem inUse_set_none (ready : regs[i]? = some (some inst)) : inUse (regs.set i none) + 1 = inUse regs := by
  induction regs generalizing i with
  | nil => simp at ready
  | cons head rest ih =>
      cases i with
      | zero =>
          obtain rfl : head = some inst := by simpa using ready
          simp [inUse]
      | succ i =>
          have later := ih (by simpa using ready)
          simp only [inUse, List.set_cons_succ, List.countP_cons] at later ⊢
          omega

/-- What a set holds after `move_in`. -/
theorem moveIn_ok (moved : regs.moveIn inst = .ok next) :
    next.length = regs.length ∧ inUse next = inUse regs + 1 ∧
      ∀ other, some other ∈ next → other = inst ∨ some other ∈ regs := by
  unfold moveIn at moved
  split at moved
  · cases moved
  next i found =>
    cases moved
    obtain ⟨small, free, -⟩ := List.findIdx?_eq_some_iff_getElem.mp found
    have empty : regs[i]? = some none := by
      rw [List.getElem?_eq_getElem small, Option.isNone_iff_eq_none.mp free]
    refine ⟨List.length_set, inUse_set_some empty, fun other member => ?_⟩
    rcases List.mem_or_eq_of_mem_set member with before | same
    · exact .inr before
    · exact .inl (Option.some.inj same)

/-- `get_free` finds a register when one is empty. -/
theorem moveIn_free (free : inUse regs < regs.length) : ∃ next, regs.moveIn inst = .ok next := by
  unfold moveIn
  split
  next full =>
    rw [List.findIdx?_eq_none_iff] at full
    have all : inUse regs = regs.length := by
      refine List.countP_eq_length.mpr fun reg member => ?_
      have := full reg member
      cases reg <;> simp_all
    omega
  next i found => exact ⟨_, rfl⟩

theorem readyFrom_some {ready : Option (Nat × AluInst)} {j : Nat} (found : regs.readyFrom i ready = some (j, inst)) :
    ready = some (j, inst) ∨ ∃ k, j = i + k ∧ regs[k]? = some (some inst) := by
  induction regs generalizing i ready with
  | nil => exact .inl found
  | cons head rest ih =>
      have later : ∀ {ready}, readyFrom rest (i + 1) ready = some (j, inst) → ready = some (j, inst) ∨
          ∃ k, j = i + k ∧ (head :: rest)[k]? = some (some inst) := by
        intro ready found
        refine (ih found).imp_right fun ⟨k, place, entry⟩ => ⟨k + 1, by omega, ?_⟩
        rw [List.getElem?_cons_succ]
        exact entry
      cases head with
      | none => exact later found
      | some first =>
          simp only [readyFrom] at found
          rcases later found with same | entry
          · split at same
            · exact .inl same
            · cases same
              exact .inr ⟨0, by omega, rfl⟩
          · exact .inr entry

theorem readyFrom_none {ready : Option (Nat × AluInst)} (none_ready : regs.readyFrom i ready = none) :
    ready = none ∧ inUse regs = 0 := by
  induction regs generalizing i ready with
  | nil => exact ⟨none_ready, rfl⟩
  | cons head rest ih =>
      cases head with
      | none =>
          obtain ⟨none_before, unused⟩ := ih none_ready
          exact ⟨none_before, by simpa [inUse] using unused⟩
      | some first =>
          simp only [readyFrom] at none_ready
          have none_before := (ih none_ready).1
          split at none_before
          next older =>
            rw [none_before] at older
            cases older
          · cases none_before

theorem getReady_some (ready : regs.getReady = some (i, inst)) : regs[i]? = some (some inst) := by
  rcases readyFrom_some ready with before | ⟨k, rfl, entry⟩
  · cases before
  · rwa [Nat.zero_add]

/-- The loop of `writeback` empties the set. -/
theorem drain_ok (enough : inUse regs ≤ n) : (regs.drain n).length = regs.length ∧ inUse (regs.drain n) = 0 := by
  induction n generalizing regs with
  | zero => exact ⟨rfl, Nat.le_zero.mp enough⟩
  | succ n ih =>
      unfold drain
      split
      next none_ready => exact ⟨rfl, (readyFrom_none none_ready).2⟩
      next i inst ready =>
        have fewer := inUse_set_none (getReady_some ready)
        obtain ⟨length, empty⟩ := @ih (regs.set i none) (by omega)
        exact ⟨length.trans List.length_set, empty⟩

end RegisterSet

/-! ## A unit -/

/-- The instructions in the stages of a pipeline. -/
def inPipeline (depth : Nat) (regs : Nat → Option AluInst) : Nat := (List.range depth).countP fun s => (regs s).isSome

section InPipeline

variable {depth stage : Nat} {regs : Nat → Option AluInst} {inst : AluInst}

theorem inPipeline_shift (last : regs depth = none) :
    inPipeline depth (fun s => regs (s + 1)) + (regs 0).isSome.toNat = inPipeline depth regs := by
  have front : (List.range (depth + 1)).countP (fun s => (regs s).isSome) =
      inPipeline depth (fun s => regs (s + 1)) + (regs 0).isSome.toNat := by
    rw [List.range_succ_eq_map, List.countP_cons, List.countP_map]
    cases regs 0 <;> rfl
  rw [← front, List.range_succ, List.countP_append, List.countP_singleton, last]
  rfl

theorem inPipeline_pos (held : (regs stage).isSome = true) (inside : stage < depth) : 0 < inPipeline depth regs :=
  List.countP_pos_iff.mpr ⟨stage, List.mem_range.mpr inside, held⟩

theorem inPipeline_enter (free : regs stage = none) (inside : stage < depth) :
    inPipeline depth (Function.update regs stage (some inst)) = inPipeline depth regs + 1 := by
  induction depth with
  | zero => omega
  | succ depth ih =>
      simp only [inPipeline, List.range_succ, List.countP_append, List.countP_singleton] at ih ⊢
      by_cases here : stage = depth
      · subst here
        have before : (List.range stage).countP (fun s => (Function.update regs stage (some inst) s).isSome) =
            (List.range stage).countP fun s => (regs s).isSome := by
          refine List.countP_congr fun s member => ?_
          rw [Function.update_of_ne (by have := List.mem_range.mp member; omega)]
        rw [before, Function.update_self, free]
        rfl
      · rw [ih (by omega), Function.update_of_ne (Ne.symm here)]
        omega

end InPipeline

namespace SimdUnit

variable {unit next : SimdUnit} {port port' : RegisterSet} {inst : AluInst} {d : Nat}

/-- The instruction comes to the result port after that many cycles more than one. -/
def InFlight (unit : SimdUnit) (inst : AluInst) (d : Nat) : Prop :=
  unit.pipelineReg d = some inst ∨
    ∃ cycles, unit.dispatchReg = some (inst, cycles) ∧ d + inst.initiationInterval = inst.latency + cycles

/-- An instruction waits in the dispatch register for its place in the pipeline, and each bit of `occupied`
is for an instruction in flight. -/
structure Tidy (unit : SimdUnit) : Prop where
  stages : ∀ s, (unit.pipelineReg s).isSome = true → s < unit.pipelineDepth
  small : ∀ inst d, unit.InFlight inst d → d < maxAluLatency
  dispatch : ∀ inst cycles, unit.dispatchReg = some (inst, cycles) → 1 ≤ cycles ∧ cycles ≤ inst.initiationInterval ∧
    inst.initiationInterval ≤ inst.latency ∧ inst.latency ≤ unit.pipelineDepth
  apart : ∀ inst cycles, unit.dispatchReg = some (inst, cycles) →
    unit.pipelineReg (inst.latency - inst.initiationInterval + cycles) = none
  active : unit.activeInstsInPipeline = inPipeline unit.pipelineDepth unit.pipelineReg
  occupied : ∀ d, unit.occupied.getLsbD d = true ↔ ∃ inst, unit.InFlight inst d

theorem Tidy.create (kind : UnitKind) (maxLatency : Nat) : Tidy (create kind maxLatency) where
  stages _ held := by cases held
  small _ _ flight := by rcases flight with held | ⟨_, held, -⟩ <;> cases held
  dispatch _ _ held := by cases held
  apart _ _ held := by cases held
  active := (List.countP_eq_zero.mpr fun _ _ => Bool.false_ne_true).symm
  occupied d := by
    refine ⟨fun set => ?_, fun ⟨_, flight⟩ => ?_⟩
    · simp [SimdUnit.create] at set
    · rcases flight with held | ⟨_, held, -⟩ <;> cases held

theorem leave_ok (tidy : Tidy unit) (free : (unit.pipelineReg 0).isSome = true → port.inUse < port.length) :
    ∃ port', unit.leave port = .ok ({ unit with
          pipelineReg := Function.update unit.pipelineReg 0 none
          activeInstsInPipeline := unit.activeInstsInPipeline - (unit.pipelineReg 0).isSome.toNat },
        port', unit.pipelineReg 0) ∧
      port'.length = port.length ∧ port'.inUse = port.inUse + (unit.pipelineReg 0).isSome.toNat := by
  unfold leave
  cases first : unit.pipelineReg 0 with
  | none =>
      refine ⟨port, ?_, rfl, rfl⟩
      have same : Function.update unit.pipelineReg 0 none = unit.pipelineReg := by
        rw [← first, Function.update_eq_self]
      rw [same]
      rfl
  | some inst =>
      have held : (unit.pipelineReg 0).isSome = true := by rw [first]; rfl
      obtain ⟨port', moved⟩ := @RegisterSet.moveIn_free port inst (free held)
      obtain ⟨length, used, -⟩ := RegisterSet.moveIn_ok moved
      have active : unit.activeInstsInPipeline > 0 := tidy.active ▸ inPipeline_pos held (tidy.stages 0 held)
      refine ⟨port', ?_, length, used⟩
      simp only [moved, bind, Except.bind]
      rw [if_pos active]
      rfl

theorem shift_ok {n : Nat} {regs : Nat → Option AluInst} (first : regs 0 = none) :
    shift n regs = .ok fun s => if s < n then regs (s + 1) else if s = n then none else regs s := by
  induction n with
  | zero =>
      refine congrArg Except.ok (funext fun s => ?_)
      by_cases zero : s = 0 <;> simp [zero, first]
  | succ n ih =>
      simp only [shift, ih, bind, Except.bind, lt_irrefl, if_false, if_true]
      refine congrArg Except.ok (funext fun s => ?_)
      by_cases last : s = n + 1
      · subst last
        simp
      · rw [Function.update_of_ne last]
        by_cases moved : s = n
        · subst moved
          simp
        · rw [Function.update_of_ne moved]
          by_cases low : s < n
          · simp [low, Nat.lt_succ_of_lt low]
          · have high : ¬ s < n + 1 := by omega
            simp [low, high, moved, last]

/-- Every instruction moves to the stage before its own. -/
theorem advance_ok (first : unit.pipelineReg 0 = none)
    (stages : ∀ s, (unit.pipelineReg s).isSome = true → s < unit.pipelineDepth)
    (active : unit.activeInstsInPipeline = inPipeline unit.pipelineDepth unit.pipelineReg) :
    unit.advance = .ok { unit with pipelineReg := fun s => unit.pipelineReg (s + 1) } := by
  have beyond : ∀ s, unit.pipelineDepth ≤ s → unit.pipelineReg s = none := by
    intro s outside
    by_contra held
    have inside := stages s (Option.isSome_iff_ne_none.mpr held)
    omega
  unfold advance
  split
  · rw [shift_ok first]
    refine congrArg (fun regs => Except.ok { unit with pipelineReg := regs }) (funext fun s => ?_)
    split
    · rfl
    · rw [beyond (s + 1) (by omega)]
      split
      · rfl
      next low other => exact beyond s (by omega)
  next inactive =>
    have empty : ∀ s, unit.pipelineReg s = none := by
      intro s
      by_contra held
      have held := Option.isSome_iff_ne_none.mpr held
      have pos := inPipeline_pos held (stages s held)
      omega
    have same : (fun s => unit.pipelineReg (s + 1)) = unit.pipelineReg := by
      funext s
      rw [empty, empty]
    rw [same]

variable {moved : SimdUnit}

/-- Another unit whose instructions are one cycle further. -/
structure OneCycleOn (next unit : SimdUnit) : Prop where
  kind : next.kind = unit.kind
  pipelineDepth : next.pipelineDepth = unit.pipelineDepth
  flight : ∀ inst d, next.InFlight inst d ↔ unit.InFlight inst (d + 1)

/-- After the pipeline has moved, the dispatch register may give its instruction to it. -/
theorem dispatch_ok (tidy : Tidy unit) (pipeline : moved.pipelineReg = fun s => unit.pipelineReg (s + 1))
    (same_kind : moved.kind = unit.kind) (same_depth : moved.pipelineDepth = unit.pipelineDepth)
    (same_reg : moved.dispatchReg = unit.dispatchReg)
    (active : moved.activeInstsInPipeline = inPipeline moved.pipelineDepth moved.pipelineReg) :
    ∃ next, moved.dispatch = .ok next ∧ next.OneCycleOn unit ∧ next.occupied = moved.occupied ∧
      (∀ s, (next.pipelineReg s).isSome = true → s < next.pipelineDepth) ∧
      (∀ inst cycles, next.dispatchReg = some (inst, cycles) → 1 ≤ cycles ∧
        unit.dispatchReg = some (inst, cycles + 1) ∧ next.pipelineReg = moved.pipelineReg) ∧
      next.activeInstsInPipeline = inPipeline next.pipelineDepth next.pipelineReg := by
  have stages : ∀ s, (moved.pipelineReg s).isSome = true → s < moved.pipelineDepth := by
    intro s held
    rw [pipeline] at held
    rw [same_depth]
    exact Nat.lt_of_succ_lt (tidy.stages (s + 1) held)
  unfold dispatch
  cases waits : unit.dispatchReg with
  | none =>
      rw [same_reg, waits]
      refine ⟨moved, rfl, ⟨same_kind, same_depth, fun inst d => ?_⟩, rfl, stages, ?_, active⟩
      · simp only [InFlight, pipeline, same_reg, waits]
        simp
      · intro inst cycles held
        rw [same_reg, waits] at held
        cases held
  | some held =>
      obtain ⟨inst, cycles⟩ := held
      obtain ⟨positive, few, short, deep⟩ := tidy.dispatch inst cycles waits
      rw [same_reg, waits]
      dsimp only
      by_cases delayed : cycles - 1 > 0
      · rw [if_pos delayed]
        refine ⟨_, rfl, ⟨same_kind, same_depth, fun other d => ?_⟩, rfl, stages, ?_, active⟩
        · simp only [InFlight, pipeline, waits, Option.some.injEq, Prod.mk.injEq]
          refine or_congr_right ⟨?_, ?_⟩
          · rintro ⟨_, ⟨rfl, rfl⟩, place⟩
            exact ⟨cycles, ⟨rfl, rfl⟩, by omega⟩
          · rintro ⟨_, ⟨rfl, rfl⟩, place⟩
            exact ⟨cycles - 1, ⟨rfl, rfl⟩, by omega⟩
        · rintro _ _ ⟨⟩
          exact ⟨delayed, by rw [show cycles - 1 + 1 = cycles by omega], rfl⟩
      · obtain rfl : cycles = 1 := by omega
        have inside : inst.latency - inst.initiationInterval < moved.pipelineDepth := by omega
        have free : moved.pipelineReg (inst.latency - inst.initiationInterval) = none := by
          rw [pipeline]
          exact tidy.apart inst 1 waits
        rw [if_neg delayed, if_neg (by omega : ¬ inst.latency < inst.initiationInterval), if_neg (not_not.mpr inside),
          if_pos free]
        refine ⟨_, rfl, ⟨same_kind, same_depth, fun other d => ?_⟩, rfl, fun s held => ?_, ?_, ?_⟩
        · simp only [InFlight, pipeline, waits, Option.some.injEq, Prod.mk.injEq, reduceCtorEq, false_and, exists_const,
            or_false]
          by_cases here : d = inst.latency - inst.initiationInterval
          · have empty : unit.pipelineReg (d + 1) = none := by
              rw [here]
              exact tidy.apart inst 1 waits
            rw [here, Function.update_self, ← here, empty]
            simp only [reduceCtorEq, false_or, Option.some.injEq]
            constructor
            · rintro rfl
              exact ⟨1, ⟨rfl, rfl⟩, by omega⟩
            · rintro ⟨_, ⟨same, -⟩, -⟩
              exact same
          · rw [Function.update_of_ne here]
            refine ⟨.inl, fun flight => flight.resolve_right ?_⟩
            rintro ⟨_, ⟨rfl, rfl⟩, place⟩
            omega
        · by_cases here : s = inst.latency - inst.initiationInterval
          · rw [here]
            exact inside
          · refine stages s ?_
            rw [← Function.update_of_ne here (some inst) moved.pipelineReg]
            exact held
        · intro other cycles held
          cases held
        · exact (congrArg (· + 1) active).trans (inPipeline_enter free inside).symm

theorem cycle_ok (tidy : Tidy unit) (free : (unit.pipelineReg 0).isSome = true → port.inUse < port.length) :
    ∃ next port', unit.cycle port = .ok (next, port', unit.pipelineReg 0) ∧ next.Tidy ∧ next.OneCycleOn unit ∧
      port'.length = port.length ∧ port'.inUse = port.inUse + (unit.pipelineReg 0).isSome.toNat := by
  obtain ⟨port', left, length, used⟩ := leave_ok tidy free
  have stages : ∀ s, (Function.update unit.pipelineReg 0 none s).isSome = true → s < unit.pipelineDepth := by
    intro s held
    by_cases first : s = 0
    · rw [first, Function.update_self] at held
      cases held
    · rw [Function.update_of_ne first] at held
      exact tidy.stages s held
  have last : unit.pipelineReg unit.pipelineDepth = none := by
    by_contra held
    exact Nat.lt_irrefl _ (tidy.stages _ (Option.isSome_iff_ne_none.mpr held))
  have behind : (fun s => Function.update unit.pipelineReg 0 none (s + 1)) = fun s => unit.pipelineReg (s + 1) :=
    funext fun s => Function.update_of_ne (Nat.succ_ne_zero s) none unit.pipelineReg
  have counted := inPipeline_shift last
  have active : unit.activeInstsInPipeline - (unit.pipelineReg 0).isSome.toNat =
      inPipeline unit.pipelineDepth fun s => unit.pipelineReg (s + 1) := by
    rw [tidy.active]
    omega
  have remaining : unit.activeInstsInPipeline - (unit.pipelineReg 0).isSome.toNat =
      inPipeline unit.pipelineDepth (Function.update unit.pipelineReg 0 none) := by
    have cleared : Function.update unit.pipelineReg 0 none unit.pipelineDepth = none := by
      by_contra held
      exact Nat.lt_irrefl _ (stages _ (Option.isSome_iff_ne_none.mpr held))
    rw [← inPipeline_shift cleared, behind, Function.update_self, active]
    rfl
  have cleared : Function.update unit.pipelineReg 0 none 0 = none := Function.update_self ..
  have advanced := @advance_ok { unit with
    pipelineReg := Function.update unit.pipelineReg 0 none
    activeInstsInPipeline := unit.activeInstsInPipeline - (unit.pipelineReg 0).isSome.toNat } cleared stages remaining
  obtain ⟨next, dispatched, on, occupied, next_stages, waits, next_active⟩ := @dispatch_ok unit { unit with
    pipelineReg := fun s => Function.update unit.pipelineReg 0 none (s + 1)
    activeInstsInPipeline := unit.activeInstsInPipeline - (unit.pipelineReg 0).isSome.toNat } tidy behind rfl rfl rfl
    (active.trans (by rw [behind]))
  refine ⟨{ next with occupied := next.occupied >>> 1 }, port', ?_, ?_, ⟨on.kind, on.pipelineDepth, on.flight⟩,
    length, used⟩
  · simp only [cycle, left, bind, Except.bind, advanced, dispatched]
    rfl
  · refine ⟨next_stages, ?_, ?_, ?_, next_active, ?_⟩
    · intro inst d flight
      exact Nat.lt_of_succ_lt (tidy.small inst (d + 1) ((on.flight inst d).mp flight))
    · intro inst cycles held
      obtain ⟨positive, before, -⟩ := waits inst cycles held
      obtain ⟨-, few, short, deep⟩ := tidy.dispatch inst (cycles + 1) before
      exact ⟨positive, by omega, short, on.pipelineDepth ▸ deep⟩
    · intro inst cycles held
      obtain ⟨-, before, pipeline⟩ := waits inst cycles held
      exact (congrFun (pipeline.trans behind) _).trans (tidy.apart inst (cycles + 1) before)
    · intro d
      change (next.occupied >>> 1).getLsbD d = true ↔ ∃ inst, next.InFlight inst d
      rw [getLsbD_shiftOnce, occupied]
      exact (tidy.occupied (d + 1)).trans (exists_congr fun inst => (on.flight inst d).symm)

end SimdUnit

/-! ## The units together -/

/-- The stages that an instruction needs. -/
def SimdUnit.Takes (unit : SimdUnit) (inst : AluInst) : Prop :=
  unit.kind.accepts inst.op = true →
    1 ≤ inst.initiationInterval ∧ inst.initiationInterval ≤ inst.latency ∧ inst.latency ≤ unit.pipelineDepth

theorem testResBus_some {latency bus : Nat} {resultBus : List (BitVec maxAluLatency)}
    (found : testResBus latency resultBus = some bus) :
    ∃ bits, resultBus[bus]? = some bits ∧ bits.getLsbD latency = false := by
  obtain ⟨small, free, -⟩ := List.findIdx?_eq_some_iff_getElem.mp found
  exact ⟨resultBus[bus], List.getElem?_eq_getElem small, by simpa using free⟩

namespace SimdUnit

variable {unit next : SimdUnit} {inst : AluInst} {d : Nat}

/-- An instruction is issued when no other is that far from the result port. -/
theorem issue_ok (tidy : Tidy unit) (takes : unit.Takes inst) (can : unit.canIssue inst = .ok true) :
    ∃ next, unit.issue inst = .ok next ∧ next.Tidy ∧ next.kind = unit.kind ∧ next.pipelineDepth = unit.pipelineDepth ∧
      inst.latency < maxAluLatency ∧ unit.occupied.getLsbD inst.latency = false ∧
      next.occupied = setBit unit.occupied inst.latency ∧
      ∀ other d, next.InFlight other d ↔ unit.InFlight other d ∨ other = inst ∧ d = inst.latency := by
  unfold canIssue at can
  split at can
  next ready =>
    rw [Bool.and_eq_true, Option.isNone_iff_eq_none] at ready
    obtain ⟨accepted, empty⟩ := ready
    split at can
    next small =>
      have unset : unit.occupied.getLsbD inst.latency = false := by
        simpa using Except.ok.inj can
      have none_there : ∀ other, ¬ unit.InFlight other inst.latency := by
        intro other flight
        have set := (tidy.occupied _).mpr ⟨other, flight⟩
        rw [unset] at set
        cases set
      obtain ⟨positive, short, deep⟩ := takes accepted
      have flights : ∀ other d, InFlight { unit with
          dispatchReg := some (inst, inst.initiationInterval)
          occupied := setBit unit.occupied inst.latency } other d ↔
          unit.InFlight other d ∨ other = inst ∧ d = inst.latency := by
        intro other d
        simp only [InFlight, empty, Option.some.injEq, Prod.mk.injEq, reduceCtorEq, false_and, exists_const, or_false]
        refine or_congr_right ⟨?_, ?_⟩
        · rintro ⟨_, ⟨rfl, rfl⟩, place⟩
          exact ⟨rfl, by omega⟩
        · rintro ⟨rfl, rfl⟩
          exact ⟨_, ⟨rfl, rfl⟩, rfl⟩
      refine ⟨_, if_pos empty, ⟨tidy.stages, ?_, ?_, ?_, tidy.active, ?_⟩, rfl, rfl, small, unset, rfl, flights⟩
      · intro other d flight
        rcases (flights other d).mp flight with before | ⟨rfl, rfl⟩
        · exact tidy.small other d before
        · exact small
      · rintro _ _ ⟨⟩
        exact ⟨positive, Nat.le_refl _, short, deep⟩
      · rintro _ _ ⟨⟩
        by_contra held
        obtain ⟨other, held⟩ := Option.ne_none_iff_exists'.mp held
        rw [Nat.sub_add_cancel short] at held
        exact none_there other (.inl held)
      · intro d
        rw [getLsbD_setBit, tidy.occupied d]
        simp only [flights, exists_or]
        refine or_congr_right ⟨?_, ?_⟩
        · rintro ⟨rfl, -⟩
          exact ⟨inst, rfl, rfl⟩
        · rintro ⟨_, rfl, rfl⟩
          exact ⟨rfl, small⟩
    next => cases can
  next => cases can

end SimdUnit

/-- What a step of a unit leaves of the shared state. -/
structure Shares (stage' stage : ExecuteStage) : Prop where
  exWb : stage'.exWb.length = stage.exWb.length
  resultBus : stage'.resultBus.length = stage.resultBus.length
  ports : ∀ port inst, some inst ∈ stage'.ports port → some inst ∈ stage.ports port

theorem Shares.trans {a b c : ExecuteStage} (ab : Shares a b) (bc : Shares b c) : Shares a c where
  exWb := ab.exWb.trans bc.exWb
  resultBus := ab.resultBus.trans bc.resultBus
  ports port inst member := bc.ports port inst (ab.ports port inst member)

/-- An instruction at a port that no bit set of a unit can hold. -/
def TooSlow (stage : ExecuteStage) : Prop := ∃ port inst, some inst ∈ stage.ports port ∧ maxAluLatency ≤ inst.latency

/-- What `tryIssue` does: an instruction that is issued takes a bit of a result bus and the same bit of its
unit. -/
structure Tried (next unit : SimdUnit) (stage' stage : ExecuteStage) (issued : Option AluInst) : Prop where
  tidy : next.Tidy
  kind : next.kind = unit.kind
  pipelineDepth : next.pipelineDepth = unit.pipelineDepth
  flight : ∀ inst d, next.InFlight inst d ↔ unit.InFlight inst d ∨ issued = some inst ∧ d = inst.latency
  alone : ∀ inst, issued = some inst → ∀ other, ¬ unit.InFlight other inst.latency
  shares : Shares stage' stage
  exWb : stage'.exWb = stage.exWb
  buses : ∀ d, takenAt stage'.resultBus d + (unit.occupied.getLsbD d).toNat =
    takenAt stage.resultBus d + (next.occupied.getLsbD d).toNat

section TryIssue

variable {port : Nat} {unit : SimdUnit} {stage : ExecuteStage}

theorem Tried.stall (tidy : unit.Tidy) : Tried unit unit stage stage none where
  tidy := tidy
  kind := rfl
  pipelineDepth := rfl
  flight _ _ := by simp
  alone _ none_issued := by cases none_issued
  shares := ⟨rfl, rfl, fun _ _ member => member⟩
  exWb := rfl
  buses _ := rfl

theorem tryIssue_cases (tidy : unit.Tidy) (takes : ∀ inst, some inst ∈ stage.ports port → unit.Takes inst) :
    tryIssue port unit stage = .error .outOfRange ∧ TooSlow stage ∨
    ∃ next stage' issued, tryIssue port unit stage = .ok (next, stage', issued) ∧
      Tried next unit stage' stage issued := by
  cases ready : (stage.ports port).getReady with
  | none => exact .inr ⟨unit, stage, none, by simp only [tryIssue, ready], .stall tidy⟩
  | some entry =>
      obtain ⟨i, inst⟩ := entry
      have waiting : some inst ∈ stage.ports port := List.mem_of_getElem? (RegisterSet.getReady_some ready)
      cases can : unit.canIssue inst with
      | error fault =>
          obtain ⟨rfl, large⟩ : fault = .outOfRange ∧ maxAluLatency ≤ inst.latency := by
            unfold SimdUnit.canIssue at can
            split at can
            · split at can
              · cases can
              next large =>
                cases can
                exact ⟨rfl, Nat.not_lt.mp large⟩
            · cases can
          exact .inl ⟨by simp only [tryIssue, ready, can], port, inst, waiting, large⟩
      | ok accepted =>
          cases accepted with
          | false => exact .inr ⟨unit, stage, none, by simp only [tryIssue, ready, can], .stall tidy⟩
          | true =>
              cases bus : testResBus inst.latency stage.resultBus with
              | none => exact .inr ⟨unit, stage, none, by simp only [tryIssue, ready, can, bus], .stall tidy⟩
              | some bus' =>
                  obtain ⟨next, issued, next_tidy, kind, depth, small, unset, occupied, flight⟩ :=
                    SimdUnit.issue_ok tidy (takes inst waiting) can
                  obtain ⟨bits, found, free⟩ := testResBus_some bus
                  refine .inr ⟨next, _, some inst, by simp only [tryIssue, ready, can, bus, issued]; rfl, ?_⟩
                  refine ⟨next_tidy, kind, depth, ?_, ?_, ⟨rfl, List.length_modify .., ?_⟩, rfl, ?_⟩
                  · intro other d
                    rw [flight, Option.some.injEq]
                    refine or_congr_right ⟨?_, ?_⟩
                    · rintro ⟨rfl, rfl⟩
                      exact ⟨rfl, rfl⟩
                    · rintro ⟨rfl, rfl⟩
                      exact ⟨rfl, rfl⟩
                  · rintro _ ⟨⟩ other before
                    have set := (tidy.occupied _).mpr ⟨other, before⟩
                    rw [unset] at set
                    cases set
                  · intro p other member
                    by_cases here : p = port
                    · subst here
                      dsimp only at member
                      rw [Function.update_self] at member
                      exact (List.mem_or_eq_of_mem_set member).resolve_right (by simp)
                    · dsimp only at member
                      rwa [Function.update_of_ne here] at member
                  · intro d
                    dsimp only
                    rw [takenAt_modify found free small, occupied]
                    by_cases here : d = inst.latency
                    · have set : (setBit unit.occupied inst.latency).getLsbD d = true :=
                        (getLsbD_setBit ..).mpr (.inr ⟨here, small⟩)
                      rw [set, here, unset, if_pos rfl]
                      rfl
                    · have same : (setBit unit.occupied inst.latency).getLsbD d = unit.occupied.getLsbD d := by
                        rw [Bool.eq_iff_iff, getLsbD_setBit]
                        exact ⟨fun set => set.resolve_right fun other => here other.1, .inl⟩
                      rw [same, if_neg here, Nat.add_zero]

end TryIssue

namespace ExecuteEvent

def unit : ExecuteEvent → Nat
  | issued unit _ _ => unit
  | finished unit _ _ => unit

def cycle : ExecuteEvent → Nat
  | issued _ _ cycle => cycle
  | finished _ _ cycle => cycle

end ExecuteEvent

/-- What a cycle does to the unit of a number. -/
structure Executed (now n : Nat) (next unit : SimdUnit) (events : List ExecuteEvent) : Prop where
  tidy : next.Tidy
  kind : next.kind = unit.kind
  pipelineDepth : next.pipelineDepth = unit.pipelineDepth
  finished : ∀ inst, .finished n inst now ∈ events ↔ unit.InFlight inst 0
  flight : ∀ inst d, next.InFlight inst d ↔ unit.InFlight inst (d + 1) ∨ .issued n inst now ∈ events ∧ d = inst.latency
  alone : ∀ inst, .issued n inst now ∈ events → ∀ other, ¬ unit.InFlight other (inst.latency + 1)
  single : ∀ inst other, .issued n inst now ∈ events → .issued n other now ∈ events → inst = other

/-- The events of other units do not matter. -/
theorem Executed.of_iff {now n : Nat} {next unit : SimdUnit} {events others : List ExecuteEvent}
    (executed : Executed now n next unit events) (same : ∀ e : ExecuteEvent, e.unit = n → (e ∈ others ↔ e ∈ events)) :
    Executed now n next unit others where
  tidy := executed.tidy
  kind := executed.kind
  pipelineDepth := executed.pipelineDepth
  finished inst := (same (.finished n inst now) rfl).trans (executed.finished inst)
  flight inst d := by
    rw [same (.issued n inst now) rfl]
    exact executed.flight inst d
  alone inst member := executed.alone inst ((same (.issued n inst now) rfl).mp member)
  single inst other one two :=
    executed.single inst other ((same (.issued n inst now) rfl).mp one) ((same (.issued n other now) rfl).mp two)

section ExecuteUnit

variable {now n port : Nat} {unit : SimdUnit} {stage : ExecuteStage}

theorem executeUnit_cases (tidy : unit.Tidy) (takes : ∀ inst, some inst ∈ stage.ports port → unit.Takes inst)
    (free : unit.occupied.getLsbD 0 = true → stage.exWb.inUse < stage.exWb.length) :
    executeUnit now n port unit stage = .error .outOfRange ∧ TooSlow stage ∨
    ∃ next stage' events, executeUnit now n port unit stage = .ok (next, stage', events) ∧
      Executed now n next unit events ∧ Shares stage' stage ∧
      stage'.exWb.inUse = stage.exWb.inUse + (unit.occupied.getLsbD 0).toNat ∧
      (∀ d, takenAt stage'.resultBus d + (unit.occupied.getLsbD (d + 1)).toNat =
        takenAt stage.resultBus d + (next.occupied.getLsbD d).toNat) ∧
      (∀ e ∈ events, e.unit = n ∧ e.cycle = now) ∧ events.Nodup := by
  have front : ∀ inst, unit.InFlight inst 0 ↔ unit.pipelineReg 0 = some inst := by
    refine fun inst => ⟨fun flight => flight.resolve_right ?_, .inl⟩
    rintro ⟨cycles, held, place⟩
    have fits := tidy.dispatch inst cycles held
    omega
  have first : unit.occupied.getLsbD 0 = (unit.pipelineReg 0).isSome := by
    rw [Bool.eq_iff_iff, tidy.occupied, Option.isSome_iff_exists]
    exact exists_congr front
  obtain ⟨moved, exWb, cycled, moved_tidy, on, length, used⟩ :=
    SimdUnit.cycle_ok tidy (fun held => free (first.trans held))
  have bits : ∀ d, moved.occupied.getLsbD d = unit.occupied.getLsbD (d + 1) := by
    intro d
    rw [Bool.eq_iff_iff, moved_tidy.occupied, tidy.occupied]
    exact exists_congr fun inst => on.flight inst d
  have moved_takes : ∀ inst, some inst ∈ stage.ports port → moved.Takes inst := by
    intro inst member accepted
    rw [on.pipelineDepth]
    exact takes inst member (on.kind ▸ accepted)
  rcases @tryIssue_cases port moved { stage with exWb } moved_tidy moved_takes with ⟨failed, slow⟩ |
    ⟨next, stage', issued, done, tried⟩
  · exact .inl ⟨by simp only [executeUnit, cycled, bind, Except.bind, failed], slow⟩
  · refine .inr ⟨next, stage', _,
      by simp only [executeUnit, cycled, bind, Except.bind, done]; rfl, ?_, ?_, ?_, ?_, ?_, ?_⟩
    · have was_issued : ∀ inst, .issued n inst now ∈ ((unit.pipelineReg 0).map fun inst =>
          ExecuteEvent.finished n inst now).toList ++ (issued.map fun inst => .issued n inst now).toList ↔
          issued = some inst := by
        intro inst
        simp
      refine ⟨tried.tidy, tried.kind.trans on.kind, tried.pipelineDepth.trans on.pipelineDepth, ?_, ?_, ?_, ?_⟩
      · intro inst
        rw [front]
        simp
      · intro inst d
        rw [was_issued, tried.flight, on.flight]
      · intro inst member other flight
        exact tried.alone inst ((was_issued inst).mp member) other ((on.flight other _).mpr flight)
      · intro inst other one two
        exact Option.some.inj (((was_issued inst).mp one).symm.trans ((was_issued other).mp two))
    · exact ⟨tried.shares.exWb.trans length, tried.shares.resultBus, tried.shares.ports⟩
    · rw [tried.exWb, first]
      exact used
    · intro d
      rw [← bits d]
      exact tried.buses d
    · intro e member
      simp only [List.mem_append, Option.mem_toList, Option.map_eq_some_iff] at member
      rcases member with ⟨inst, -, rfl⟩ | ⟨inst, -, rfl⟩ <;> exact ⟨rfl, rfl⟩
    · cases unit.pipelineReg 0 <;> cases issued <;> simp

end ExecuteUnit

section ExecuteUnits

variable {now n : Nat} {units : List (Nat × SimdUnit)} {stage : ExecuteStage}

/-- The instructions of the units that are as far from their result ports. -/
def occupiedAt (units : List (Nat × SimdUnit)) (d : Nat) : Nat := units.countP fun entry => entry.2.occupied.getLsbD d

theorem occupiedAt_cons (port : Nat) (unit : SimdUnit) (d : Nat) :
    occupiedAt ((port, unit) :: units) d = occupiedAt units d + (unit.occupied.getLsbD d).toNat := by
  rw [occupiedAt, List.countP_cons]
  cases unit.occupied.getLsbD d <;> rfl

/-- What a cycle does to the units from a number on. -/
structure AllExecuted (now n : Nat) (units' units : List (Nat × SimdUnit)) (stage' stage : ExecuteStage)
    (events : List ExecuteEvent) : Prop where
  length : units'.length = units.length
  each : ∀ (k port : Nat) (unit : SimdUnit), units[k]? = some (port, unit) → ∃ next, units'[k]? = some (port, next) ∧
    Executed now (n + k) next unit events
  shares : Shares stage' stage
  buses : ∀ d, takenAt stage'.resultBus d + occupiedAt units (d + 1) = takenAt stage.resultBus d + occupiedAt units' d
  named : ∀ e ∈ events, n ≤ e.unit ∧ e.unit < n + units.length ∧ e.cycle = now
  nodup : events.Nodup

theorem executeUnits_cases (tidy : ∀ entry ∈ units, entry.2.Tidy)
    (takes : ∀ entry ∈ units, ∀ inst, some inst ∈ stage.ports entry.1 → entry.2.Takes inst)
    (room : stage.exWb.inUse + occupiedAt units 0 ≤ stage.exWb.length) :
    executeUnits now n units stage = .error .outOfRange ∧ TooSlow stage ∨
    ∃ units' stage' events, executeUnits now n units stage = .ok (units', stage', events) ∧
      AllExecuted now n units' units stage' stage events := by
  induction units generalizing n stage with
  | nil =>
      exact .inr ⟨[], stage, [], rfl, rfl, by simp, ⟨rfl, rfl, fun _ _ member => member⟩,
        fun d => rfl, by simp, List.nodup_nil⟩
  | cons entry rest ih =>
      obtain ⟨port, unit⟩ := entry
      simp only [List.forall_mem_cons] at tidy takes
      obtain ⟨tidy, rest_tidy⟩ := tidy
      obtain ⟨takes, rest_takes⟩ := takes
      rw [occupiedAt_cons] at room
      have free : unit.occupied.getLsbD 0 = true → stage.exWb.inUse < stage.exWb.length := by
        intro set
        rw [set, Bool.toNat_true] at room
        omega
      rcases @executeUnit_cases now n port unit stage tidy takes free with ⟨failed, slow⟩ |
        ⟨next, stage', events, done, executed, shares, used, buses, own, nodup⟩
      · exact .inl ⟨by simp only [executeUnits, failed, bind, Except.bind], slow⟩
      · have rest_room : stage'.exWb.inUse + occupiedAt rest 0 ≤ stage'.exWb.length := by
          rw [used, shares.exWb]
          omega
        rcases @ih (n + 1) stage' rest_tidy
          (fun entry member inst waiting => rest_takes entry member inst (shares.ports _ _ waiting)) rest_room with
          ⟨failed, p, inst, waiting, large⟩ | ⟨units', last, more, others, all⟩
        · exact .inl ⟨by simp only [executeUnits, done, bind, Except.bind, failed], p, inst,
            shares.ports p inst waiting, large⟩
        · refine .inr ⟨(port, next) :: units', last, events ++ more,
            by simp only [executeUnits, done, bind, Except.bind, others]; rfl, ?_, ?_, ?_, ?_, ?_, ?_⟩
          · exact congrArg (· + 1) all.length
          · intro k p u found
            cases k with
            | zero =>
                cases found
                refine ⟨next, rfl, executed.of_iff fun e named => ?_⟩
                rw [List.mem_append]
                refine or_iff_left fun member => ?_
                have later := (all.named e member).1
                omega
            | succ k =>
                obtain ⟨u', found', executed'⟩ := all.each k p u (by simpa using found)
                refine ⟨u', by simpa using found', ?_⟩
                rw [show n + (k + 1) = n + 1 + k by omega]
                refine executed'.of_iff fun e named => ?_
                rw [List.mem_append]
                refine or_iff_right fun member => ?_
                have here := (own e member).1
                omega
          · exact all.shares.trans shares
          · intro d
            have here := buses d
            have others := all.buses d
            rw [occupiedAt_cons, occupiedAt_cons]
            omega
          · intro e member
            rw [List.length_cons]
            rcases List.mem_append.mp member with here | later
            · obtain ⟨named, time⟩ := own e here
              exact ⟨by omega, by omega, time⟩
            · obtain ⟨low, high, time⟩ := all.named e later
              exact ⟨by omega, by omega, time⟩
          · refine List.Nodup.append nodup all.nodup fun e here later => ?_
            have named := (own e here).1
            have low := (all.named e later).1
            omega

end ExecuteUnits

/-! ## Runs -/

/-- The registers, the buses and the history of a core in a run. -/
structure Scheduled (trace : List ExecuteEvent) (core : ExecuteCore) : Prop where
  tidy : ∀ entry ∈ core.units, entry.2.Tidy
  takes : ∀ entry ∈ core.units, ∀ inst, some inst ∈ core.stage.ports entry.1 → entry.2.Takes inst
  width : core.stage.resultBus.length = core.stage.exWb.length
  buses : ∀ d, takenAt core.stage.resultBus d = occupiedAt core.units d
  issued : ∀ n inst t, .issued n inst t ∈ trace → n < core.units.length ∧ t ≤ core.now
  flight : ∀ (n port : Nat) (unit : SimdUnit), core.units[n]? = some (port, unit) → ∀ inst d,
    unit.InFlight inst d ↔ ∃ t, .issued n inst t ∈ trace ∧ t + inst.latency = core.now + d
  finished : ∀ n inst t, .finished n inst t ∈ trace ↔
    ∃ start, .issued n inst start ∈ trace ∧ t = start + inst.latency + 1 ∧ t ≤ core.now
  distinct : ∀ n inst other t t', .issued n inst t ∈ trace → .issued n other t' ∈ trace →
    t + inst.latency = t' + other.latency → inst = other ∧ t = t'
  single : ∀ n inst other t, .issued n inst t ∈ trace → .issued n other t ∈ trace → inst = other
  past : ∀ e ∈ trace, e.cycle ≤ core.now
  nodup : trace.Nodup

namespace Scheduled

variable {core next : ExecuteCore} {trace events : List ExecuteEvent}

theorem create (units : List (Nat × UnitKind × Nat)) (pipeWidths : Nat → Nat) (exWbWidth : Nat) :
    Scheduled [] (.create units pipeWidths exWbWidth) where
  tidy entry member := by
    obtain ⟨⟨port, kind, maxLatency⟩, -, rfl⟩ := List.mem_map.mp member
    exact .create kind maxLatency
  takes entry member inst waiting := by
    simp [ExecuteCore.create, List.mem_replicate] at waiting
  width := by simp [ExecuteCore.create]
  buses d := by
    have no_bus : takenAt (List.replicate exWbWidth (0 : BitVec maxAluLatency)) d = 0 := by
      refine List.countP_eq_zero.mpr fun bits member => ?_
      rw [(List.mem_replicate.mp member).2]
      simp
    have no_unit : occupiedAt (ExecuteCore.create units pipeWidths exWbWidth).units d = 0 := by
      refine List.countP_eq_zero.mpr fun entry member => ?_
      obtain ⟨⟨port, kind, maxLatency⟩, -, rfl⟩ := List.mem_map.mp member
      simp [SimdUnit.create]
    rw [no_unit]
    exact no_bus
  issued _ _ _ member := absurd member List.not_mem_nil
  flight n port unit found inst d := by
    have fresh : ∃ kind maxLatency, unit = .create kind maxLatency := by
      obtain ⟨⟨p, kind, maxLatency⟩, -, same⟩ := List.mem_map.mp (List.mem_of_getElem? found)
      cases same
      exact ⟨kind, maxLatency, rfl⟩
    obtain ⟨kind, maxLatency, rfl⟩ := fresh
    simp [SimdUnit.InFlight, SimdUnit.create]
  finished _ _ _ := by simp
  distinct _ _ _ _ _ member := absurd member List.not_mem_nil
  single _ _ _ _ member := absurd member List.not_mem_nil
  past _ member := absurd member List.not_mem_nil
  nodup := List.nodup_nil

/-- After `writeback` there is room in `EX_WB` for what the buses announce. -/
theorem room (scheduled : Scheduled trace core) :
    core.writeback.stage.exWb.inUse + occupiedAt core.units 0 ≤ core.writeback.stage.exWb.length := by
  have small : core.stage.exWb.inUse ≤ core.stage.exWb.length := List.countP_le_length
  obtain ⟨length, empty⟩ := RegisterSet.drain_ok small
  have used : core.writeback.stage.exWb.inUse = 0 := empty
  have wide : core.writeback.stage.exWb.length = core.stage.exWb.length := length
  rw [used, wide, ← scheduled.width, ← scheduled.buses 0, Nat.zero_add]
  exact takenAt_le_length

/-- No register and no stage is overwritten in a cycle. -/
theorem cycle_cases (scheduled : Scheduled trace core) : core.cycle = .error .outOfRange ∧ TooSlow core.stage ∨
    ∃ next events start, core.cycle = .ok (next, events) ∧ next.now = core.now + 1 ∧
      start.ports = core.stage.ports ∧ start.exWb.length = core.stage.exWb.length ∧
      start.resultBus.length = core.stage.resultBus.length ∧
      (∀ d, takenAt start.resultBus d = takenAt core.stage.resultBus (d + 1)) ∧
      AllExecuted (core.now + 1) 0 next.units core.units next.stage start events := by
  have small : core.stage.exWb.inUse ≤ core.stage.exWb.length := List.countP_le_length
  let start : ExecuteStage := { core.writeback.stage with
    resultBus := core.stage.resultBus.map fun bits : BitVec maxAluLatency => (bits >>> 1 : BitVec maxAluLatency) }
  have unfolded : core.cycle = executeUnits (core.now + 1) 0 core.units start >>= fun outcome =>
      pure ({ units := outcome.1, stage := outcome.2.1, now := core.now + 1 }, outcome.2.2) := rfl
  rcases @executeUnits_cases (core.now + 1) 0 core.units start scheduled.tidy scheduled.takes scheduled.room with
    ⟨failed, slow⟩ | ⟨units, stage, events, done, all⟩
  · exact .inl ⟨by rw [unfolded, failed]; rfl, slow⟩
  · refine .inr ⟨{ units, stage, now := core.now + 1 }, events, start, ?_, rfl, rfl, ?_, ?_, ?_, all⟩
    · rw [unfolded, done]
      rfl
    · exact (RegisterSet.drain_ok small).1
    · exact List.length_map ..
    · exact fun d => takenAt_shiftOnce

variable {start : ExecuteStage}

/-- One more cycle in the history of every unit. -/
theorem afterCycle (scheduled : Scheduled trace core) (time : next.now = core.now + 1)
    (ports : start.ports = core.stage.ports) (exWb : start.exWb.length = core.stage.exWb.length)
    (resultBus : start.resultBus.length = core.stage.resultBus.length)
    (shifted : ∀ d, takenAt start.resultBus d = takenAt core.stage.resultBus (d + 1))
    (all : AllExecuted (core.now + 1) 0 next.units core.units next.stage start events) :
    Scheduled (trace ++ events) next := by
  have back : ∀ (k port : Nat) (unit' : SimdUnit), next.units[k]? = some (port, unit') → ∃ unit,
      core.units[k]? = some (port, unit) ∧ Executed (core.now + 1) k unit' unit events := by
    intro k port unit' found
    obtain ⟨inside, -⟩ := List.getElem?_eq_some_iff.mp found
    obtain ⟨⟨p, unit⟩, before⟩ : ∃ entry, core.units[k]? = some entry :=
      ⟨_, List.getElem?_eq_getElem (all.length ▸ inside)⟩
    obtain ⟨u, found', executed⟩ := all.each k p unit before
    rw [found] at found'
    cases found'
    rw [Nat.zero_add] at executed
    exact ⟨_, before, executed⟩
  have unit_of : ∀ n, n < core.units.length → ∃ port unit unit', core.units[n]? = some (port, unit) ∧
      Executed (core.now + 1) n unit' unit events := by
    intro n inside
    obtain ⟨⟨p, unit⟩, before⟩ : ∃ entry, core.units[n]? = some entry := ⟨_, List.getElem?_eq_getElem inside⟩
    obtain ⟨unit', -, executed⟩ := all.each n p unit before
    rw [Nat.zero_add] at executed
    exact ⟨_, _, unit', before, executed⟩
  have now_of : ∀ e ∈ events, e.cycle = core.now + 1 := fun e member => (all.named e member).2.2
  have known : ∀ n inst t, .issued n inst t ∈ trace ++ events → n < core.units.length := by
    intro n inst t member
    rcases List.mem_append.mp member with before | now
    · exact (scheduled.issued n inst t before).1
    · have named := (all.named _ now).2.1
      rwa [Nat.zero_add] at named
  refine ⟨?_, ?_, ?_, ?_, ?_, ?_, ?_, ?_, ?_, ?_, ?_⟩
  · rintro ⟨port, unit'⟩ member
    obtain ⟨k, found⟩ := List.mem_iff_getElem?.mp member
    obtain ⟨unit, -, executed⟩ := back k port unit' found
    exact executed.tidy
  · rintro ⟨port, unit'⟩ member inst waiting accepted
    obtain ⟨k, found⟩ := List.mem_iff_getElem?.mp member
    obtain ⟨unit, before, executed⟩ := back k port unit' found
    have waited : some inst ∈ core.stage.ports port := ports ▸ all.shares.ports port inst waiting
    rw [executed.pipelineDepth]
    exact scheduled.takes _ (List.mem_of_getElem? before) inst waited (executed.kind ▸ accepted)
  · rw [all.shares.resultBus, all.shares.exWb, resultBus, exWb, scheduled.width]
  · intro d
    have moved := all.buses d
    rw [shifted d, scheduled.buses (d + 1)] at moved
    omega
  · intro n inst t member
    refine ⟨all.length ▸ known n inst t member, ?_⟩
    rw [time]
    rcases List.mem_append.mp member with before | now
    · exact Nat.le_succ_of_le (scheduled.issued n inst t before).2
    · exact Nat.le_of_eq (now_of _ now)
  · intro n port unit' found inst d
    obtain ⟨unit, before, executed⟩ := back n port unit' found
    rw [executed.flight, scheduled.flight n port unit before, time]
    constructor
    · rintro (⟨t, issued, place⟩ | ⟨issued, rfl⟩)
      · exact ⟨t, List.mem_append_left _ issued, by omega⟩
      · exact ⟨core.now + 1, List.mem_append_right _ issued, rfl⟩
    · rintro ⟨t, issued, place⟩
      rcases List.mem_append.mp issued with early | now
      · exact .inl ⟨t, early, by omega⟩
      · obtain rfl : t = core.now + 1 := now_of _ now
        exact .inr ⟨now, by omega⟩
  · intro n inst t
    rw [time]
    constructor
    · intro member
      rcases List.mem_append.mp member with before | now
      · obtain ⟨begin_, issued, place, past⟩ := (scheduled.finished n inst t).mp before
        exact ⟨begin_, List.mem_append_left _ issued, place, Nat.le_succ_of_le past⟩
      · obtain rfl : t = core.now + 1 := now_of _ now
        obtain ⟨port, unit, unit', found, executed⟩ :=
          unit_of n (by have := (all.named _ now).2.1; rwa [Nat.zero_add] at this)
        obtain ⟨begin_, issued, place⟩ :=
          (scheduled.flight n port unit found inst 0).mp ((executed.finished inst).mp now)
        exact ⟨begin_, List.mem_append_left _ issued, by omega, Nat.le_refl _⟩
    · rintro ⟨begin_, issued, place, past⟩
      rcases List.mem_append.mp issued with early | now
      · by_cases done : t ≤ core.now
        · exact List.mem_append_left _ ((scheduled.finished n inst t).mpr ⟨begin_, early, place, done⟩)
        · obtain rfl : t = core.now + 1 := by omega
          obtain ⟨port, unit, unit', found, executed⟩ := unit_of n (known n inst begin_ issued)
          exact List.mem_append_right _ ((executed.finished inst).mpr
            ((scheduled.flight n port unit found inst 0).mpr ⟨begin_, early, by omega⟩))
      · have := now_of _ now
        change begin_ = _ at this
        omega
  · have apart : ∀ n inst other t t', .issued n inst t ∈ trace → .issued n other t' ∈ events →
        t + inst.latency ≠ t' + other.latency := by
      intro n inst other t t' early now same
      obtain rfl : t' = core.now + 1 := now_of _ now
      obtain ⟨port, unit, unit', found, executed⟩ := unit_of n (scheduled.issued n inst t early).1
      exact executed.alone other now inst ((scheduled.flight n port unit found inst _).mpr ⟨t, early, by omega⟩)
    intro n inst other t t' one two same
    rcases List.mem_append.mp one with early | now
    · rcases List.mem_append.mp two with early' | now'
      · exact scheduled.distinct n inst other t t' early early' same
      · exact absurd same (apart n inst other t t' early now')
    · rcases List.mem_append.mp two with early' | now'
      · exact absurd same.symm (apart n other inst t' t early' now)
      · obtain rfl : t = core.now + 1 := now_of _ now
        obtain rfl : t' = core.now + 1 := now_of _ now'
        obtain ⟨port, unit, unit', found, executed⟩ := unit_of n (known n inst _ one)
        exact ⟨executed.single inst other now now', rfl⟩
  · intro n inst other t one two
    have passed : ∀ {inst}, .issued n inst t ∈ trace → t ≤ core.now := fun issued => (scheduled.issued n _ t issued).2
    rcases List.mem_append.mp one with early | now
    · rcases List.mem_append.mp two with early' | now'
      · exact scheduled.single n inst other t early early'
      · have late : t = core.now + 1 := now_of _ now'
        have := passed early
        omega
    · obtain rfl : t = core.now + 1 := now_of _ now
      rcases List.mem_append.mp two with early' | now'
      · have := passed early'
        omega
      · obtain ⟨port, unit, unit', found, executed⟩ := unit_of n (known n inst _ one)
        exact executed.single inst other now now'
  · intro e member
    rw [time]
    rcases List.mem_append.mp member with before | now
    · exact Nat.le_succ_of_le (scheduled.past e before)
    · exact Nat.le_of_eq (now_of e now)
  · refine List.Nodup.append scheduled.nodup all.nodup fun e before now => ?_
    have early := scheduled.past e before
    have late := now_of e now
    omega

theorem step (scheduled : Scheduled trace core) (stepped : ExecuteStep core events next) :
    Scheduled (trace ++ events) next := by
  cases stepped with
  | @readOperands port inst regs fits moved =>
      obtain ⟨-, -, member⟩ := RegisterSet.moveIn_ok moved
      rw [List.append_nil]
      refine { scheduled with takes := ?_ }
      rintro ⟨p, unit⟩ entry other waiting
      by_cases here : p = port
      · subst here
        have waiting : some other ∈ Function.update core.stage.ports p regs p := waiting
        rw [Function.update_self] at waiting
        rcases member other waiting with rfl | before
        · exact fits unit entry
        · exact scheduled.takes _ entry other before
      · have waiting : some other ∈ Function.update core.stage.ports port regs p := waiting
        rw [Function.update_of_ne here] at waiting
        exact scheduled.takes _ entry other waiting
  | cycle done =>
      rcases scheduled.cycle_cases with
        ⟨failed, -⟩ | ⟨reached, happened, start, cycled, time, ports, exWb, bus, shifted, all⟩
      · rw [failed] at done
        cases done
      · rw [cycled] at done
        cases done
        exact scheduled.afterCycle time ports exWb bus shifted all

end Scheduled

/-- In every run, no pipeline stage that is occupied is overwritten and `EX_WB` has a free register for every
result: a cycle fails only on an instruction whose latency is outside the reservation bits. An instruction
comes to the result port of its unit exactly `latency + 1` cycles after it was issued, and no two come to it
in one cycle. -/
theorem execute_never_collides {core : ExecuteCore} {trace : List ExecuteEvent} (units : List (Nat × UnitKind × Nat))
    (pipeWidths : Nat → Nat) (exWbWidth : Nat)
    (run : Reaches ExecuteStep (.create units pipeWidths exWbWidth) trace core) :
    (∀ fault, core.cycle = .error fault → fault = .outOfRange ∧ TooSlow core.stage) ∧
    (∀ n inst t, .finished n inst t ∈ trace ↔
      ∃ start, .issued n inst start ∈ trace ∧ t = start + inst.latency + 1 ∧ t ≤ core.now) ∧
    (∀ n inst other t t', .issued n inst t ∈ trace → .issued n other t' ∈ trace →
      t + inst.latency = t' + other.latency → inst = other ∧ t = t') ∧
    (∀ n inst other t, .issued n inst t ∈ trace → .issued n other t ∈ trace → inst = other) ∧ trace.Nodup := by
  have scheduled : Scheduled trace core :=
    @Reaches.invariant _ _ _ _ (fun trace core => Scheduled trace core) (.create units pipeWidths exWbWidth)
      (fun _ scheduled stepped => scheduled.step stepped) _ _ run
  refine ⟨fun fault failed => ?_, scheduled.finished, scheduled.distinct, scheduled.single, scheduled.nodup⟩
  rcases scheduled.cycle_cases with ⟨failed', slow⟩ | ⟨next, events, start, cycled, -⟩
  · rw [failed] at failed'
    exact ⟨Except.error.inj failed', slow⟩
  · rw [failed] at cycled
    cases cycled

/-! ## A run of one unit -/

/-- A number of cycles. -/
def ExecuteCore.cycles : Nat → ExecuteCore → Except ExecuteFault (ExecuteCore × List ExecuteEvent)
  | 0, core => .ok (core, [])
  | n + 1, core => do
      let (core, events) ← core.cycle
      let (core, more) ← cycles n core
      return (core, events ++ more)

theorem ExecuteCore.cycles_run {start core next : ExecuteCore} {trace events : List ExecuteEvent} {n : Nat}
    (run : Reaches ExecuteStep start trace core) (done : core.cycles n = .ok (next, events)) :
    Reaches ExecuteStep start (trace ++ events) next := by
  induction n generalizing core trace events with
  | zero =>
      cases done
      rwa [List.append_nil]
  | succ n ih =>
      obtain ⟨⟨reached, early⟩, first, done⟩ := bind_ok.mp done
      obtain ⟨⟨last, late⟩, others, done⟩ := bind_ok.mp done
      cases done
      rw [← List.append_assoc]
      exact ih (run.next (.cycle first)) others

/-- An addition that takes four cycles and keeps its dispatch register for two. -/
def slowAdd : AluInst := ⟨1, .aluOp, 4, 2⟩

/-- A core with one SP unit of six stages. -/
def oneUnit : ExecuteCore := .create [(0, .spUnit, 6)] (fun _ => 1) 1

theorem execute_never_collides_sample : ∃ trace core, Reaches ExecuteStep oneUnit trace core ∧
    .issued 0 slowAdd 1 ∈ trace ∧ .finished 0 slowAdd 6 ∈ trace := by
  have arrives : ExecuteStep oneUnit [] { oneUnit with
      stage := { oneUnit.stage with ports := Function.update oneUnit.stage.ports 0 [some slowAdd] } } := by
    refine .readOperands ?_ rfl
    rintro unit member -
    obtain rfl : unit = .create .spUnit 6 := by simpa [oneUnit, ExecuteCore.create] using member
    decide
  have passed : (ExecuteCore.cycles 6 { oneUnit with
      stage := { oneUnit.stage with ports := Function.update oneUnit.stage.ports 0 [some slowAdd] } }).toOption.any
      (fun outcome => decide (outcome.1.now = 6) && decide (.issued 0 slowAdd 1 ∈ outcome.2)) = true := by
    decide +kernel
  generalize outcome : ExecuteCore.cycles 6 { oneUnit with
      stage := { oneUnit.stage with ports := Function.update oneUnit.stage.ports 0 [some slowAdd] } } = result at passed
  cases result with
  | error fault => cases passed
  | ok reached =>
      obtain ⟨core, trace⟩ := reached
      simp only [Except.toOption, Option.any_some, Bool.and_eq_true, decide_eq_true_eq] at passed
      obtain ⟨time, issued⟩ := passed
      have run : Reaches ExecuteStep oneUnit trace core := ExecuteCore.cycles_run (Reaches.refl.next arrives) outcome
      exact ⟨trace, core, run, issued, ((execute_never_collides _ _ _ run).2.1 0 slowAdd 6).mpr
        ⟨1, issued, rfl, Nat.le_of_eq time.symm⟩⟩

end GpgpuSim.Shader
