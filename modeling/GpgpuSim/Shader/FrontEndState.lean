import GpgpuSim.Shader.FrontEnd
import Mathlib.Algebra.Order.BigOperators.Group.Finset

/-! What holds between the fetching of instructions and their issue: a warp waits for a miss, for the decoder or for
its buffered instructions, never for two of them, and what it waits for are the instructions at its PC. -/
namespace GpgpuSim.Shader
open Cache Functional Memory Simt Transition

variable {w : Nat} {μ : Type}

/-- The faults of the cache are not those of the front end. -/
theorem ends_liftCache {α : Type} {result : Except CacheFault α} {Q : α → Prop} (ok : ∀ a, result = .ok a → Q a) :
    Ends (liftCache result) Q fun fault => fault ≠ .assertion := by
  cases result with
  | ok a => exact ok a rfl
  | error fault => exact ExecFault.noConfusion

namespace FrontEndEvent

def isExit (i : Nat) : FrontEndEvent w μ → Bool
  | exited j _ => j == i
  | _ => false

def isLaunch (i : Nat) : FrontEndEvent w μ → Bool
  | launched j => j == i
  | _ => false

def isIssue (i : Nat) : FrontEndEvent w μ → Bool
  | issued j _ _ _ _ => j == i
  | _ => false

def isCompletion (i : Nat) : FrontEndEvent w μ → Bool
  | completed j => j == i
  | _ => false

def isStore (i : Nat) : FrontEndEvent w μ → Bool
  | stored j => j == i
  | _ => false

def isAck (i : Nat) : FrontEndEvent w μ → Bool
  | acknowledged j => j == i
  | _ => false

/-- The warp that an event is about. -/
def warp? : FrontEndEvent w μ → Option Nat
  | issued i _ _ _ _ | exited i _ | launched i | completed i | stored i | acknowledged i | atomicDone i _ => some i
  | memory | elsewhere => none

/-- The atomic operations for which warp `i` waits after an event. -/
def pendingAtomics (i n : Nat) : FrontEndEvent w μ → Nat
  | issued j inst top _ _ => if j = i ∧ inst.isAtomic = true then n + top.activeMask.card else n
  | launched j => if j = i then 0 else n
  | atomicDone j lanes => if j = i then n - lanes.card else n
  | _ => n

/-- What an event says of the other warps. -/
theorem of_apart {event : FrontEndEvent w μ} {i : Nat} (apart : event.warp? ≠ some i) :
    (event.isExit i = false ∧ event.isLaunch i = false ∧ event.isIssue i = false) ∧
      (event.isCompletion i = false ∧ event.isStore i = false ∧ event.isAck i = false) ∧
      ∀ n, event.pendingAtomics i n = n := by
  cases event <;>
    simp_all [warp?, isExit, isLaunch, isIssue, isCompletion, isStore, isAck, pendingAtomics]

end FrontEndEvent

namespace FrontEnd

/-- What holds of each warp, with the instructions of it that have been issued and not completed, and its threads that
have not been given back. -/
structure WarpSound (model : ThreadModel w μ) (program : InstructionMemory) (m : μ) (i flight : Nat)
    (threadActive : SimtMask w) (warp : ShdWarp w) : Prop extends ShdWarp.Books model program m i flight warp where
  next_lt : warp.next < ibufferSize
  aligned : warp.ibufferEmpty = false → warp.ibufferNextValid = true
  live : warp.ibufferEmpty = false → Machine.Live model m i
  cdp : warp.cdpLatency > 0 → warp.cdpDummy = true
  idle : warp.doneExit = true →
    warp.storesOutstanding = 0 ∧ warp.instInPipeline = 0 ∧ threadActive = ∅ ∧ ¬ Machine.Live model m i
  busy : warp.doneExit = false → threadActive.Nonempty

/-- Instructions for the warp are on their way to its buffer. -/
def Awaited (core : FrontEnd w μ) (i : Nat) : Prop :=
  (core.warp i).imissPending = true ∨ ∃ buffer, core.instFetchBuffer = some buffer ∧ buffer.warpId = i

/-- What holds of the instructions on their way: those of a warp come from one place, where they are looked for at the
PC of the warp. -/
structure Fetching (model : ThreadModel w μ) (core : FrontEnd w μ) : Prop where
  serving : core.l1i.Serving core.pool
  held : ∀ mf, core.l1i.Held mf → (core.warp (core.wid mf)).imissPending = true ∧
    core.l1i.origin core.pool mf = fetchAddr (core.warp (core.wid mf)).nextPc
  single : ∀ mf other, core.l1i.Held mf → core.l1i.Held other → core.wid mf = core.wid other → mf = other
  pending : ∀ i, (core.warp i).imissPending = true → ∃ mf, core.l1i.Held mf ∧ core.wid mf = i
  buffer : ∀ buffer, core.instFetchBuffer = some buffer →
    (core.warp buffer.warpId).imissPending = false ∧ buffer.pc = (core.warp buffer.warpId).nextPc
  empty : ∀ i, core.Awaited i → (core.warp i).ibufferEmpty = true ∧ Machine.Live model core.machine.threads i

/-- The counts of the core are those of its warps. -/
structure Counted (cfg : FrontEndConfig) (core : FrontEnd w μ) : Prop where
  outside : ∀ i, cfg.maxWarpsPerShader ≤ i → (core.warp i).doneExit = true
  notCompleted : core.notCompleted = ∑ i ∈ Finset.range cfg.maxWarpsPerShader, (core.threadActive i).card
  activeWarps : core.activeWarps =
    ((Finset.range cfg.maxWarpsPerShader).filter fun i => (core.warp i).doneExit = false).card

structure Sound (cfg : FrontEndConfig) (model : ThreadModel w μ) (program : InstructionMemory) (flight : Nat → Nat)
    (core : FrontEnd w μ) : Prop where
  warps : ∀ i, WarpSound model program core.machine.threads i (flight i) (core.threadActive i) (core.warp i)
  fetching : Fetching model core
  counted : Counted cfg core

variable {cfg : FrontEndConfig} {model : ThreadModel w μ} {program : InstructionMemory} {core next : FrontEnd w μ}
  {i : Nat} {flight : Nat → Nat} {running : Nat}

@[simp] theorem setWarp_warp_self (core : FrontEnd w μ) (i : Nat) (warp : ShdWarp w) :
    (core.setWarp i warp).warp i = warp := by
  simp [setWarp]

@[simp] theorem setWarp_wid (core : FrontEnd w μ) (i : Nat) (warp : ShdWarp w) :
    (core.setWarp i warp).wid = core.wid := rfl

@[simp] theorem setWarp_pool (core : FrontEnd w μ) (i : Nat) (warp : ShdWarp w) :
    (core.setWarp i warp).pool = core.pool := rfl

@[simp] theorem setWarp_machine (core : FrontEnd w μ) (i : Nat) (warp : ShdWarp w) :
    (core.setWarp i warp).machine = core.machine := rfl

theorem setWarp_warp_of_ne (core : FrontEnd w μ) (warp : ShdWarp w) {i j : Nat} (apart : j ≠ i) :
    (core.setWarp i warp).warp j = core.warp j := by
  simp [setWarp, apart]

theorem WarpSound.congr {m m' : μ} {threadActive : SimtMask w} {warp : ShdWarp w}
    (sound : WarpSound model program m i running threadActive warp)
      (done : ∀ lane, model.done m' i lane = model.done m i lane) :
    WarpSound model program m' i running threadActive warp := by
  have living : Machine.Live model m' i ↔ Machine.Live model m i := by
    simp only [Machine.Live, done]
  refine ⟨sound.toBooks.congr rfl rfl rfl done sound.counted, sound.next_lt, sound.aligned, ?_, sound.cdp, ?_,
    sound.busy⟩
  · rw [living]; exact sound.live
  · rw [living]; exact sound.idle

/-- The instructions on their way are not disturbed by what warps do that await none. -/
theorem Fetching.congr (fetching : Fetching model core) (l1i : next.l1i = core.l1i) (pool : next.pool = core.pool)
    (wid : next.wid = core.wid) (buffer : next.instFetchBuffer = core.instFetchBuffer)
    (missing : ∀ i, (next.warp i).imissPending = (core.warp i).imissPending)
    (awaited : ∀ i, core.Awaited i → (next.warp i).nextPc = (core.warp i).nextPc ∧ (next.warp i).ibufferEmpty = true ∧
      Machine.Live model next.machine.threads i) : Fetching model next where
  serving := by rw [l1i, pool]; exact fetching.serving
  held mf member := by
    rw [l1i] at member
    obtain ⟨miss, origin⟩ := fetching.held mf member
    rw [l1i, pool, wid, missing, (awaited _ (.inl miss)).1]
    exact ⟨miss, origin⟩
  single := by rw [l1i, wid]; exact fetching.single
  pending i miss := by
    rw [missing] at miss
    rw [l1i, wid]
    exact fetching.pending i miss
  buffer b found := by
    rw [buffer] at found
    rw [missing, (awaited _ (.inr ⟨b, found, rfl⟩)).1]
    exact fetching.buffer b found
  empty i waits := by
    rw [Awaited, missing, buffer] at waits
    exact (awaited i waits).2

/-- Nor by what a warp does that awaits none any more. -/
theorem Fetching.apart (fetching : Fetching model core) (l1i : next.l1i = core.l1i) (pool : next.pool = core.pool)
    (wid : next.wid = core.wid) (noMiss : (core.warp i).imissPending = false)
    (noMiss' : (next.warp i).imissPending = false)
    (buffer : ∀ b, next.instFetchBuffer = some b → core.instFetchBuffer = some b ∧ b.warpId ≠ i)
    (others : ∀ j, j ≠ i → next.warp j = core.warp j ∧
      (Machine.Live model core.machine.threads j →
        Machine.Live model next.machine.threads j)) : Fetching model next where
  serving := by rw [l1i, pool]; exact fetching.serving
  held mf member := by
    rw [l1i] at member
    obtain ⟨miss, origin⟩ := fetching.held mf member
    have apart : core.wid mf ≠ i := by
      rintro rfl
      rw [noMiss] at miss
      contradiction
    rw [l1i, pool, wid, (others _ apart).1]
    exact ⟨miss, origin⟩
  single := by rw [l1i, wid]; exact fetching.single
  pending j miss := by
    have apart : j ≠ i := by
      rintro rfl
      rw [noMiss'] at miss
      contradiction
    rw [(others j apart).1] at miss
    rw [l1i, wid]
    exact fetching.pending j miss
  buffer b found := by
    obtain ⟨before, apart⟩ := buffer b found
    rw [(others _ apart).1]
    exact fetching.buffer b before
  empty j waits := by
    have apart : j ≠ i := by
      rintro rfl
      rcases waits with miss | ⟨b, found, same⟩
      · rw [noMiss'] at miss
        contradiction
      · exact (buffer b found).2 same
    have before : core.Awaited j := by
      rcases waits with miss | ⟨b, found, same⟩
      · exact .inl ((others j apart).1 ▸ miss)
      · exact .inr ⟨b, (buffer b found).1, same⟩
    obtain ⟨empty, live⟩ := fetching.empty j before
    exact ⟨(others j apart).1 ▸ empty, (others j apart).2 live⟩

/-- The instruction cache goes on with the requests that it holds. -/
theorem Fetching.same_held (fetching : Fetching model core) (serving : next.l1i.Serving next.pool)
    (same : DataCache.SameHeld next.l1i next.pool core.l1i core.pool)
    (wid : ∀ mf, core.l1i.Held mf → next.wid mf = core.wid mf) (warp : next.warp = core.warp)
    (buffer : next.instFetchBuffer = core.instFetchBuffer)
    (live : ∀ i, Machine.Live model core.machine.threads i → Machine.Live model next.machine.threads i) :
    Fetching model next where
  serving := serving
  held mf member := by
    have before := (same.held mf).mp member
    rw [warp, wid mf before, same.origin mf before]
    exact fetching.held mf before
  single mf other member member' := by
    have before := (same.held mf).mp member
    have before' := (same.held other).mp member'
    rw [wid mf before, wid other before']
    exact fetching.single mf other before before'
  pending i miss := by
    rw [warp] at miss
    obtain ⟨mf, member, own⟩ := fetching.pending i miss
    exact ⟨mf, (same.held mf).mpr member, by rw [wid mf member, own]⟩
  buffer := by rw [buffer, warp]; exact fetching.buffer
  empty i waits := by
    rw [Awaited, warp, buffer] at waits
    obtain ⟨empty, lives⟩ := fetching.empty i waits
    exact ⟨by rw [warp]; exact empty, live i lives⟩

/-- One warp has been dealt with; the others stay as they are. -/
theorem Sound.warps_of {flight' : Nat → Nat} (sound : Sound cfg model program flight core)
    (own : WarpSound model program next.machine.threads i (flight' i) (next.threadActive i) (next.warp i))
    (running : ∀ j, j ≠ i → flight' j = flight j)
    (others : ∀ j, j ≠ i → next.warp j = core.warp j ∧ next.threadActive j = core.threadActive j ∧
      ∀ lane, model.done next.machine.threads j lane = model.done core.machine.threads j lane) (j : Nat) :
    WarpSound model program next.machine.threads j (flight' j) (next.threadActive j) (next.warp j) := by
  by_cases here : j = i
  · rwa [here]
  · obtain ⟨warp, threadActive, done⟩ := others j here
    rw [warp, threadActive, running j here]
    exact (sound.warps j).congr done

/-- What a warp holds beside its instructions and its counts may change. -/
theorem WarpSound.with_same {m : μ} {threadActive : SimtMask w} {warp warp' : ShdWarp w}
    (sound : WarpSound model program m i running threadActive warp) (ibuffer : warp'.ibuffer = warp.ibuffer)
    (active : warp'.activeThreads = warp.activeThreads) (completed : warp'.nCompleted = warp.nCompleted)
    (pipeline : warp'.instInPipeline = warp.instInPipeline) (slot : warp'.next = warp.next)
    (doneExit : warp'.doneExit = warp.doneExit) (stores : warp'.storesOutstanding = warp.storesOutstanding)
    (cdp : warp'.cdpLatency > 0 → warp'.cdpDummy = true) : WarpSound model program m i running threadActive warp' := by
  have books : ShdWarp.Books model program m i running warp' :=
    sound.toBooks.congr ibuffer active completed (fun _ => rfl) (by rw [pipeline]; exact sound.counted)
  have empty : warp'.ibufferEmpty = warp.ibufferEmpty := by rw [ShdWarp.ibufferEmpty, ibuffer, ShdWarp.ibufferEmpty]
  refine ⟨books, by rw [slot]; exact sound.next_lt, ?_, by rw [empty]; exact sound.live,
    cdp, ?_, by rw [doneExit]; exact sound.busy⟩
  · rw [empty, ShdWarp.ibufferNextValid, ibuffer, slot]
    exact sound.aligned
  · rw [doneExit, stores, pipeline]
    exact sound.idle

theorem setWarp_same {α : Type} {core : FrontEnd w μ} {i : Nat} {warp : ShdWarp w} (field : ShdWarp w → α)
    (same : field warp = field (core.warp i)) (j : Nat) :
      field ((core.setWarp i warp).warp j) = field (core.warp j) := by
  by_cases here : j = i
  · rw [here, setWarp_warp_self, same]
  · rw [setWarp_warp_of_ne _ _ here]

theorem Counted.congr (counted : Counted cfg core) (doneExit : ∀ i, (next.warp i).doneExit = (core.warp i).doneExit)
    (threadActive : next.threadActive = core.threadActive) (completed : next.notCompleted = core.notCompleted)
    (active : next.activeWarps = core.activeWarps) : Counted cfg next where
  outside i beyond := by rw [doneExit]; exact counted.outside i beyond
  notCompleted := by rw [completed, threadActive]; exact counted.notCompleted
  activeWarps := by
    rw [active, counted.activeWarps]
    simp only [doneExit]

/-- Nothing changes that fetch looks at. -/
theorem Sound.setWarp {flight' : Nat → Nat} {warp : ShdWarp w} (sound : Sound cfg model program flight core)
    (own : WarpSound model program core.machine.threads i (flight' i) (core.threadActive i) warp)
    (running : ∀ j, j ≠ i → flight' j = flight j)
    (miss : warp.imissPending = (core.warp i).imissPending) (nextPc : warp.nextPc = (core.warp i).nextPc)
    (ibuffer : warp.ibuffer = (core.warp i).ibuffer) (doneExit : warp.doneExit = (core.warp i).doneExit) :
    Sound cfg model program flight' (core.setWarp i warp) := by
  have others := fun j => setWarp_warp_of_ne core warp (i := i) (j := j)
  refine ⟨sound.warps_of (i := i) (by rw [setWarp_warp_self]; exact own) running
      fun j apart => ⟨others j apart, rfl, fun _ => rfl⟩,
    sound.fetching.congr rfl rfl rfl rfl ?_ ?_,
      sound.counted.congr (setWarp_same ShdWarp.doneExit doneExit) rfl rfl rfl⟩
  · intro j
    by_cases here : j = i
    · rw [here, setWarp_warp_self, miss]
    · rw [others j here]
  · intro j waits
    obtain ⟨empty, live⟩ := sound.fetching.empty j waits
    by_cases here : j = i
    · subst here
      rw [setWarp_warp_self, ShdWarp.ibufferEmpty, ibuffer]
      exact ⟨nextPc, empty, live⟩
    · rw [others j here]
      exact ⟨rfl, empty, live⟩

/-! ## What is seen of a step -/

/-- Whether the warp has been launched and not been given back. -/
def resident (core : FrontEnd w μ) (i : Nat) : Nat := if (core.warp i).doneExit then 0 else 1

variable {events later : List (FrontEndEvent w μ)} {last : FrontEnd w μ}

/-- What the memory system has still to do for a warp. -/
def outstanding (warp : ShdWarp w) : Nat × Nat := (warp.nAtomic, warp.storesOutstanding)

/-- No thread executes; at most some warps are given back. -/
structure Quiet (core next : FrontEnd w μ) (events : List (FrontEndEvent w μ)) : Prop where
  machine : next.machine = core.machine
  exits : ∀ event ∈ events, ∃ i lanes, event = .exited i lanes
  resident : ∀ i, next.resident i + events.countP (FrontEndEvent.isExit i) = core.resident i
  outstanding : ∀ i, outstanding (next.warp i) = outstanding (core.warp i)

theorem Quiet.refl (core : FrontEnd w μ) : Quiet core core [] := ⟨rfl, by simp, fun _ => rfl, fun _ => rfl⟩

theorem Quiet.of_same (machine : next.machine = core.machine)
    (same : ∀ i, (next.warp i).doneExit = (core.warp i).doneExit ∧
      FrontEnd.outstanding (next.warp i) = FrontEnd.outstanding (core.warp i)) :
    Quiet core next [] where
  machine := machine
  exits := by simp
  resident i := by simp [FrontEnd.resident, same]
  outstanding i := (same i).2

theorem Quiet.of_setWarp {warp : ShdWarp w} (machine : next.machine = core.machine)
    (warps : next.warp = (core.setWarp i warp).warp) (doneExit : warp.doneExit = (core.warp i).doneExit)
    (outstanding : FrontEnd.outstanding warp = FrontEnd.outstanding (core.warp i)) : Quiet core next [] := by
  refine .of_same machine fun j => ?_
  rw [warps]
  exact ⟨setWarp_same ShdWarp.doneExit doneExit j, setWarp_same FrontEnd.outstanding outstanding j⟩

theorem Quiet.congr (quiet : Quiet core next events) (machine : last.machine = next.machine)
    (warp : last.warp = next.warp) :
    Quiet core last events where
  machine := machine.trans quiet.machine
  exits := quiet.exits
  resident i := by
    rw [FrontEnd.resident, warp]
    exact quiet.resident i
  outstanding i := by
    rw [warp]
    exact quiet.outstanding i

theorem Quiet.trans (quiet : Quiet core next events) (more : Quiet next last later) :
    Quiet core last (events ++ later) where
  machine := more.machine.trans quiet.machine
  exits event member := (List.mem_append.mp member).elim (quiet.exits event) (more.exits event)
  resident i := by
    rw [List.countP_append, ← quiet.resident i, ← more.resident i]
    omega
  outstanding i := (more.outstanding i).trans (quiet.outstanding i)

/-- One warp is launched or given back. -/
theorem Counted.update (counted : Counted cfg core) (inside : i < cfg.maxWarpsPerShader) {lanes : SimtMask w}
    (others : ∀ j, j ≠ i → (next.warp j).doneExit = (core.warp j).doneExit)
    (threadActive : next.threadActive = Function.update core.threadActive i lanes)
    (completed : next.notCompleted + (core.threadActive i).card = core.notCompleted + lanes.card)
    (active : next.activeWarps + (if (core.warp i).doneExit then 0 else 1) =
      core.activeWarps + if (next.warp i).doneExit then 0 else 1) : Counted cfg next where
  outside j beyond := by
    rw [others j (by omega)]
    exact counted.outside j beyond
  notCompleted := by
    have member := Finset.mem_range.mpr inside
    have before := counted.notCompleted
    rw [← Finset.add_sum_erase _ _ member] at before
    have after : ∑ j ∈ (Finset.range cfg.maxWarpsPerShader).erase i, (next.threadActive j).card =
        ∑ j ∈ (Finset.range cfg.maxWarpsPerShader).erase i, (core.threadActive j).card := by
      refine Finset.sum_congr rfl fun j other => ?_
      rw [threadActive, Function.update_of_ne (Finset.ne_of_mem_erase other)]
    rw [← Finset.add_sum_erase _ _ member, after, threadActive, Function.update_self]
    omega
  activeWarps := by
    have member := Finset.mem_range.mpr inside
    have others : ((Finset.range cfg.maxWarpsPerShader).erase i).filter (fun j => (next.warp j).doneExit = false) =
        ((Finset.range cfg.maxWarpsPerShader).erase i).filter fun j => (core.warp j).doneExit = false := by
      refine Finset.filter_congr fun j other => ?_
      rw [others j (Finset.ne_of_mem_erase other)]
    have split : ∀ core : FrontEnd w μ,
      ((Finset.range cfg.maxWarpsPerShader).filter fun j => (core.warp j).doneExit = false).card =
        (((Finset.range cfg.maxWarpsPerShader).erase i).filter fun j => (core.warp j).doneExit = false).card +
          if (core.warp i).doneExit then 0 else 1 := by
      intro core
      rw [← Finset.insert_erase member, Finset.filter_insert, Finset.erase_insert (Finset.notMem_erase _ _)]
      cases (core.warp i).doneExit with
      | true => simp
      | false =>
          rw [if_pos rfl, Finset.card_insert_of_notMem (by simp)]
          rfl
    have before := counted.activeWarps
    rw [split, others]
    rw [split] at before
    cases done : (core.warp i).doneExit <;> cases done' : (next.warp i).doneExit <;>
      simp only [done, done', Bool.false_eq_true, if_true, if_false] at before active ⊢ <;> omega

end FrontEnd

end GpgpuSim.Shader
