import GpgpuSim.Functional.Interleaving

/-! `shd_warp_t`: a warp as fetch, decode and issue see it, with the two instructions that have been fetched for
it and the counts of what is still under way. -/
namespace GpgpuSim.Shader
open Functional Simt Transition

structure IbufferEntry where
  inst : Option DecodedInst := none
  valid : Bool := false

/-- `IBUFFER_SIZE`. -/
def ibufferSize : Nat := 2

structure ShdWarp (w : Nat) where
  ctaId : Nat := 0
  nextPc : AddressType := 0
  nCompleted : Nat := w
  activeThreads : SimtMask w := ∅
  imissPending : Bool := false
  ibuffer : Nat → IbufferEntry := fun _ => {}
  next : Nat := 0
  nAtomic : Nat := 0
  membar : Bool := false
  doneExit : Bool := true
  storesOutstanding : Nat := 0
  instInPipeline : Nat := 0
  cdpLatency : Nat := 0
  cdpDummy : Bool := false

variable {w : Nat} {μ : Type}

namespace ShdWarp

/-- `reset`, which leaves the instruction buffer as it is. -/
def reset (warp : ShdWarp w) : Except ExecFault (ShdWarp w) :=
  if warp.storesOutstanding ≠ 0 then .error .assertion
  else if warp.instInPipeline ≠ 0 then .error .assertion
  else .ok { warp with
    imissPending := false, nCompleted := w, nAtomic := 0, membar := false, doneExit := true, next := 0
    cdpLatency := 0, cdpDummy := false }

def init (warp : ShdWarp w) (startPc : AddressType) (ctaId : Nat) (active : SimtMask w) :
    Except ExecFault (ShdWarp w) :=
  if warp.nCompleted < active.card then .error .assertion
  else if w < warp.nCompleted then .error .assertion
  else .ok { warp with
    ctaId, nextPc := startPc, nCompleted := warp.nCompleted - active.card, activeThreads := active, doneExit := false
    cdpLatency := 0, cdpDummy := false }

def setCompleted (warp : ShdWarp w) (lane : Fin w) : Except ExecFault (ShdWarp w) :=
  if lane ∈ warp.activeThreads then
    .ok { warp with activeThreads := warp.activeThreads.erase lane, nCompleted := warp.nCompleted + 1 }
  else .error .assertion

def decInstInPipeline (warp : ShdWarp w) : Except ExecFault (ShdWarp w) :=
  if warp.instInPipeline > 0 then .ok { warp with instInPipeline := warp.instInPipeline - 1 } else .error .assertion

def incInstInPipeline (warp : ShdWarp w) : ShdWarp w := { warp with instInPipeline := warp.instInPipeline + 1 }

/-- `dec_n_atomic` past the assertion of its only caller, `decrement_atomic_count`. -/
def decNAtomic (warp : ShdWarp w) (n : Nat) : Except ExecFault (ShdWarp w) :=
  if warp.nAtomic ≥ n then .ok { warp with nAtomic := warp.nAtomic - n } else .error .assertion

def incStoreReq (warp : ShdWarp w) : ShdWarp w := { warp with storesOutstanding := warp.storesOutstanding + 1 }

def decStoreReq (warp : ShdWarp w) : Except ExecFault (ShdWarp w) :=
  if warp.storesOutstanding > 0 then .ok { warp with storesOutstanding := warp.storesOutstanding - 1 }
  else .error .assertion

/-- `ibuffer_fill`, which is called for the slots that there are. -/
def ibufferFill (warp : ShdWarp w) (slot : Nat) (inst : Option DecodedInst) : ShdWarp w :=
  { warp with ibuffer := Function.update warp.ibuffer slot ⟨inst, true⟩, next := 0 }

def ibufferEmpty (warp : ShdWarp w) : Bool := (List.range ibufferSize).all fun slot => !(warp.ibuffer slot).valid

def numInstInBuffer (warp : ShdWarp w) : Nat := (List.range ibufferSize).countP fun slot => (warp.ibuffer slot).valid

def clearSlot (warp : ShdWarp w) (slot : Nat) : ShdWarp w :=
  { warp with ibuffer := Function.update warp.ibuffer slot {} }

def flushSlot (warp : ShdWarp w) (slot : Nat) : Except ExecFault (ShdWarp w) :=
  if (warp.ibuffer slot).valid then (warp.decInstInPipeline).map fun warp => warp.clearSlot slot
  else .ok (warp.clearSlot slot)

def ibufferFlush (warp : ShdWarp w) : Except ExecFault (ShdWarp w) :=
  (List.range ibufferSize).foldlM flushSlot warp

def ibufferNextInst (warp : ShdWarp w) : Option DecodedInst := (warp.ibuffer warp.next).inst

def ibufferNextValid (warp : ShdWarp w) : Bool := (warp.ibuffer warp.next).valid

def ibufferFree (warp : ShdWarp w) : ShdWarp w := warp.clearSlot warp.next

def ibufferStep (warp : ShdWarp w) : ShdWarp w := { warp with next := (warp.next + 1) % ibufferSize }

def functionalDone (warp : ShdWarp w) : Bool := warp.nCompleted == w

def hardwareDone (warp : ShdWarp w) : Bool :=
  warp.functionalDone && warp.storesOutstanding == 0 && !decide (warp.instInPipeline > 0)

/-- `exec_shader_core_ctx::checkExecutionStatusAndUpdate`, without the translation of local addresses. A lane counts as
an outstanding atomic operation even where its predicate has kept it from executing. -/
def checkExecutionStatusAndUpdate (model : ThreadModel w μ) (inst : DecodedInst) (i : Nat) (warp : ShdWarp w)
    (lane : Fin w) (threads : μ) : Except ExecFault (ShdWarp w) := do
  let warp := if inst.isAtomic then { warp with nAtomic := warp.nAtomic + 1 } else warp
  if model.done threads i lane then (← warp.setCompleted lane).ibufferFlush else return warp

/-! ## The instruction buffer -/

variable {warp next : ShdWarp w} {program : InstructionMemory} {slot : Nat} {inst : Option DecodedInst}

theorem ibufferEmpty_iff :
    warp.ibufferEmpty = true ↔ (warp.ibuffer 0).valid = false ∧ (warp.ibuffer 1).valid = false := by
  simp [ibufferEmpty, ibufferSize, List.range_succ]

/-- How many instructions a slot holds. -/
def inSlot (warp : ShdWarp w) (slot : Nat) : Nat := if (warp.ibuffer slot).valid then 1 else 0

theorem numInstInBuffer_eq : warp.numInstInBuffer = warp.inSlot 0 + warp.inSlot 1 := by
  simp [numInstInBuffer, ibufferSize, inSlot, List.range_succ, List.countP_cons, Nat.add_comm]

theorem numInstInBuffer_eq_zero : warp.numInstInBuffer = 0 ↔ warp.ibufferEmpty = true := by
  rw [numInstInBuffer_eq, ibufferEmpty_iff, inSlot, inSlot]
  cases (warp.ibuffer 0).valid <;> cases (warp.ibuffer 1).valid <;> simp

theorem flushSlot_eq (counted : warp.inSlot slot ≤ warp.instInPipeline) :
    warp.flushSlot slot =
      .ok { warp.clearSlot slot with instInPipeline := warp.instInPipeline - warp.inSlot slot } := by
  rw [flushSlot, inSlot] at *
  split
  next valid =>
    rw [if_pos valid] at counted
    rw [decInstInPipeline, if_pos (Nat.lt_of_succ_le counted)]
    rfl
  next empty => rfl

/-- What a flush leaves. -/
def flushed (warp : ShdWarp w) : ShdWarp w :=
  { (warp.clearSlot 0).clearSlot 1 with instInPipeline := warp.instInPipeline - warp.numInstInBuffer }

/-- No assertion of a flush fails while each buffered instruction is counted. -/
theorem ibufferFlush_eq (counted : warp.numInstInBuffer ≤ warp.instInPipeline) :
    warp.ibufferFlush = .ok warp.flushed := by
  rw [numInstInBuffer_eq] at counted
  have first : warp.inSlot 0 ≤ warp.instInPipeline := Nat.le_trans (Nat.le_add_right _ _) counted
  have second : inSlot { warp.clearSlot 0 with instInPipeline := warp.instInPipeline - warp.inSlot 0 } 1 =
    warp.inSlot 1 := rfl
  rw [ibufferFlush, flushed, numInstInBuffer_eq, Nat.sub_add_eq, ← second]
  refine bind_ok.mpr ⟨_, flushSlot_eq first, bind_ok.mpr ⟨_, flushSlot_eq ?_, rfl⟩⟩
  rw [second]
  dsimp only
  omega

theorem ibufferEmpty_flushed : warp.flushed.ibufferEmpty = true := by
  simp [ibufferEmpty_iff, flushed, clearSlot]

/-! ## The counts of a warp -/

variable {model : ThreadModel w μ} {m : μ} {i spare : Nat}

/-- What holds of a warp whose threads are those of warp `i` in `m`. Besides the buffered instructions `spare` more are
counted. -/
structure Books (model : ThreadModel w μ) (program : InstructionMemory) (m : μ) (i spare : Nat) (warp : ShdWarp w) :
    Prop where
  fetched : ∀ slot inst, (warp.ibuffer slot).inst = some inst → program.fetch inst.pc = some inst
  tidy : ∀ slot, (warp.ibuffer slot).valid = false → (warp.ibuffer slot).inst = none
  counted : warp.numInstInBuffer + spare = warp.instInPipeline
  active : ∀ lane, lane ∈ warp.activeThreads ↔ model.done m i lane = false
  completed : warp.nCompleted + warp.activeThreads.card = w

theorem Books.functionalDone (books : Books model program m i spare warp) :
    warp.functionalDone = true ↔ ¬ Machine.Live model m i := by
  have empty : warp.activeThreads = ∅ ↔ ¬ Machine.Live model m i := by
    rw [← Finset.not_nonempty_iff_eq_empty, not_iff_not]
    exact exists_congr fun lane => books.active lane
  have total := books.completed
  rw [← empty, ← Finset.card_eq_zero, ShdWarp.functionalDone, beq_iff_eq]
  omega

/-- The counts concern the buffer, the threads and the pipeline. -/
theorem Books.congr (books : Books model program m i spare warp) {spare' : Nat} {m' : μ}
    (ibuffer : next.ibuffer = warp.ibuffer)
    (active : next.activeThreads = warp.activeThreads) (completed : next.nCompleted = warp.nCompleted)
    (done : ∀ lane, model.done m' i lane = model.done m i lane)
    (counted : warp.numInstInBuffer + spare' = next.instInPipeline) : Books model program m' i spare' next where
  fetched := by rw [ibuffer]; exact books.fetched
  tidy := by rw [ibuffer]; exact books.tidy
  counted := by
    rw [numInstInBuffer, ibuffer]
    exact counted
  active lane := by rw [active, done]; exact books.active lane
  completed := by rw [active, completed]; exact books.completed

theorem inSlot_clearSlot (slot other : Nat) :
    inSlot (warp.clearSlot slot) other = if other = slot then 0 else warp.inSlot other := by
  by_cases here : other = slot
  · simp [inSlot, clearSlot, here]
  · simp [inSlot, clearSlot, here]

theorem numInstInBuffer_clearSlot (inside : slot < ibufferSize) :
    (warp.clearSlot slot).numInstInBuffer + warp.inSlot slot = warp.numInstInBuffer := by
  rw [numInstInBuffer_eq, numInstInBuffer_eq, inSlot_clearSlot, inSlot_clearSlot]
  rw [ibufferSize] at inside
  obtain rfl | rfl : slot = 0 ∨ slot = 1 := by omega
  · rw [if_pos rfl, if_neg Nat.one_ne_zero]
    omega
  · rw [if_pos rfl, if_neg Nat.zero_ne_one]
    omega

/-- An instruction that leaves the buffer is still counted. -/
theorem Books.clearSlot (books : Books model program m i spare warp) (inside : slot < ibufferSize) :
    Books model program m i (spare + warp.inSlot slot) (warp.clearSlot slot) where
  fetched other inst found := by
    by_cases here : other = slot
    · subst here
      simp [ShdWarp.clearSlot] at found
    · simp only [ShdWarp.clearSlot, Function.update_of_ne here] at found
      exact books.fetched other inst found
  tidy other invalid := by
    by_cases here : other = slot
    · subst here
      simp [ShdWarp.clearSlot]
    · simp only [ShdWarp.clearSlot, Function.update_of_ne here] at invalid ⊢
      exact books.tidy other invalid
  counted := by
    have counted := books.counted
    have cleared : (warp.clearSlot slot).numInstInBuffer + warp.inSlot slot = warp.numInstInBuffer :=
      numInstInBuffer_clearSlot inside
    dsimp only [ShdWarp.clearSlot] at cleared ⊢
    omega
  active := books.active
  completed := books.completed

theorem inSlot_fill (slot other : Nat) :
    inSlot (warp.ibufferFill slot inst) other = if other = slot then 1 else warp.inSlot other := by
  by_cases here : other = slot
  · subst here
    simp [inSlot, ibufferFill]
  · simp [inSlot, ibufferFill, here]

/-- An instruction is placed in a slot that is free. -/
theorem Books.fill (books : Books model program m i spare warp) (inside : slot < ibufferSize)
    (free : (warp.ibuffer slot).valid = false)
    (fetched : ∀ found, inst = some found → program.fetch found.pc = some found) :
    Books model program m i spare (warp.ibufferFill slot inst).incInstInPipeline where
  fetched other found here := by
    by_cases same : other = slot
    · subst same
      exact fetched found (by simpa [incInstInPipeline, ibufferFill] using here)
    · exact books.fetched other found (by simpa [incInstInPipeline, ibufferFill, same] using here)
  tidy other invalid := by
    by_cases same : other = slot
    · subst same
      simp [incInstInPipeline, ibufferFill] at invalid
    · simpa [incInstInPipeline, ibufferFill, same] using books.tidy other
        (by simpa [incInstInPipeline, ibufferFill, same] using invalid)
  counted := by
    have counted := books.counted
    have more : (warp.ibufferFill slot inst).incInstInPipeline.numInstInBuffer = warp.numInstInBuffer + 1 := by
      have none : warp.inSlot slot = 0 := by simp [inSlot, free]
      have filled : (warp.ibufferFill slot inst).incInstInPipeline.numInstInBuffer =
          inSlot (warp.ibufferFill slot inst) 0 + inSlot (warp.ibufferFill slot inst) 1 := numInstInBuffer_eq
      rw [filled, numInstInBuffer_eq, inSlot_fill, inSlot_fill]
      obtain rfl | rfl : slot = 0 ∨ slot = 1 := by
        rw [ibufferSize] at inside
        omega
      · rw [if_pos rfl, if_neg Nat.one_ne_zero, none]
        omega
      · rw [if_pos rfl, if_neg Nat.zero_ne_one, none]
    rw [more]
    dsimp only [incInstInPipeline, ibufferFill]
    omega
  active := books.active
  completed := books.completed

theorem Books.flushed (books : Books model program m i spare warp) :
    warp.ibufferFlush = .ok warp.flushed ∧ Books model program m i spare warp.flushed := by
  have counted := books.counted
  have first : Books model program m i (spare + warp.inSlot 0) (warp.clearSlot 0) := books.clearSlot Nat.zero_lt_two
  have cleared : Books model program m i (spare + warp.inSlot 0 + (warp.clearSlot 0).inSlot 1)
    ((warp.clearSlot 0).clearSlot 1) := first.clearSlot Nat.one_lt_two
  refine ⟨ibufferFlush_eq (by omega), cleared.congr rfl rfl rfl (fun _ => rfl) ?_⟩
  have none : ((warp.clearSlot 0).clearSlot 1).numInstInBuffer = 0 :=
    numInstInBuffer_eq_zero.mpr ibufferEmpty_flushed
  rw [none]
  dsimp only [ShdWarp.flushed]
  omega

/-! ## The lanes of an instruction -/

/-- Where the lanes of `rest` have still to execute an instruction that began with the threads `m₀`. -/
structure Executing (model : ThreadModel w μ) (program : InstructionMemory) (inst : DecodedInst) (i : Nat)
    (mask : SimtMask w) (before : ShdWarp w) (m₀ : μ) (spare : Nat) (rest : List (Fin w)) (warp : ShdWarp w) (m : μ) :
    Prop where
  books : Books model program m i spare warp
  frame : warp = { before with
    activeThreads := warp.activeThreads, nCompleted := warp.nCompleted, ibuffer := warp.ibuffer
    nAtomic := warp.nAtomic, instInPipeline := warp.instInPipeline }
  buffer : warp.ibufferEmpty = true ∨
    warp.ibuffer = before.ibuffer ∧ ∀ lane, model.done m i lane = model.done m₀ i lane
  atomic : warp.nAtomic + (if inst.isAtomic then rest.countP fun lane => decide (lane ∈ mask) else 0) =
    before.nAtomic + if inst.isAtomic then mask.card else 0

variable {inst : DecodedInst} {mask : SimtMask w} {before : ShdWarp w} {m₀ : μ} {lane : Fin w} {rest : List (Fin w)}

theorem Books.execInst (books : Books model program m i spare warp) (live : model.done m i lane = false)
    (ended : model.done (model.execInst inst i lane m).1 i lane = true) :
    warp.setCompleted lane =
        .ok { warp with activeThreads := warp.activeThreads.erase lane, nCompleted := warp.nCompleted + 1 } ∧
      Books model program (model.execInst inst i lane m).1 i spare
        { warp with activeThreads := warp.activeThreads.erase lane, nCompleted := warp.nCompleted + 1 } := by
  have member : lane ∈ warp.activeThreads := (books.active lane).mpr live
  refine ⟨by rw [setCompleted, if_pos member], books.fetched, books.tidy, books.counted, ?_, ?_⟩
  · intro other
    by_cases here : other = lane
    · subst here
      simp [ended]
    · have apart : (i, other) ≠ (i, lane) := fun same => here (Prod.ext_iff.mp same).2
      rw [(model.own inst i lane m i other apart).2]
      simp [here, books.active other]
  · have total := books.completed
    have positive := Finset.card_pos.mpr ⟨lane, member⟩
    dsimp only
    rw [Finset.card_erase_of_mem member]
    omega

theorem Executing.count (executing : Executing model program inst i mask before m₀ spare (lane :: rest) warp m)
    (active : lane ∈ mask) : Executing model program inst i mask before m₀ spare rest
      (if inst.isAtomic then { warp with nAtomic := warp.nAtomic + 1 } else warp) m := by
  obtain ⟨books, frame, buffer, atomic⟩ := executing
  rw [List.countP_cons_of_pos (by simpa using active)] at atomic
  cases counts : inst.isAtomic with
  | false =>
      simp only [counts, Bool.false_eq_true, if_false] at atomic ⊢
      exact ⟨books, frame, buffer, by simpa [counts] using atomic⟩
  | true =>
      simp only [counts, if_true] at atomic ⊢
      refine ⟨books.congr rfl rfl rfl (fun _ => rfl) books.counted, ?_, buffer, ?_⟩
      · exact congrArg (fun warp : ShdWarp w => { warp with nAtomic := warp.nAtomic + 1 }) frame
      · simp only [counts, if_true]
        omega

theorem Executing.skip (executing : Executing model program inst i mask before m₀ spare (lane :: rest) warp m)
    (idle : lane ∉ mask) : Executing model program inst i mask before m₀ spare rest warp m := by
  obtain ⟨books, frame, buffer, atomic⟩ := executing
  rw [List.countP_cons_of_neg (by simpa using idle)] at atomic
  exact ⟨books, frame, buffer, atomic⟩

theorem Executing.advance (executing : Executing model program inst i mask before m₀ spare rest warp m)
    (live : model.done m i lane = false) :
    Ends (if model.done (model.execInst inst i lane m).1 i lane then
      (warp.setCompleted lane).bind ibufferFlush else .ok warp)
      (fun next => Executing model program inst i mask before m₀ spare rest next (model.execInst inst i lane m).1)
      fun _ => False := by
  obtain ⟨books, frame, buffer, atomic⟩ := executing
  split
  next ended =>
    obtain ⟨completed, books⟩ := books.execInst live ended
    obtain ⟨flush, books⟩ := books.flushed
    rw [completed, Except.bind, flush]
    refine ⟨books, ?_, .inl ibufferEmpty_flushed, atomic⟩
    exact congrArg (fun warp : ShdWarp w => flushed
      { warp with activeThreads := warp.activeThreads.erase lane, nCompleted := warp.nCompleted + 1 }) frame
  next alive =>
    have same : ∀ other, model.done (model.execInst inst i lane m).1 i other = model.done m i other := by
      intro other
      by_cases here : other = lane
      · rw [here, live, Bool.not_eq_true _ |>.mp alive]
      · exact (model.own inst i lane m i other fun same => here (Prod.ext_iff.mp same).2).2
    refine ⟨books.congr rfl rfl rfl same books.counted, frame, ?_, atomic⟩
    rcases buffer with empty | ⟨kept, done⟩
    · exact .inl empty
    · exact .inr ⟨kept, fun other => (same other).trans (done other)⟩

/-- No assertion fails while the lanes execute. -/
theorem Executing.visit (executing : Executing model program inst i mask before m₀ spare (lane :: rest) warp m)
    (active : lane ∈ mask) (live : model.done m i lane = false) :
    Ends (checkExecutionStatusAndUpdate model inst i warp lane (model.execInst inst i lane m).1)
      (fun next => Executing model program inst i mask before m₀ spare rest next (model.execInst inst i lane m).1)
      fun _ => False := by
  have advanced := (executing.count active).advance live
  rw [checkExecutionStatusAndUpdate]
  exact advanced

/-- A whole instruction. -/
theorem Books.executeWarpInst (books : Books model program m i spare warp) :
    Ends (model.executeWarpInst (checkExecutionStatusAndUpdate model inst i) inst i mask m warp)
      (fun ended => Executing model program inst i mask warp m spare [] ended.core ended.threads)
      fun fault => fault = .outOfSync ∨ fault = .alreadyDone := by
  refine ThreadModel.ends_foldlM_visitLane
    (P := fun rest next n => Executing model program inst i mask warp m spare rest next n)
    (fun core n lane rest active live executing => (executing.visit active live).mono (fun _ kept => kept)
      fun _ => False.elim)
    (fun _ _ _ _ idle executing => executing.skip idle) (.inl rfl) (.inr rfl) ⟨books, rfl, .inr ⟨rfl, fun _ => rfl⟩, ?_⟩
  have whole : (List.finRange w).countP (fun lane => decide (lane ∈ mask)) = mask.card := by
    rw [List.countP_eq_length_filter, ← List.toFinset_card_of_nodup ((List.nodup_finRange w).filter _)]
    congr 1
    ext lane
    simp
  rw [whole]

end ShdWarp

end GpgpuSim.Shader
