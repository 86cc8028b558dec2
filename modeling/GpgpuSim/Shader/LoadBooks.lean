import GpgpuSim.Shader.LoadStoreUnit

/-! What each place that serves a load does to the counts of its registers. All registers of a load have one
count, and they are reserved as long as there is one. -/
namespace GpgpuSim.Shader
open Transition

/-- The load that a completion is of. -/
def CompletionEvent.load : CompletionEvent → WarpInst
  | .released inst _ | .completed inst => inst

/-- One completion of the load, and one release of each of its registers. -/
structure CompletesOnce (inst : WarpInst) (events : List CompletionEvent) : Prop where
  completed : events.count (.completed inst) = 1
  released : ∀ reg ∈ inst.outputs, events.count (.released inst reg) = 1
  own : ∀ event ∈ events, event.load = inst

namespace LdstBooks

/-- The registers get the value, and are reserved when there is one; all others stay as they are. -/
structure Assigned (warpId : Nat) (regs : List Nat) (value : Option Nat) (books next : LdstBooks) :
    Prop where
  inside : ∀ reg ∈ regs, next.pendingWrites warpId reg = value ∧
    (reg ∈ next.regTable warpId ↔ value.isSome)
  outside : ∀ w reg, ¬ (w = warpId ∧ reg ∈ regs) → next.pendingWrites w reg = books.pendingWrites w reg ∧
    (reg ∈ next.regTable w ↔ reg ∈ books.regTable w)

/-- The registers have the count and are reserved. -/
def Counted (books : LdstBooks) (warpId : Nat) (regs : List Nat) (count : Nat) : Prop :=
  ∀ reg ∈ regs, books.pendingWrites warpId reg = some count ∧ reg ∈ books.regTable warpId

variable {warpId reg count : Nat} {regs rest : List Nat} {value early : Option Nat} {inst : WarpInst}
  {books middle next : LdstBooks}

theorem pending_of_some (counted : books.pendingWrites warpId reg = some count) :
    books.pending warpId reg = count := by
  simp only [pending, counted, Option.getD_some]

theorem pending_of_none (absent : books.pendingWrites warpId reg = none) :
    books.pending warpId reg = 0 := by
  simp only [pending, absent, Option.getD_none]

namespace Assigned

theorem nil : Assigned warpId [] value books books where
  inside reg member := by contradiction
  outside _ _ _ := ⟨rfl, .rfl⟩

theorem cons (first : Assigned warpId [reg] value books middle) (others : Assigned warpId rest value middle next) :
    Assigned warpId (reg :: rest) value books next where
  inside r member := by
    by_cases later : r ∈ rest
    · exact others.inside r later
    · obtain rfl : r = reg := (List.mem_cons.mp member).resolve_right later
      have set := first.inside r List.mem_cons_self
      have kept := others.outside warpId r fun both => later both.2
      exact ⟨kept.1.trans set.1, kept.2.trans set.2⟩
  outside w r apart := by
    have early :=
      first.outside w r fun both => apart ⟨both.1, List.mem_cons.mpr
        (.inl (List.mem_singleton.mp both.2))⟩
    have late := others.outside w r fun both => apart ⟨both.1, List.mem_cons_of_mem reg both.2⟩
    exact ⟨late.1.trans early.1, late.2.trans early.2⟩

/-- What is assigned later counts. -/
theorem trans (first : Assigned warpId regs early books middle) (second : Assigned warpId regs value middle next) :
    Assigned warpId regs value books next where
  inside := second.inside
  outside w reg apart := by
    have before := first.outside w reg apart
    have after := second.outside w reg apart
    exact ⟨after.1.trans before.1, after.2.trans before.2⟩

theorem counted (assigned : Assigned warpId regs (some count) books next) :
    next.Counted warpId regs count := by
  intro reg member
  have set := assigned.inside reg member
  exact ⟨set.1, set.2.mpr rfl⟩

theorem of_counted (counted : books.Counted warpId regs count) : Assigned warpId regs
    (some count) books books where
  inside reg member := ⟨(counted reg member).1, iff_of_true (counted reg member).2 rfl⟩
  outside _ _ _ := ⟨rfl, .rfl⟩

end Assigned

namespace Counted

theorem head (counted : books.Counted warpId (reg :: rest) count) :
    books.pendingWrites warpId reg = some count ∧ reg ∈ books.regTable warpId :=
  counted reg List.mem_cons_self

/-- The registers after the first are not touched with it. -/
theorem tail (counted : books.Counted warpId (reg :: rest) count) (distinct : (reg :: rest).Nodup)
    (first : Assigned warpId [reg] value books next) : next.Counted warpId rest count := by
  intro r member
  have before := counted r (List.mem_cons_of_mem reg member)
  have other : r ≠ reg := by
    rintro rfl
    exact (List.nodup_cons.mp distinct).1 member
  have kept := first.outside warpId r fun both => other (List.mem_singleton.mp both.2)
  exact ⟨kept.1.trans before.1, kept.2.mpr before.2⟩

end Counted

/-! ## One register -/

theorem setPending_assigned (reserved : reg ∈ books.regTable warpId) :
    Assigned warpId [reg] (some count) books (books.setPending warpId reg (some count)) where
  inside r member := by
    obtain rfl := List.mem_singleton.mp member
    simpa [setPending] using reserved
  outside w r apart := by
    simp only [List.mem_singleton] at apart
    refine ⟨?_, .rfl⟩
    by_cases same : w = warpId
    · subst same
      simp [setPending, Function.update_of_ne fun both => apart ⟨rfl, both⟩]
    · simp [setPending, Function.update_of_ne same]

/-- The entry goes, and the register is released. -/
theorem release_assigned :
    Assigned warpId [reg] none books ((books.setPending warpId reg none).releaseRegister warpId reg) where
  inside r member := by
    obtain rfl := List.mem_singleton.mp member
    simp [setPending, releaseRegister]
  outside w r apart := by
    simp only [List.mem_singleton] at apart
    by_cases same : w = warpId
    · subst same
      have other : r ≠ reg := fun both => apart ⟨rfl, both⟩
      simp [setPending, releaseRegister, other]
    · simp [setPending, releaseRegister, Function.update_of_ne same]

theorem reserve_assigned :
    Assigned warpId [reg] (some count) books ({ books with
      regTable := Function.update books.regTable warpId (insert reg (books.regTable warpId)) }.setPending
        warpId reg (some count)) where
  inside r member := by
    obtain rfl := List.mem_singleton.mp member
    simp [setPending]
  outside w r apart := by
    simp only [List.mem_singleton] at apart
    by_cases same : w = warpId
    · subst same
      have other : r ≠ reg := fun both => apart ⟨rfl, both⟩
      simp [setPending, other]
    · simp [setPending, Function.update_of_ne same]

/-- The count that is left after an access is served, when there is one. -/
def remaining (count : Nat) : Option Nat := if count = 1 then none else some (count - 1)

theorem serveRegister_assigned (counted : books.pendingWrites inst.warpId reg = some count)
    (reserved : reg ∈ books.regTable inst.warpId) (positive : 0 < count) :
    ∃ next, books.serveRegister inst reg = .ok (next, decide (count = 1)) ∧
      Assigned inst.warpId [reg] (remaining count) books next := by
  simp only [serveRegister, pending_of_some counted, remaining, gt_iff_lt, if_pos positive]
  by_cases last : count = 1
  · subst last
    exact ⟨_, rfl, release_assigned⟩
  · rw [if_neg (by omega), if_neg last, decide_eq_false last]
    exact ⟨_, rfl, setPending_assigned reserved⟩

/-- A count above zero goes down by one. -/
theorem decrement_assigned (counted : books.pendingWrites warpId reg = some count)
    (reserved : reg ∈ books.regTable warpId) (positive : 0 < count) (fits : count < 2 ^ 32) :
    Assigned warpId [reg] (some (count - 1)) books (books.decrement warpId reg) := by
  have value : (count + (2 ^ 32 - 1)) % 2 ^ 32 = count - 1 := by omega
  simp only [decrement, pending_of_some counted, value]
  exact setPending_assigned reserved

/-! ## All registers of a load -/

/-- `reserveRegisters` accepts distinct registers that are free. -/
theorem issueLoad_fresh {accesses : Nat} (done : issueLoad inst accesses regs books = .ok next) :
    regs.Nodup ∧ ∀ reg ∈ regs, reg ∉ books.regTable inst.warpId := by
  induction regs generalizing books with
  | nil => exact ⟨.nil, by simp⟩
  | cons reg rest ih =>
      simp only [issueLoad] at done
      split at done
      · cases done
      next free =>
        obtain ⟨distinct, others⟩ := ih done
        simp only [setPending, Function.update_self, Finset.mem_insert, not_or] at others
        refine ⟨List.nodup_cons.mpr ⟨fun again => (others reg again).1 rfl, distinct⟩, ?_⟩
        intro r member
        rcases List.mem_cons.mp member with rfl | later
        · exact free
        · exact (others r later).2

theorem issueLoad_assigned {accesses : Nat} (absent : ∀ reg ∈ regs, books.pendingWrites inst.warpId reg = none)
    (done : issueLoad inst accesses regs books = .ok next) :
    Assigned inst.warpId regs (some accesses) books next := by
  have fresh := issueLoad_fresh done
  induction regs generalizing books with
  | nil =>
      cases done
      exact .nil
  | cons reg rest ih =>
      have distinct := List.nodup_cons.mp fresh.1
      simp only [issueLoad, pending_of_none (absent reg List.mem_cons_self), Nat.zero_add,
        if_neg (fresh.2 reg List.mem_cons_self)] at done
      have first := @reserve_assigned inst.warpId reg accesses books
      refine first.cons (ih ?_ done (issueLoad_fresh done))
      intro r member
      have other : r ≠ reg := fun same => distinct.1 (same ▸ member)
      have kept := first.outside inst.warpId r fun both => other (List.mem_singleton.mp both.2)
      exact kept.1.trans (absent r (List.mem_cons_of_mem reg member))

theorem decrements_assigned (counted : books.Counted warpId regs count) (distinct : regs.Nodup)
    (positive : 0 < count) (fits : count < 2 ^ 32) :
    Assigned warpId regs (some (count - 1)) books
      (regs.foldl (fun books reg => books.decrement warpId reg) books) := by
  induction regs generalizing books with
  | nil => exact .nil
  | cons reg rest ih =>
      have first := decrement_assigned counted.head.1 counted.head.2 positive fits
      exact first.cons (ih (counted.tail distinct first) (List.nodup_cons.mp distinct).2)

theorem hitReadOnly_assigned (counted : books.Counted inst.warpId inst.outputs count) (distinct : inst.outputs.Nodup)
    (positive : 0 < count) (fits : count < 2 ^ 32) :
    Assigned inst.warpId inst.outputs (some (count - 1)) books (books.hitReadOnly inst) :=
  decrements_assigned counted distinct positive fits

/-- What a hit at the head of the latency queue reports: a completion for every register. -/
def hitEvents (inst : WarpInst) (regs : List Nat) (count : Nat) : List CompletionEvent :=
  if count = 1 then regs.flatMap fun reg => [.released inst reg, .completed inst] else []

/-- A load of one register completes once. -/
theorem hitEvents_once (one : regs = [reg]) (same : inst.outputs = regs) : CompletesOnce inst
    (hitEvents inst regs 1) where
  completed := by simp [hitEvents, one]
  released r member := by
    obtain rfl := List.mem_singleton.mp (one ▸ same ▸ member)
    simp [hitEvents, one]
  own event member := by
    simp only [hitEvents, one, if_true, List.flatMap_cons, List.flatMap_nil, List.append_nil,
      List.mem_cons,
      List.not_mem_nil, or_false] at member
    rcases member with rfl | rfl <;> rfl

theorem hitLoad_assigned (counted : books.Counted inst.warpId regs count) (distinct : regs.Nodup)
    (positive : 0 < count) :
    ∃ next, hitLoad inst regs books = .ok (next, hitEvents inst regs count) ∧
      Assigned inst.warpId regs (remaining count) books next := by
  induction regs generalizing books with
  | nil => exact ⟨books, by simp [hitLoad, hitEvents], .nil⟩
  | cons reg rest ih =>
      obtain ⟨middle, served, first⟩ := serveRegister_assigned counted.head.1 counted.head.2 positive
      obtain ⟨next, others, later⟩ := ih (counted.tail distinct first) (List.nodup_cons.mp distinct).2
      refine ⟨next, ?_, first.cons later⟩
      refine bind_ok.mpr ⟨_, served, bind_ok.mpr ⟨_, others, ?_⟩⟩
      by_cases last : count = 1 <;> simp [hitEvents, last, pure, Except.pure]

/-- What the write-back stage reports of the registers. -/
def releaseEvents (inst : WarpInst) (regs : List Nat) (count : Nat) : List CompletionEvent :=
  if count = 1 then regs.map fun reg => .released inst reg else []

theorem count_released (distinct : regs.Nodup) (member : reg ∈ regs) :
    (regs.map fun reg => CompletionEvent.released inst reg).count (.released inst reg) = 1 := by
  rw [List.count_map_of_injective regs _ (fun a b same => (CompletionEvent.released.inj same).2)]
  exact List.count_eq_one_of_mem distinct member

theorem count_completed : (regs.map fun reg => CompletionEvent.released inst reg).count
    (.completed inst) = 0 := by
  simp [List.count_eq_zero]

theorem writebackRegisters_assigned (outside : inst.space ≠ .sharedSpace)
    (counted : books.Counted inst.warpId regs count) (distinct : regs.Nodup) (positive : 0 < count) :
    ∃ next, writebackRegisters inst regs books =
        .ok (next, decide (count = 1 ∧ regs ≠ []), releaseEvents inst regs count) ∧
      Assigned inst.warpId regs (remaining count) books next := by
  induction regs generalizing books with
  | nil => exact ⟨books, by simp [writebackRegisters, releaseEvents], .nil⟩
  | cons reg rest ih =>
      obtain ⟨middle, served, first⟩ := serveRegister_assigned counted.head.1 counted.head.2 positive
      obtain ⟨next, others, later⟩ := ih (counted.tail distinct first) (List.nodup_cons.mp distinct).2
      refine ⟨next, ?_, first.cons later⟩
      have head : writebackRegister inst books reg = .ok (middle, decide (count = 1)) := by
        rw [writebackRegister, if_pos outside, served]
      refine bind_ok.mpr ⟨_, head, bind_ok.mpr ⟨_, others, ?_⟩⟩
      by_cases last : count = 1 <;> simp [releaseEvents, last, pure, Except.pure]

theorem hitQueued_assigned (load : inst.isLoad = true) (counted : books.Counted inst.warpId inst.outputs count)
    (distinct : inst.outputs.Nodup) (positive : 0 < count) :
    ∃ next, books.hitQueued inst = .ok (next, hitEvents inst inst.outputs count) ∧
      Assigned inst.warpId inst.outputs (remaining count) books next := by
  rw [hitQueued, if_pos load]
  exact hitLoad_assigned counted distinct positive

/-- What the write-back stage reports: the completion comes once, after the registers. -/
def writebackEvents (inst : WarpInst) (count : Nat) : List CompletionEvent :=
  releaseEvents inst inst.outputs count ++ if count = 1 ∧ inst.outputs ≠ [] then [.completed inst] else []

theorem writebackEvents_once (distinct : inst.outputs.Nodup) (some : inst.outputs ≠ []) :
    CompletesOnce inst (writebackEvents inst 1) where
  completed := by simp [writebackEvents, releaseEvents, some, count_completed]
  released reg member := by simp [writebackEvents, releaseEvents, some, count_released distinct member]
  own event member := by
    simp only [writebackEvents, releaseEvents, if_true, true_and, if_pos some, List.mem_append,
      List.mem_map,
      List.mem_singleton] at member
    rcases member with ⟨_, _, rfl⟩ | rfl <;> rfl

theorem writeback_assigned (outside : inst.space ≠ .sharedSpace)
    (counted : books.Counted inst.warpId inst.outputs count) (distinct : inst.outputs.Nodup) (positive : 0 < count) :
    ∃ next, books.writeback inst = .ok (next, writebackEvents inst count) ∧
      Assigned inst.warpId inst.outputs (remaining count) books next := by
  obtain ⟨next, served, assigned⟩ := writebackRegisters_assigned outside counted distinct positive
  refine ⟨next, bind_ok.mpr ⟨_, served, ?_⟩, assigned⟩
  by_cases last : count = 1 ∧ inst.outputs ≠ [] <;> simp [writebackEvents, last, pure, Except.pure]

theorem pendingWrites_releaseRegisters :
    (regs.foldl
        (fun books reg => books.releaseRegister warpId reg) books).pendingWrites = books.pendingWrites := by
  induction regs generalizing books with
  | nil => rfl
  | cons reg rest ih =>
      rw [List.foldl_cons, ih]
      rfl

theorem mem_releaseRegisters {w r : Nat} :
    r ∈ (regs.foldl (fun books reg => books.releaseRegister warpId reg) books).regTable w ↔
      r ∈ books.regTable w ∧ ¬ (w = warpId ∧ r ∈ regs) := by
  induction regs generalizing books with
  | nil => simp
  | cons reg rest ih =>
      rw [List.foldl_cons, ih]
      by_cases same : w = warpId
      · subst same
        simp only [releaseRegister, Function.update_self, Finset.mem_erase, true_and, List.mem_cons,
          not_or]
        tauto
      · simp [releaseRegister, same]

/-- Entries that are zero are gone when the loop of the dispatch stage ends. -/
theorem findPending_zero (counted : books.Counted inst.warpId regs 0) (distinct : regs.Nodup) :
    ∃ next, findPending inst regs books = (false, next) ∧ next.regTable = books.regTable ∧
      (∀ reg ∈ regs, next.pendingWrites inst.warpId reg = none) ∧
      ∀ w reg, ¬ (w = inst.warpId ∧ reg ∈ regs) →
        next.pendingWrites w reg = books.pendingWrites w reg := by
  induction regs generalizing books with
  | nil => exact ⟨books, rfl, rfl, by simp, by simp⟩
  | cons reg rest ih =>
      obtain ⟨new, distinct'⟩ := List.nodup_cons.mp distinct
      have counted' : (books.setPending inst.warpId reg none).Counted inst.warpId rest 0 := by
        intro r member
        have other : r ≠ reg := fun same => new (same ▸ member)
        simpa [setPending, other] using counted r (List.mem_cons_of_mem reg member)
      obtain ⟨next, found, table, gone, kept⟩ := ih counted' distinct'
      have erased : next.pendingWrites inst.warpId reg = none := by
        rw [kept inst.warpId reg fun both => new both.2]
        simp [setPending]
      refine ⟨next, ?_, table, ?_, ?_⟩
      · simpa only [findPending, counted.head.1, gt_iff_lt, Nat.lt_irrefl, if_false] using found
      · intro r member
        rcases List.mem_cons.mp member with rfl | later
        · exact erased
        · exact gone r later
      · intro w r apart
        rw [kept w r fun both => apart ⟨both.1, List.mem_cons_of_mem reg both.2⟩]
        by_cases same : w = inst.warpId
        · subst same
          have other : r ≠ reg := fun both => apart ⟨rfl, List.mem_cons.mpr (.inl both)⟩
          simp [setPending, other]
        · simp [setPending, Function.update_of_ne same]

/-- What the dispatch stage reports of a load that has no pending write. -/
def dispatchEvents (inst : WarpInst) : List CompletionEvent :=
  .completed inst :: inst.outputs.map fun reg => .released inst reg

theorem dispatchEvents_once (distinct : inst.outputs.Nodup) : CompletesOnce inst
    (dispatchEvents inst) where
  completed := by rw [dispatchEvents, List.count_cons_self, count_completed]
  released reg member := by
    rw [dispatchEvents, List.count_cons_of_ne (by simp), count_released distinct member]
  own event member := by
    simp only [dispatchEvents, List.mem_cons, List.mem_map] at member
    rcases member with rfl | ⟨_, _, rfl⟩ <;> rfl

/-- A load without pending writes is complete when it leaves the dispatch register. -/
theorem dispatchLoad_zero (counted : books.Counted inst.warpId inst.outputs 0) (distinct : inst.outputs.Nodup) :
    ∃ next, books.dispatchLoad inst = (next, dispatchEvents inst) ∧
      Assigned inst.warpId inst.outputs none books next := by
  obtain ⟨middle, found, table, gone, kept⟩ := findPending_zero counted distinct
  refine ⟨_, by simp only [dispatchLoad, found]; rfl, ⟨?_, ?_⟩⟩
  · intro reg member
    refine ⟨(congrFun (congrFun pendingWrites_releaseRegisters _) _).trans (gone reg member), ?_⟩
    simp [mem_releaseRegisters, member]
  · intro w reg apart
    refine ⟨(congrFun (congrFun pendingWrites_releaseRegisters _) _).trans (kept w reg apart), ?_⟩
    rw [mem_releaseRegisters, table, and_iff_left apart]

theorem dispatchLoad_pending (counted : books.Counted inst.warpId inst.outputs count) (positive : 0 < count)
    (some : inst.outputs ≠ []) : books.dispatchLoad inst = (books, []) := by
  have found : findPending inst inst.outputs books = (true, books) := by
    cases shape : inst.outputs with
    | nil => exact absurd shape some
    | cons reg rest =>
        have head := (counted reg (shape ▸ List.mem_cons_self)).1
        simp only [findPending, head, gt_iff_lt, if_pos positive]
  simp only [dispatchLoad, found, if_true]

end LdstBooks

end GpgpuSim.Shader
