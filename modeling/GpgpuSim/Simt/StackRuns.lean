import GpgpuSim.Simt.StackUpdate

/-! Runs of a warp over its SIMT stack. Each live thread is executed at its own PC
and comes back to its reconvergence point, because every entry below the top is
left at the PC where the threads above it resume. -/
namespace GpgpuSim.Simt

variable {w : Nat}

namespace SimtStack

/-- Where the topmost entry that contains a thread stands. -/
def pcOf (i : Fin w) : Stack w → Option AddressType
  | [] => none
  | entry :: rest => if i ∈ entry.activeMask then some entry.pc else pcOf i rest

/-- The same, but not below the entry of a call that has not returned. -/
def resumesAt (i : Fin w) : Stack w → Option AddressType
  | [] => none
  | entry :: rest =>
      if i ∈ entry.activeMask then some entry.pc
      else if entry.type = .call then none
      else resumesAt i rest

theorem pcOf_of_resumesAt {i : Fin w} {stack : Stack w} {pc : AddressType} (resumes : resumesAt i stack = some pc) :
    pcOf i stack = some pc := by
  induction stack with
  | nil => cases resumes
  | cons entry rest ih =>
      rw [resumesAt] at resumes
      rw [pcOf]
      split at resumes
      next mem => rwa [if_pos mem]
      next absent =>
        rw [if_neg absent]
        split at resumes
        · cases resumes
        · exact ih resumes

theorem exists_of_pcOf {i : Fin w} {stack : Stack w} {pc : AddressType} (at_pc : pcOf i stack = some pc) :
    ∃ entry, stack.find? (i ∈ ·.activeMask) = some entry ∧ entry.pc = pc := by
  induction stack with
  | nil => cases at_pc
  | cons entry rest ih =>
      rw [pcOf] at at_pc
      split at at_pc
      next mem => exact ⟨entry, by simp [mem], Option.some.inj at_pc⟩
      next absent =>
        obtain ⟨found, find, same⟩ := ih at_pc
        exact ⟨found, by simpa [absent] using find, same⟩

variable {done done' above above' : SimtMask w} {entry top : SimtStackEntry w} {rest stack : Stack w}

/-- What an entry relies on, below the threads `above`. The threads of a NORMAL entry
resume at its reconvergence PC; those of a call are all the threads of the caller. -/
structure EntrySound (done above : SimtMask w) (entry : SimtStackEntry w) (rest : Stack w) : Prop where
  apart : entry.type = .normal → entry.pc ≠ entry.recvgPc
  resumes : entry.type = .normal → entry.recvgPc ≠ nullPc →
    ∀ i ∉ done, i ∈ entry.activeMask → resumesAt i rest = some entry.recvgPc
  bottom : entry.type = .call → entry.recvgPc = nullPc
  caller : entry.type = .call → ∃ back below, rest = back :: below ∧
    (∀ i ∉ done, i ∈ back.activeMask → i ∈ above ∨ i ∈ entry.activeMask) ∧
    ∀ i ∉ done, i ∈ entry.activeMask → i ∈ back.activeMask

def Sound (done : SimtMask w) : SimtMask w → Stack w → Prop
  | _, [] => True
  | above, entry :: rest =>
      entry.activeMask.Nonempty ∧ EntrySound done above entry rest ∧
        Sound done (above ∪ entry.activeMask) rest

/-- Threads may finish, and may leave the entries above for an entry of this stack. -/
theorem Sound.weaken (sound : Sound done above stack) (grows : done ⊆ done')
    (moved : ∀ i ∉ done', i ∈ above → i ∈ above' ∨ (resumesAt i stack).isSome) :
    Sound done' above' stack := by
  induction stack generalizing above above' with
  | nil => trivial
  | cons entry rest ih =>
      obtain ⟨some, sound, below⟩ := sound
      have live : ∀ i ∉ done', i ∉ done := fun i live mem => live (grows mem)
      refine ⟨some, ⟨sound.apart, ?_, sound.bottom, ?_⟩, ?_⟩
      · intro normal real i alive mem
        exact sound.resumes normal real i (live i alive) mem
      · intro call
        obtain ⟨back, below, split, covered, inside⟩ := sound.caller call
        refine ⟨back, below, split, ?_, fun i alive => inside i (live i alive)⟩
        intro i alive mem
        rcases covered i (live i alive) mem with mem_above | mem_entry
        · rcases moved i alive mem_above with still | lands
          · exact .inl still
          · right
            by_contra absent
            simp [resumesAt, absent, call] at lands
        · exact .inr mem_entry
      · apply ih below
        intro i alive mem
        by_cases mem_entry : i ∈ entry.activeMask
        · exact .inl (Finset.mem_union_right _ mem_entry)
        · rcases moved i alive (by simpa [mem_entry] using mem) with still | lands
          · exact .inl (Finset.mem_union_left _ still)
          · right
            rw [resumesAt, if_neg mem_entry] at lands
            split at lands
            · cases lands
            · exact lands

/-- The entries over which an entry was pushed contain its live threads; no other
entry below it contains any of them. -/
structure LineageSound (done : SimtMask w) (entry : SimtStackEntry w) (rest : Stack w) : Prop where
  bound : ∀ depth ∈ entry.lineage, depth < rest.length
  exact : ∀ back below, back :: below <:+ rest → ∀ i ∉ done, i ∈ entry.activeMask →
    (i ∈ back.activeMask ↔ below.length ∈ entry.lineage)

def Nested (done : SimtMask w) : Stack w → Prop
  | [] => True
  | entry :: rest => LineageSound done entry rest ∧ Nested done rest

theorem LineageSound.shrink {entry' : SimtStackEntry w} (sound : LineageSound done entry rest) (grows : done ⊆ done')
    (inside : ∀ i ∉ done', i ∈ entry'.activeMask → i ∈ entry.activeMask) (same : entry'.lineage = entry.lineage) :
    LineageSound done' entry' rest := by
  constructor
  · rw [same]
    exact sound.bound
  · intro back below suffix i alive mem
    rw [same]
    exact sound.exact back below suffix i (fun gone => alive (grows gone)) (inside i alive mem)

theorem Nested.mono (nested : Nested done stack) (grows : done ⊆ done') : Nested done' stack := by
  induction stack with
  | nil => trivial
  | cons entry rest ih => exact ⟨nested.1.shrink grows (fun _ _ mem => mem) rfl, ih nested.2⟩

/-- An entry pushed over `entry`. -/
theorem LineageSound.beyond {base entry' : SimtStackEntry w} (sound : LineageSound done entry rest)
    (grows : done ⊆ done') (inside : ∀ i ∉ done', i ∈ entry'.activeMask → i ∈ entry.activeMask)
    (same : entry'.lineage = rest.length :: entry.lineage) (masks : base.activeMask = entry.activeMask) :
    LineageSound done' entry' (base :: rest) := by
  constructor
  · rw [same]
    intro depth mem
    rcases List.mem_cons.mp mem with rfl | mem
    · simp
    · exact (sound.bound depth mem).trans (by simp)
  · intro back below suffix i alive mem
    rw [same, List.mem_cons]
    rcases List.suffix_cons_iff.mp suffix with here | deeper
    · obtain ⟨rfl, rfl⟩ := List.cons.inj here
      simp [masks, inside i alive mem]
    · have shorter : below.length < rest.length := deeper.length_le
      rw [sound.exact back below deeper i (fun gone => alive (grows gone)) (inside i alive mem)]
      simp [shorter.ne]

/-- An entry pushed beside `sibling`, which has none of its threads. -/
theorem LineageSound.beside {sibling : SimtStackEntry w} (sound : LineageSound done entry rest)
    (disjoint : ∀ i ∉ done, i ∈ entry.activeMask → i ∉ sibling.activeMask) :
    LineageSound done entry (sibling :: rest) := by
  constructor
  · intro depth mem
    exact (sound.bound depth mem).trans (by simp)
  · intro back below suffix i alive mem
    rcases List.suffix_cons_iff.mp suffix with here | deeper
    · obtain ⟨rfl, rfl⟩ := List.cons.inj here
      have not_own : below.length ∉ entry.lineage := fun mem => (sound.bound _ mem).false
      simp [disjoint i alive mem, not_own]
    · exact sound.exact back below deeper i alive mem

theorem Nested.lineage (nested : Nested done stack) (suffix : entry :: rest <:+ stack) :
    LineageSound done entry rest := by
  induction stack with
  | nil => simp at suffix
  | cons top below ih =>
      rcases List.suffix_cons_iff.mp suffix with here | deeper
      · obtain ⟨rfl, rfl⟩ := List.cons.inj here
        exact nested.1
      · exact ih nested.2 deeper

/-- What holds of the stack of a warp: `nextPc` gives the PC of each live thread. -/
structure Invariant (done : SimtMask w) (nextPc : Fin w → AddressType) (stack : Stack w) : Prop where
  sound : Sound done ∅ stack
  nested : Nested done stack
  located : ∀ i ∉ done, pcOf i stack = some (nextPc i)

section Update

variable {nextPc nextPc' : Fin w → AddressType} {recvgPc : AddressType} {op : OpType}

/-- The entries below the top, with the live threads that do not stay above them
landing in them. -/
theorem Sound.below (sound : Sound done ∅ (top :: rest)) (grows : done ⊆ done')
    (lands : ∀ i ∈ top.activeMask \ done', i ∈ above' ∨ (resumesAt i rest).isSome) :
    Sound done' above' rest := by
  apply sound.2.2.weaken grows
  intro i alive mem
  exact lands i (by simpa [alive] using mem)

/-- The top entry after some of its threads have left it. -/
theorem EntrySound.move {pc : AddressType} {mask : SimtMask w} (sound : EntrySound done ∅ top rest)
    (grows : done ⊆ done') (inside : mask ⊆ top.activeMask)
    (kept : ∀ i ∈ top.activeMask \ done', top.type = .call → i ∈ above' ∨ i ∈ mask)
    (apart : top.type = .normal → pc ≠ top.recvgPc) :
    EntrySound done' above' { top with pc, activeMask := mask } rest := by
  refine ⟨apart, ?_, sound.bottom, ?_⟩
  · intro normal real i alive mem
    exact sound.resumes normal real i (fun gone => alive (grows gone)) (inside mem)
  · intro call
    obtain ⟨back, below, split, covered, contained⟩ := sound.caller call
    refine ⟨back, below, split, ?_, ?_⟩
    · intro i alive mem
      have in_top := covered i (fun gone => alive (grows gone)) mem
      simp only [Finset.notMem_empty, false_or] at in_top
      exact kept i (Finset.mem_sdiff.mpr ⟨in_top, alive⟩) call
    · intro i alive mem
      exact contained i (fun gone => alive (grows gone)) (inside mem)

/-- An entry whose threads resume below it. -/
theorem EntrySound.ofNormal {new : SimtStackEntry w} (normal : new.type = .normal) (apart : new.pc ≠ new.recvgPc)
    (resumes : new.recvgPc ≠ nullPc → ∀ i ∈ new.activeMask, resumesAt i rest = some new.recvgPc) :
    EntrySound done above new rest := by
  refine ⟨fun _ => apart, fun _ real i _ mem => resumes real i mem, ?_, ?_⟩ <;>
    · intro call
      rw [normal] at call
      cases call

theorem Sound.push {new : SimtStackEntry w} (sound : Sound done ∅ stack) (some : new.activeMask.Nonempty)
    (normal : new.type = .normal) (apart : new.pc ≠ new.recvgPc)
    (resumes : new.recvgPc ≠ nullPc → ∀ i ∈ new.activeMask, resumesAt i stack = Option.some new.recvgPc) :
    Sound done ∅ (new :: stack) :=
  ⟨some, .ofNormal normal apart resumes, sound.weaken (Finset.Subset.refl _) (by simp)⟩

theorem goingTo_subset {i : Fin w} {pc : AddressType} (mem : i ∈ goingTo nextPc' (top.activeMask \ done') pc) :
    i ∈ top.activeMask :=
  (Finset.mem_sdiff.mp (Finset.mem_filter.mp mem).1).1

theorem goingTo_disjoint {active : SimtMask w} {i : Fin w} {pc pc' : AddressType} (differ : pc ≠ pc')
    (mem : i ∈ goingTo nextPc' active pc') : i ∉ goingTo nextPc' active pc := by
  intro mem_other
  exact differ ((Finset.mem_filter.mp mem_other).2.symm.trans (Finset.mem_filter.mp mem).2)

variable (invariant : Invariant done nextPc (top :: rest)) (grows : done ⊆ done')
  (idle : ∀ i ∉ done', i ∉ top.activeMask → nextPc' i = nextPc i)

include invariant grows idle

/-- Threads outside the top entry keep their PC and their place. -/
theorem Invariant.outside {i : Fin w} (alive : i ∉ done') (absent : i ∉ top.activeMask) :
    pcOf i rest = some (nextPc' i) := by
  have there := invariant.located i (fun gone => alive (grows gone))
  rwa [pcOf, if_neg absent, ← idle i alive absent] at there

/-- The stack without its top entry, once no live thread stays in it. -/
theorem Invariant.pop (lands : ∀ i ∈ top.activeMask \ done', resumesAt i rest = some (nextPc' i)) :
    Invariant done' nextPc' rest := by
  refine ⟨invariant.sound.below grows ?_, invariant.nested.2.mono grows, ?_⟩
  · intro i mem
    simp [lands i mem]
  · intro i alive
    by_cases mem : i ∈ top.activeMask
    · exact pcOf_of_resumesAt (lands i (Finset.mem_sdiff.mpr ⟨mem, alive⟩))
    · exact invariant.outside grows idle alive mem

/-- The top entry moved to a PC of some of its threads, the others resuming below. -/
theorem Invariant.move {pc : AddressType} {mask : SimtMask w} (some : mask.Nonempty)
    (inside : mask ⊆ top.activeMask) (here : ∀ i ∈ mask, nextPc' i = pc)
    (lands : ∀ i ∈ top.activeMask \ done', i ∉ mask → top.type = .normal ∧
        resumesAt i rest = Option.some (nextPc' i))
    (apart : top.type = .normal → pc ≠ top.recvgPc) :
    Invariant done' nextPc' ({ top with pc, activeMask := mask } :: rest) := by
  have kept : ∀ i ∈ top.activeMask \ done', top.type = .call → i ∈ (∅ : SimtMask w) ∨ i ∈ mask := by
    intro i mem call
    right
    by_contra absent
    have normal := (lands i mem absent).1
    rw [call] at normal
    cases normal
  refine ⟨⟨some, invariant.sound.2.1.move grows inside kept apart, invariant.sound.below grows ?_⟩,
    ⟨invariant.nested.1.shrink grows (fun _ _ mem => inside mem) rfl, invariant.nested.2.mono grows⟩, ?_⟩
  · intro i mem
    by_cases stays : i ∈ mask
    · exact .inl (Finset.mem_union_right _ stays)
    · simp [(lands i mem stays).2]
  · intro i alive
    by_cases stays : i ∈ mask
    · simp [pcOf, stays, here i stays]
    · rw [pcOf, if_neg stays]
      by_cases mem : i ∈ top.activeMask
      · exact pcOf_of_resumesAt (lands i (Finset.mem_sdiff.mpr ⟨mem, alive⟩) stays).2
      · exact invariant.outside grows idle alive mem

theorem Invariant.call {pc : AddressType} (some : (top.activeMask \ done').Nonempty)
    (all : ∀ i ∈ top.activeMask \ done', nextPc' i = pc) :
    Invariant done' nextPc' (pushCall pc (top.activeMask \ done') (top :: rest)) := by
  refine ⟨⟨some, ⟨by simp, by simp, fun _ => rfl, fun _ => ⟨top, rest, rfl, ?_, ?_⟩⟩, ?_⟩,
    ⟨invariant.nested.1.beyond grows (fun _ _ mem => (Finset.mem_sdiff.mp mem).1) rfl rfl,
      invariant.nested.mono grows⟩, ?_⟩
  · intro i alive mem
    exact .inr (Finset.mem_sdiff.mpr ⟨mem, alive⟩)
  · intro i alive mem
    exact (Finset.mem_sdiff.mp mem).1
  · exact invariant.sound.weaken grows (by simp)
  · intro i alive
    rw [pushCall, pcOf]
    by_cases mem : i ∈ top.activeMask
    · have active := Finset.mem_sdiff.mpr ⟨mem, alive⟩
      rw [if_pos active, all i active]
    · rw [if_neg (by simp [mem]), pcOf, if_neg mem]
      exact invariant.outside grows idle alive mem

theorem Invariant.return {pc : AddressType} (all : ∀ i ∈ top.activeMask \ done', nextPc' i = pc)
    (real : pc ≠ nullPc) (call : top.type = .call) :
    ∃ stack, returnTo pc rest = .ok stack ∧ Invariant done' nextPc' stack := by
  obtain ⟨back, below, rfl, covered, contained⟩ := invariant.sound.2.1.caller call
  have same : ∀ i ∉ done', (i ∈ back.activeMask ↔ i ∈ top.activeMask) := by
    intro i alive
    have live : i ∉ done := fun gone => alive (grows gone)
    exact ⟨fun mem => by simpa using covered i live mem, contained i live⟩
  have returned : ∀ i ∉ done', i ∈ back.activeMask → nextPc' i = pc :=
    fun i alive mem => all i (Finset.mem_sdiff.mpr ⟨(same i alive).mp mem, alive⟩)
  have sound : Sound done' ∅ (back :: below) := by
    apply invariant.sound.below grows
    intro i mem
    obtain ⟨mem_top, alive⟩ := Finset.mem_sdiff.mp mem
    simp [resumesAt, (same i alive).mpr mem_top]
  have elsewhere : ∀ i ∉ done', i ∉ back.activeMask → pcOf i below = Option.some (nextPc' i) := by
    intro i alive absent
    have there := invariant.outside grows idle alive (fun mem => absent ((same i alive).mpr mem))
    rwa [pcOf, if_neg absent] at there
  rw [returnTo]
  by_cases reconverges : pc = back.recvgPc ∧ back.type ≠ .call
  · have normal : back.type = .normal := by cases kind : back.type <;> simp_all
    have lands : ∀ i ∉ done', i ∈ back.activeMask → resumesAt i below = Option.some (nextPc' i) := by
      intro i alive mem
      rw [returned i alive mem, reconverges.1]
      exact sound.2.1.resumes normal (reconverges.1 ▸ real) i alive mem
    rw [if_pos reconverges, if_pos normal]
    refine ⟨below, rfl, sound.2.2.weaken (Finset.Subset.refl _) ?_, invariant.nested.2.2.mono grows, ?_⟩
    · intro i alive mem
      simp [lands i alive (by simpa using mem)]
    · intro i alive
      by_cases mem : i ∈ back.activeMask
      · exact pcOf_of_resumesAt (lands i alive mem)
      · exact elsewhere i alive mem
  · rw [if_neg reconverges]
    have apart : back.type = .normal → pc ≠ back.recvgPc := by
      intro normal same
      exact reconverges ⟨same, by simp [normal]⟩
    refine ⟨_, rfl, ⟨sound.1, ⟨apart, sound.2.1.resumes, sound.2.1.bottom, sound.2.1.caller⟩, sound.2.2⟩,
      ⟨invariant.nested.2.1.shrink grows (fun _ _ mem => mem) rfl, invariant.nested.2.2.mono grows⟩, ?_⟩
    intro i alive
    rw [pcOf]
    by_cases mem : i ∈ back.activeMask
    · rw [if_pos mem, returned i alive mem]
    · rw [if_neg mem]
      exact elsewhere i alive mem

omit idle in
/-- A diverged top entry, left at the reconvergence PC with all its threads. -/
theorem Invariant.base (apart : recvgPc ≠ top.recvgPc) :
    Sound done' ∅ ({ top with pc := recvgPc } :: rest) ∧
      Nested done' ({ top with pc := recvgPc } :: rest) := by
  refine ⟨⟨invariant.sound.1, invariant.sound.2.1.move grows (Finset.Subset.refl _) ?_ (fun _ => apart),
    invariant.sound.below grows ?_⟩, invariant.nested.1.shrink grows (fun _ _ mem => mem) rfl,
    invariant.nested.2.mono grows⟩
  · intro i mem _
    exact .inr (Finset.mem_sdiff.mp mem).1
  · intro i mem
    exact .inl (Finset.mem_union_right _ (Finset.mem_sdiff.mp mem).1)

theorem Invariant.joinOver {pc : AddressType} (some : (goingTo nextPc' (top.activeMask \ done') pc).Nonempty)
    (two : ∀ i ∈ top.activeMask \ done', nextPc' i = pc ∨ nextPc' i = recvgPc) (apart : pc ≠ recvgPc)
    (beyond : recvgPc ≠ top.recvgPc) :
    Invariant done' nextPc' (⟨pc, goingTo nextPc' (top.activeMask \ done') pc, recvgPc, .normal,
      rest.length :: top.lineage⟩ :: { top with pc := recvgPc } :: rest) := by
  obtain ⟨sound, nested⟩ := invariant.base grows beyond
  refine ⟨sound.push some rfl apart ?_, ⟨invariant.nested.1.beyond grows ?_ rfl rfl, nested⟩, ?_⟩
  · intro _ i mem
    rw [resumesAt, if_pos (goingTo_subset mem)]
  · exact fun i _ mem => goingTo_subset mem
  · intro i alive
    by_cases mem : i ∈ top.activeMask
    · have active := Finset.mem_sdiff.mpr ⟨mem, alive⟩
      by_cases here : nextPc' i = pc
      · simp [pcOf, mem, alive, here]
      · simp [pcOf, mem, alive, (two i active).resolve_left here, apart.symm]
    · simp [pcOf, mem, invariant.outside grows idle alive mem]

theorem Invariant.splitOver {pc pc' : AddressType} (some : (goingTo nextPc' (top.activeMask \ done') pc).Nonempty)
    (some' : (goingTo nextPc' (top.activeMask \ done') pc').Nonempty)
    (two : ∀ i ∈ top.activeMask \ done', nextPc' i = pc ∨ nextPc' i = pc') (differ : pc ≠ pc')
    (apart : pc ≠ recvgPc) (apart' : pc' ≠ recvgPc) (beyond : recvgPc ≠ top.recvgPc) :
    Invariant done' nextPc'
      (⟨pc', goingTo nextPc' (top.activeMask \ done') pc', recvgPc, .normal,
        rest.length :: top.lineage⟩ ::
      ⟨pc, goingTo nextPc' (top.activeMask \ done') pc, recvgPc, .normal, rest.length :: top.lineage⟩ ::
        { top with pc := recvgPc } :: rest) := by
  obtain ⟨sound, nested⟩ := invariant.base grows beyond
  have resumes : ∀ {i pc}, i ∈ goingTo nextPc' (top.activeMask \ done') pc →
      resumesAt i ({ top with pc := recvgPc } :: rest) = Option.some recvgPc := by
    intro i pc mem
    rw [resumesAt, if_pos (goingTo_subset mem)]
  refine ⟨(sound.push some rfl apart fun _ i => resumes).push some' rfl apart' ?_,
    ⟨LineageSound.beside (invariant.nested.1.beyond grows ?_ rfl rfl) ?_,
      invariant.nested.1.beyond grows ?_ rfl rfl, nested⟩, ?_⟩
  · intro _ i mem
    rw [resumesAt, if_neg (goingTo_disjoint differ mem), if_neg (by simp)]
    exact resumes mem
  · exact fun i _ mem => goingTo_subset mem
  · exact fun i _ mem => goingTo_disjoint differ mem
  · exact fun i _ mem => goingTo_subset mem
  · intro i alive
    by_cases mem : i ∈ top.activeMask
    · have active := Finset.mem_sdiff.mpr ⟨mem, alive⟩
      by_cases here : nextPc' i = pc'
      · simp [pcOf, mem, alive, here]
      · have there := (two i active).resolve_right here
        simp [pcOf, mem, alive, there, differ]
    · simp [pcOf, mem, invariant.outside grows idle alive mem]

theorem Invariant.splitInPlace {pc pc' : AddressType} (some : (goingTo nextPc' (top.activeMask \ done') pc).Nonempty)
    (some' : (goingTo nextPc' (top.activeMask \ done') pc').Nonempty)
    (two : ∀ i ∈ top.activeMask \ done', nextPc' i = pc ∨ nextPc' i = pc') (differ : pc ≠ pc')
    (apart : pc ≠ top.recvgPc) (apart' : pc' ≠ top.recvgPc) :
    Invariant done' nextPc'
      (⟨pc', goingTo nextPc' (top.activeMask \ done') pc', top.recvgPc, .normal, top.lineage⟩ ::
      { top with pc, activeMask := goingTo nextPc' (top.activeMask \ done') pc } :: rest) := by
  have covered : ∀ i ∈ top.activeMask \ done', i ∈ goingTo nextPc' (top.activeMask \ done') pc' ∨
      i ∈ goingTo nextPc' (top.activeMask \ done') pc := by
    intro i mem
    rcases two i mem with here | there
    · exact .inr (Finset.mem_filter.mpr ⟨mem, here⟩)
    · exact .inl (Finset.mem_filter.mpr ⟨mem, there⟩)
  have inside : ∀ pc, ∀ i ∉ done', i ∈ goingTo nextPc' (top.activeMask \ done') pc → i ∈ top.activeMask :=
    fun _ i _ mem => goingTo_subset mem
  refine ⟨⟨some', .ofNormal rfl apart' ?_, some, invariant.sound.2.1.move grows ?_ ?_ (fun _ => apart),
    invariant.sound.below grows ?_⟩,
    ⟨LineageSound.beside (invariant.nested.1.shrink grows (inside pc') rfl) ?_,
      invariant.nested.1.shrink grows (inside pc) rfl,
      invariant.nested.2.mono grows⟩, ?_⟩
  · intro real i mem
    have normal : top.type = .normal := by
      cases kind : top.type with
      | normal => rfl
      | call => exact absurd (invariant.sound.2.1.bottom kind) real
    rw [resumesAt, if_neg (goingTo_disjoint differ mem), if_neg (by simp [normal])]
    have alive := (Finset.mem_sdiff.mp (Finset.mem_filter.mp mem).1).2
    exact invariant.sound.2.1.resumes normal real i (fun gone => alive (grows gone)) (goingTo_subset mem)
  · exact fun i mem => goingTo_subset mem
  · intro i mem _
    simpa using covered i mem
  · intro i mem
    left
    simpa using covered i mem
  · exact fun i _ mem => goingTo_disjoint differ mem
  · intro i alive
    by_cases mem : i ∈ top.activeMask
    · have active := Finset.mem_sdiff.mpr ⟨mem, alive⟩
      by_cases here : nextPc' i = pc'
      · simp [pcOf, mem, alive, here]
      · have there := (two i active).resolve_right here
        simp [pcOf, mem, alive, there, differ]
    · simp [pcOf, mem, invariant.outside grows idle alive mem]

/-- Every case of `update` keeps the invariant, and none of them is a fault. -/
theorem Invariant.update (real : ∀ i ∈ top.activeMask \ done', nextPc' i ≠ nullPc)
    {result : Except StackFault (Stack w)}
    (updated : UpdateCase nextPc' (top.activeMask \ done') recvgPc op top rest result) :
    ∃ stack, result = .ok stack ∧ Invariant done' nextPc' stack := by
  have resume : top.type = .normal → ∀ i ∈ top.activeMask \ done', nextPc' i = top.recvgPc →
      resumesAt i rest = some (nextPc' i) := by
    intro normal i mem back
    obtain ⟨mem_top, alive⟩ := Finset.mem_sdiff.mp mem
    rw [back]
    exact invariant.sound.2.1.resumes normal (back ▸ real i mem) i
      (fun gone => alive (grows gone)) mem_top
  cases updated with
  | finished none => exact ⟨_, rfl, invariant.pop grows idle (by simp [none])⟩
  | called pc some all call => exact ⟨_, rfl, invariant.call grows idle some all⟩
  | returned pc some all call =>
      obtain ⟨i, mem⟩ := some
      exact invariant.return grows idle all (all i mem ▸ real i mem) call
  | reconverged all normal some =>
      exact ⟨_, rfl, invariant.pop grows idle fun i mem => resume normal i mem (all i mem)⟩
  | moved pc some all stays =>
      refine ⟨_, rfl, invariant.move grows idle some Finset.sdiff_subset all ?_ ?_⟩
      · intro i mem absent
        exact absurd mem absent
      · intro normal
        simpa [normal] using stays
  | joined pc some normal two apart =>
      refine ⟨_, rfl, invariant.move grows idle some (fun i mem => goingTo_subset mem) ?_ ?_
        (fun _ => apart)⟩
      · intro i mem
        exact (Finset.mem_filter.mp mem).2
      · intro i mem absent
        refine ⟨normal, resume normal i mem ((two i mem).resolve_left fun here => absent ?_)⟩
        exact Finset.mem_filter.mpr ⟨mem, here⟩
  | splitInPlace pc pc' some some' two apart stays stays' =>
      exact ⟨_, rfl, invariant.splitInPlace grows idle some some' two apart stays stays'⟩
  | splitOver pc pc' some some' two apart stays stays' beyond =>
      exact ⟨_, rfl, invariant.splitOver grows idle some some' two apart stays stays' beyond⟩
  | joinedOver pc some two apart beyond =>
      exact ⟨_, rfl, invariant.joinOver grows idle some two apart beyond⟩

end Update

/-! ## Every run -/

/-- A warp: its stack, and of each of its threads whether it is done and its next PC. -/
structure Warp (w : Nat) where
  stack : Stack w := []
  threadDone : SimtMask w := Finset.univ
  nextPc : Fin w → AddressType := fun _ => nullPc

/-- What the execution of the instruction at the top entry leaves to `update`: only
active threads move, and finished threads stay finished. -/
structure Executes (warp : Warp w) (top : SimtStackEntry w) (threadDone : SimtMask w) (nextPc : Fin w → AddressType)
    (recvgPc : AddressType) (op : OpType) : Prop extends Executed threadDone nextPc recvgPc op top where
  grows : warp.threadDone ⊆ threadDone
  idle : ∀ i ∉ threadDone, i ∉ top.activeMask → nextPc i = warp.nextPc i

inductive Step : Warp w → List Empty → Warp w → Prop
  | launch {warp} (startPc : AddressType) (activeMask : SimtMask w) (some : activeMask.Nonempty)
      (real : startPc ≠ nullPc) :
      Step warp [] ⟨launch startPc activeMask, activeMaskᶜ, fun _ => startPc⟩
  | update {warp top rest threadDone nextPc recvgPc op stack} (size : AddressType)
      (at_top : warp.stack = top :: rest)
      (executes : Executes warp top threadDone nextPc recvgPc op)
      (updated : update threadDone nextPc recvgPc op size top.pc warp.stack = .ok stack) :
      Step warp [] ⟨stack, threadDone, nextPc⟩

abbrev Run (warp : Warp w) : Prop := ∃ trace, Transition.Reaches Step {} trace warp

theorem Invariant.launch {startPc : AddressType} {activeMask : SimtMask w} (some : activeMask.Nonempty)
    (real : startPc ≠ nullPc) :
    Invariant activeMaskᶜ (fun _ => startPc) (SimtStack.launch startPc activeMask) := by
  refine ⟨⟨some, .ofNormal rfl real ?_, trivial⟩, ⟨⟨by simp, ?_⟩, trivial⟩, ?_⟩
  · intro absurd
    contradiction
  · intro back below suffix
    simp at suffix
  · intro i alive
    simp [SimtStack.launch, pcOf, by simpa using alive]

theorem Invariant.of_update {warp : Warp w} {threadDone : SimtMask w} {nextPc : Fin w → AddressType}
    {recvgPc : AddressType} {op : OpType} (invariant : Invariant warp.threadDone warp.nextPc warp.stack)
    (at_top : warp.stack = top :: rest) (executes : Executes warp top threadDone nextPc recvgPc op)
    (size : AddressType) :
    ∃ stack, SimtStack.update threadDone nextPc recvgPc op size top.pc warp.stack = .ok stack ∧
      Invariant threadDone nextPc stack := by
  rw [at_top] at invariant ⊢
  refine invariant.update executes.grows executes.idle ?_
    (updateCase executes.toExecuted invariant.sound.1 invariant.sound.2.1.bottom size)
  intro i mem
  obtain ⟨mem_top, alive⟩ := Finset.mem_sdiff.mp mem
  exact executes.real i mem_top alive

theorem Run.invariant {warp : Warp w} (run : Run warp) :
    Invariant warp.threadDone warp.nextPc warp.stack := by
  obtain ⟨trace, reaches⟩ := run
  apply reaches.invariant (P := fun _ warp => Invariant warp.threadDone warp.nextPc warp.stack)
  · exact ⟨trivial, trivial, by simp⟩
  · intro trace warp events next _ invariant step
    cases step with
    | launch startPc activeMask some real => exact .launch some real
    | update size at_top executes updated =>
        obtain ⟨stack, ok, kept⟩ := invariant.of_update at_top executes size
        obtain rfl := Except.ok.inj (updated.symm.trans ok)
        exact kept

/-- The topmost entry that contains a live thread stands at its next PC; the live
threads of an entry are in the entries it was pushed over and in no others below it;
a NORMAL entry on top has not reconverged; and `update` meets all its assertions. -/
theorem stack_follows_threads {warp : Warp w} (run : Run warp) :
    (∀ i ∉ warp.threadDone, ∃ entry, warp.stack.find? (i ∈ ·.activeMask) = some entry ∧
        entry.pc = warp.nextPc i) ∧
    (∀ entry rest, entry :: rest <:+ warp.stack → ∀ back below, back :: below <:+ rest →
      ∀ i ∉ warp.threadDone, i ∈ entry.activeMask →
        (i ∈ back.activeMask ↔ below.length ∈ entry.lineage)) ∧
    (∀ top rest, warp.stack = top :: rest → top.type = .normal → top.pc ≠ top.recvgPc) ∧
    ∀ top rest, warp.stack = top :: rest → ∀ threadDone nextPc recvgPc op,
      Executes warp top threadDone nextPc recvgPc op →
      ∀ size, ∃ stack, update threadDone nextPc recvgPc op size top.pc warp.stack = .ok stack := by
  have invariant := run.invariant
  refine ⟨fun i alive => exists_of_pcOf (invariant.located i alive), ?_, ?_, ?_⟩
  · intro entry rest suffix
    exact (invariant.nested.lineage suffix).exact
  · intro top rest at_top
    have sound := invariant.sound
    rw [at_top] at sound
    exact sound.2.1.apart
  · intro top rest at_top threadDone nextPc recvgPc op executes size
    obtain ⟨stack, ok, _⟩ := invariant.of_update at_top executes size
    exact ⟨stack, ok⟩

/-- Two threads have diverged under a reconvergence entry. -/
def divergedWarp : Warp 2 where
  stack := [⟨16, {1}, 24, .normal, [0]⟩, ⟨8, {0}, 24, .normal, [0]⟩, ⟨24, {0, 1}, nullPc, .normal, []⟩]
  threadDone := ∅
  nextPc i := if i = 0 then 8 else 16

/-- The thread of the top entry of `divergedWarp` has called a function. -/
def callingWarp : Warp 2 where
  stack := ⟨100, {1}, nullPc, .call, [2, 0]⟩ :: divergedWarp.stack
  threadDone := ∅
  nextPc i := if i = 0 then 8 else 100

theorem run_divergedWarp : Run divergedWarp := by
  have launched : Run (⟨launch 0 {0, 1}, ∅, fun _ => 0⟩ : Warp 2) := by
    have start : Transition.Reaches Step ({} : Warp 2) [] {} := .refl
    exact ⟨_, start.next (.launch 0 {0, 1} (by decide) (by decide))⟩
  obtain ⟨trace, reaches⟩ := launched
  refine ⟨_, reaches.next (@Step.update 2 _ _ _ _ _ 24 .otherOps _ 8 rfl ?_ ?_)⟩
  · exact ⟨⟨by decide, by decide, by decide, by decide⟩, by decide, by decide⟩
  · rfl

theorem step_callingWarp : Step divergedWarp [] callingWarp := by
  refine @Step.update 2 _ _ _ _ _ nullPc .callOps _ 8 rfl ?_ ?_
  · exact ⟨⟨by decide, by decide, by decide, by decide⟩, by decide, by decide⟩
  · rfl

theorem stack_follows_threads_call :
    ∃ entry, callingWarp.stack.find? (1 ∈ ·.activeMask) = some entry ∧
      entry.pc = callingWarp.nextPc 1 := by
  obtain ⟨trace, reaches⟩ := run_divergedWarp
  exact (stack_follows_threads ⟨_, reaches.next step_callingWarp⟩).1 1 (by decide)

/-- A call by one side of a divergence is pushed over the entry of the other side, which
has none of its threads; and a live thread at the null PC is dropped. -/
theorem call_over_sibling :
    (∃ before after : Warp 2, Run before ∧ Step before [] after ∧
      ∃ entry sibling, after.stack = entry :: before.stack ∧ sibling ∈ before.stack ∧
        ∃ i ∉ after.threadDone, i ∈ entry.activeMask ∧ i ∉ sibling.activeMask) ∧
    update ∅ (fun _ => nullPc) nullPc .otherOps 8 0 (launch 0 {0} : Stack 1) = .ok [] :=
  ⟨⟨divergedWarp, callingWarp, run_divergedWarp, step_callingWarp, ⟨100, {1}, nullPc, .call, [2, 0]⟩,
    ⟨8, {0}, 24, .normal, [0]⟩, rfl, by decide, 1, by decide, by decide, by decide⟩, rfl⟩

end SimtStack

end GpgpuSim.Simt
