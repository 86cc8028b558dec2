import GpgpuSim.Ptx.FunctionInfo
import Mathlib.Data.List.Range

/-! `create_basic_blocks`: the leaders are collected in one pass over the instructions, and
the blocks are cut at them in a second. -/
namespace GpgpuSim.Ptx
open Containers

variable {insts : List PtxInstruction} {i p : Nat}

def labelAt (insts : List PtxInstruction) (p : Nat) : Bool := insts[p]?.any PtxInstruction.isLabel

/-- A real instruction, not a label. -/
def realAt (insts : List PtxInstruction) (p : Nat) : Bool := insts[p]?.any fun pI => !pI.isLabel

/-- The instructions that end a block: branch, return, exit, break and predicated call. -/
def PtxInstruction.endsBlock (pI : PtxInstruction) : Bool :=
  match pI.opcode with
  | .braOp | .retOp | .exitOp | .retpOp | .breakOp => true
  | .callOp | .callpOp => pI.hasPred
  | _ => false

def transferAt (insts : List PtxInstruction) (p : Nat) : Bool :=
  insts[p]?.any fun pI => !pI.isLabel && pI.endsBlock

theorem labelAt_lt (label : labelAt insts p = true) : p < insts.length := by
  by_contra outside
  simp [labelAt, List.getElem?_eq_none (Nat.not_lt.mp outside)] at label

theorem realAt_lt (real : realAt insts p = true) : p < insts.length := by
  by_contra outside
  simp [realAt, List.getElem?_eq_none (Nat.not_lt.mp outside)] at real

theorem labelAt_eq (within : p < insts.length) : labelAt insts p = !realAt insts p := by
  simp [labelAt, realAt, List.getElem?_eq_getElem within]

theorem not_real_of_label (label : labelAt insts p = true) : realAt insts p = false := by
  have either := labelAt_eq (labelAt_lt label)
  rw [label] at either
  simpa using either.symm

theorem real_of_not_label (within : p < insts.length) (label : labelAt insts p = false) : realAt insts p = true := by
  have either := labelAt_eq within
  rw [label] at either
  simpa using either.symm

theorem not_label_of_real (real : realAt insts p = true) : labelAt insts p = false := by
  have either := labelAt_eq (realAt_lt real)
  rwa [real] at either

theorem realAt_of_transferAt (transfer : transferAt insts p = true) : realAt insts p = true := by
  cases found : insts[p]? with
  | none => simp [transferAt, found] at transfer
  | some pI =>
      simp only [transferAt, found, Option.any_some, Bool.and_eq_true] at transfer
      simpa [realAt, found] using transfer.1

/-- An iterator over the instructions is a place, the end iterator their number. -/
def findNextRealInstruction (insts : List PtxInstruction) (i : Nat) : Nat :=
  if h : labelAt insts i = true then findNextRealInstruction insts (i + 1) else i
termination_by insts.length - i
decreasing_by have := labelAt_lt h; omega

/-- It passes labels only, and stops behind the last element or at a real instruction. -/
theorem findNextRealInstruction_spec (insts : List PtxInstruction) (i : Nat) :
    i ≤ findNextRealInstruction insts i ∧
      (∀ p, i ≤ p → p < findNextRealInstruction insts i → labelAt insts p = true) ∧
      labelAt insts (findNextRealInstruction insts i) = false := by
  induction i using findNextRealInstruction.induct insts with
  | case1 i label ih =>
      rw [findNextRealInstruction, dif_pos label]
      obtain ⟨after, labels, stops⟩ := ih
      refine ⟨by omega, ?_, stops⟩
      intro p from_i below
      by_cases here : p = i
      · rwa [here]
      · exact labels p (by omega) below
  | case2 i real =>
      rw [findNextRealInstruction, dif_neg real]
      exact ⟨Nat.le_refl i, fun p from_i below => absurd below (Nat.not_lt.mpr from_i), by simpa using real⟩

theorem findNextRealInstruction_le (within : i ≤ insts.length) :
    findNextRealInstruction insts i ≤ insts.length := by
  by_contra beyond
  have label := (findNextRealInstruction_spec insts i).2.1 insts.length within (by omega)
  exact absurd (labelAt_lt label) (Nat.lt_irrefl _)

theorem findNextRealInstruction_eq (before : i ≤ p) (labels : ∀ q, i ≤ q → q < p → labelAt insts q = true)
    (stops : labelAt insts p = false) : findNextRealInstruction insts i = p := by
  obtain ⟨after, passed, real⟩ := findNextRealInstruction_spec insts i
  by_contra apart
  rcases Nat.lt_or_gt_of_ne apart with early | late
  · rw [labels _ after early] at real
    cases real
  · rw [passed p before late] at stops
    cases stops

/-- The first pass, from place `i` on: it skips from a label or behind a control transfer
to the next real instruction. -/
def leadersFrom (insts : List PtxInstruction) (i : Nat) : List Nat :=
  if h : i < insts.length then
    let pI := insts[i]
    if pI.isLabel then i :: leadersFrom insts (findNextRealInstruction insts (i + 1))
    else
      match pI.opcode with
      | .braOp | .retOp | .exitOp | .retpOp | .breakOp =>
          (if i + 1 < insts.length then [i + 1] else []) ++
            leadersFrom insts (findNextRealInstruction insts (i + 1))
      | .callOp | .callpOp =>
          if pI.hasPred then
            (if i + 1 < insts.length then [i + 1] else []) ++
              leadersFrom insts (findNextRealInstruction insts (i + 1))
          else leadersFrom insts (i + 1)
      | _ => leadersFrom insts (i + 1)
  else []
termination_by insts.length - i
decreasing_by
  all_goals
    have := (findNextRealInstruction_spec insts (i + 1)).1
    omega

theorem leadersFrom_eq (insts : List PtxInstruction) (i : Nat) :
    leadersFrom insts i =
      if i < insts.length then
        if labelAt insts i then i :: leadersFrom insts (findNextRealInstruction insts (i + 1))
        else if transferAt insts i then
          (if i + 1 < insts.length then [i + 1] else []) ++
            leadersFrom insts (findNextRealInstruction insts (i + 1))
        else leadersFrom insts (i + 1)
      else [] := by
  rw [leadersFrom]
  by_cases within : i < insts.length
  · have label : labelAt insts i = insts[i].isLabel := by
      simp [labelAt, List.getElem?_eq_getElem within]
    have transfer : transferAt insts i = (!insts[i].isLabel && insts[i].endsBlock) := by
      simp [transferAt, List.getElem?_eq_getElem within]
    simp only [within, dif_pos, if_true, label, transfer]
    cases is_label : insts[i].isLabel with
    | true => simp
    | false =>
        cases opcode : insts[i].opcode with
        | callOp | callpOp => cases pred : insts[i].hasPred <;> simp [PtxInstruction.endsBlock, opcode, pred]
        | _ => simp [PtxInstruction.endsBlock, opcode]
  · simp [within]

/-- The places from `i` on where the first pass sees a leader: a label behind a real
instruction, or the element behind a control transfer; at `i` itself, any label. -/
def isLeader (insts : List PtxInstruction) (i p : Nat) : Bool :=
  labelAt insts p && (p == i || realAt insts (p - 1)) || decide (i < p) && transferAt insts (p - 1)

theorem isLeader_after {j : Nat} (before : i < p) (later : j < p) : isLeader insts i p = isLeader insts j p := by
  have apart_i : (p == i) = false := by simp; omega
  have apart_j : (p == j) = false := by simp; omega
  simp [isLeader, apart_i, apart_j, before, later]

theorem isLeader_self (insts : List PtxInstruction) (i : Nat) : isLeader insts i i = labelAt insts i := by
  simp [isLeader]

/-- Nothing right behind a label is a leader. -/
theorem isLeader_behind_label (before : i < p) (label : labelAt insts (p - 1) = true) :
    isLeader insts i p = false := by
  have not_real := not_real_of_label label
  have not_transfer : transferAt insts (p - 1) = false := by
    by_contra transfer
    rw [realAt_of_transferAt (by simpa using transfer)] at not_real
    cases not_real
  have apart : (p == i) = false := by simp; omega
  simp [isLeader, apart, not_real, not_transfer]

theorem filter_range'_skip {n i j : Nat} {f g : Nat → Bool} (before : i ≤ j) (within : j ≤ n)
    (skipped : ∀ p, i ≤ p → p < j → f p = false) (same : ∀ p, j ≤ p → p < n → f p = g p) :
    (List.range' i (n - i)).filter f = (List.range' j (n - j)).filter g := by
  have split : List.range' i (n - i) = List.range' i (j - i) ++ List.range' j (n - j) := by
    have joined : List.range' i (j - i) ++ List.range' (i + (j - i)) (n - j) = List.range' i (j - i + (n - j)) :=
      List.range'_append_1
    rw [show i + (j - i) = j by omega, show j - i + (n - j) = n - i by omega] at joined
    exact joined.symm
  rw [split, List.filter_append]
  have nothing : (List.range' i (j - i)).filter f = [] := by
    rw [List.filter_eq_nil_iff]
    intro p member
    rw [List.mem_range'_1] at member
    simp [skipped p (by omega) (by omega)]
  rw [nothing, List.nil_append]
  apply List.filter_congr
  intro p member
  rw [List.mem_range'_1] at member
  exact same p (by omega) (by omega)

/-- Where the first pass goes on behind a run of labels, the places it skips are no leaders. -/
theorem filter_behind_labels {j : Nat} (before : i < j) (within : j ≤ insts.length)
    (labels : ∀ p, i ≤ p → p < j → labelAt insts p = true) (stops : labelAt insts j = false) :
    (List.range' (i + 1) (insts.length - (i + 1))).filter (isLeader insts i) =
      (List.range' j (insts.length - j)).filter (isLeader insts j) := by
  have behind : ∀ p, i < p → p ≤ j → isLeader insts i p = false := fun p later to_j =>
    isLeader_behind_label later (labels _ (by omega) (by omega))
  apply filter_range'_skip before within (fun p from_i below => behind p from_i (by omega))
  intro p from_j _
  by_cases here : p = j
  · subst here
    rw [behind p before (Nat.le_refl p), isLeader_self, stops]
  · exact isLeader_after (by omega) (by omega)

/-- Behind a control transfer the first place is a leader, and no other before the next real instruction. -/
theorem filter_behind_transfer {j : Nat} (more : i + 1 < insts.length) (transfer : transferAt insts i = true)
    (after : i + 1 ≤ j) (within : j ≤ insts.length) (labels : ∀ p, i + 1 ≤ p → p < j → labelAt insts p = true)
    (stops : labelAt insts j = false) :
    (List.range' (i + 1) (insts.length - (i + 1))).filter (isLeader insts i) =
      (i + 1) :: (List.range' j (insts.length - j)).filter (isLeader insts j) := by
  have leads : isLeader insts i (i + 1) = true := by simp [isLeader, transfer]
  rw [show insts.length - (i + 1) = insts.length - (i + 2) + 1 by omega, List.range'_succ,
    List.filter_cons_of_pos leads]
  congr 1
  by_cases here : j = i + 1
  · subst here
    symm
    apply filter_range'_skip (Nat.le_succ _) more
    · intro p from_i below
      obtain rfl : p = i + 1 := by omega
      rw [isLeader_self, stops]
    · exact fun p from_i _ => isLeader_after (by omega) (by omega)
  · rw [← filter_behind_labels (by omega) within labels stops]
    exact List.filter_congr fun p member =>
      isLeader_after (by have := List.mem_range'_1.mp member; omega) (by have := List.mem_range'_1.mp member; omega)

/-- Behind any other real instruction the first pass looks at the next place. -/
theorem filter_behind_other (within : i < insts.length) (label : labelAt insts i = false)
    (transfer : transferAt insts i = false) :
    (List.range' (i + 1) (insts.length - (i + 1))).filter (isLeader insts i) =
      (List.range' (i + 1) (insts.length - (i + 1))).filter (isLeader insts (i + 1)) := by
  have real := real_of_not_label within label
  apply filter_range'_skip (Nat.le_refl _) within (by omega)
  intro p from_i _
  by_cases here : p = i + 1
  · subst here
    simp [isLeader, transfer, real]
  · exact isLeader_after (by omega) (by omega)

/-- The leaders are those places, in order. -/
theorem leadersFrom_eq_filter (insts : List PtxInstruction) (i : Nat) :
    leadersFrom insts i = (List.range' i (insts.length - i)).filter (isLeader insts i) := by
  generalize distance : insts.length - i = d
  induction d using Nat.strongRecOn generalizing i with
  | ind d ih =>
      subst distance
      rw [leadersFrom_eq]
      by_cases within : i < insts.length
      · rw [if_pos within, show insts.length - i = insts.length - (i + 1) + 1 by omega, List.range'_succ]
        obtain ⟨after, labels, stops⟩ := findNextRealInstruction_spec insts (i + 1)
        have bound : findNextRealInstruction insts (i + 1) ≤ insts.length :=
          findNextRealInstruction_le (by omega)
        generalize findNextRealInstruction insts (i + 1) = j at *
        have from_j := ih _ (by omega) j rfl
        by_cases label : labelAt insts i = true
        · rw [if_pos label, from_j, List.filter_cons_of_pos (by rwa [isLeader_self])]
          refine congrArg (List.cons i) (filter_behind_labels after bound (fun p from_i below => ?_) stops).symm
          by_cases here : p = i
          · rwa [here]
          · exact labels p (by omega) below
        · rw [if_neg label, List.filter_cons_of_neg (by rwa [isLeader_self])]
          by_cases transfer : transferAt insts i = true
          · rw [if_pos transfer, from_j]
            by_cases more : i + 1 < insts.length
            · rw [if_pos more, filter_behind_transfer more transfer after bound labels stops, List.singleton_append]
            · obtain rfl : j = insts.length := by omega
              rw [if_neg more, show insts.length - (i + 1) = 0 by omega, Nat.sub_self]
              rfl
          · rw [if_neg transfer, ih _ (by omega) (i + 1) rfl]
            exact (filter_behind_other within (by simpa using label) (by simpa using transfer)).symm
      · rw [if_neg within, show insts.length - i = 0 by omega]
        rfl

/-- The state of the second pass. The last block is the one being filled. -/
structure Cutting where
  /-- From the next leader on. -/
  leaders : List Nat
  bbId : Nat
  basicBlocks : List BasicBlock
  lastRealInst : Nat
  bb : Nat → Option Nat

def setEnd (blocks : List BasicBlock) (last : Nat) : List BasicBlock :=
  blocks.modify (blocks.length - 1) fun block => { block with ptxEnd := some last }

/-- The start of the next basic block, unless it is a bogus trailing label. -/
def Cutting.startBlock (insts : List PtxInstruction) (state : Cutting) (i : Nat) : Cutting :=
  let blocks := setEnd state.basicBlocks state.lastRealInst
  let next := findNextRealInstruction insts i
  if next ≠ insts.length then
    { state with
      leaders := state.leaders.tail
      bbId := state.bbId + 1
      basicBlocks := blocks ++ [⟨state.bbId, some next, none, false, false⟩]
      lastRealInst := next }
  else { state with leaders := state.leaders.tail, basicBlocks := blocks }

/-- One element of the second pass. -/
def Cutting.place (insts : List PtxInstruction) (state : Cutting) (i : Nat) : Cutting :=
  let state := if state.leaders.head? = some i then state.startBlock insts i else state
  { state with
    bb := Function.update state.bb i (state.basicBlocks.getLast?.map BasicBlock.bbId)
    lastRealInst := if labelAt insts i then state.lastRealInst else i }

theorem setEnd_append (blocks : List BasicBlock) (block : BasicBlock) (last : Nat) :
    setEnd (blocks ++ [block]) last = blocks ++ [{ block with ptxEnd := some last }] := by
  unfold setEnd
  rw [List.length_append, List.length_singleton, Nat.add_sub_cancel, List.modify_eq_take_cons_drop (by simp)]
  simp

namespace FunctionInfo

/-- The first element is a leader; the first pass starts behind it. -/
def createBasicBlocks (fn : FunctionInfo) : Except PtxFault FunctionInfo :=
  let insts := fn.instructions
  if insts.length = 0 ∨ findNextRealInstruction insts 0 = insts.length then .error .badAccess
  else
    let start : Cutting :=
      { leaders := leadersFrom insts 1
        bbId := 1
        basicBlocks := fn.basicBlocks ++ [⟨0, some (findNextRealInstruction insts 0), none, true, false⟩]
        lastRealInst := 0
        bb := fn.bb }
    let cut := (List.range insts.length).foldl (Cutting.place insts) start
    .ok { fn with
      basicBlocks := setEnd cut.basicBlocks cut.lastRealInst ++ [⟨cut.bbId, none, none, false, true⟩]
      bb := cut.bb }

end FunctionInfo

end GpgpuSim.Ptx
