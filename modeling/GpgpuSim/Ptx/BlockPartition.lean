import GpgpuSim.Ptx.BasicBlocks

/-! The basic blocks partition the real instructions of a function: when they do, and the
two ways in which the start of the instruction list goes wrong. -/
namespace GpgpuSim.Ptx
open Containers

/-- What the blocks of a function have to be, all but the last, which is the exit: runs of
real instructions that together hold each of them once, that end at control transfers, that
start behind labels, and that end nowhere else. -/
structure Partitioned (fn : FunctionInfo) : Prop where
  blocks : ∀ k, k + 1 < fn.size → ∃ block b e, fn.basicBlocks[k]? = some block ∧
    block.ptxBegin = some b ∧ block.ptxEnd = some e ∧ realAt fn.instructions b = true ∧
    realAt fn.instructions e = true ∧ b ≤ e ∧
    ∀ p, realAt fn.instructions p = true → (fn.bb p = some k ↔ b ≤ p ∧ p ≤ e)
  belongs : ∀ p, realAt fn.instructions p = true → ∃ k, k + 1 < fn.size ∧ fn.bb p = some k
  transfers : ∀ p k block, transferAt fn.instructions p = true → fn.bb p = some k →
    fn.basicBlocks[k]? = some block → block.ptxEnd = some p
  afterLabel : ∀ i p k block, labelAt fn.instructions i = true → i < p →
    (∀ q, i < q → q < p → labelAt fn.instructions q = true) → realAt fn.instructions p = true →
    fn.bb p = some k → fn.basicBlocks[k]? = some block → block.ptxBegin = some p
  maximal : ∀ k block after e b, k + 2 < fn.size → fn.basicBlocks[k]? = some block →
    fn.basicBlocks[k + 1]? = some after → block.ptxEnd = some e → after.ptxBegin = some b →
    transferAt fn.instructions e = true ∨ ∃ i, e < i ∧ i < b ∧ labelAt fn.instructions i = true

/-- Two labels first, of which the second is taken for a leader. -/
def TwoLabelsFirst (insts : List PtxInstruction) : Prop := labelAt insts 0 = true ∧ labelAt insts 1 = true

/-- A control transfer first, at which the first pass does not look, and no label behind it. -/
def TransferFirst (insts : List PtxInstruction) : Prop := transferAt insts 0 = true ∧ realAt insts 1 = true

/-! ## Segments -/

/-- The elements of block `k`: labels from `lo` on and real instructions from `b` to `hi`. -/
structure Segment (insts : List PtxInstruction) (bb : Nat → Option Nat) (k lo b hi : Nat) : Prop where
  lo_le : lo ≤ b
  lt_hi : b < hi
  labels : ∀ p, lo ≤ p → p < b → labelAt insts p = true
  reals : ∀ p, b ≤ p → p < hi → realAt insts p = true
  inner : ∀ p, b ≤ p → p + 1 < hi → transferAt insts p = false
  marks : ∀ p, lo ≤ p → p < hi → bb p = some k

/-- What may come behind a block. -/
def Boundary (insts : List PtxInstruction) (hi : Nat) : Prop :=
  hi = insts.length ∨ labelAt insts hi = true ∨ transferAt insts (hi - 1) = true

def coreBlock (k b hi : Nat) : BasicBlock := ⟨k, some b, some (hi - 1), decide (k = 0), false⟩

/-- Blocks that take up the elements before place `hi`, segment by segment. -/
inductive Chain (insts : List PtxInstruction) (bb : Nat → Option Nat) : List BasicBlock → Nat → Prop
  | start : Chain insts bb [] 0
  | next {blocks : List BasicBlock} {lo b hi : Nat} (before : Chain insts bb blocks lo)
      (segment : Segment insts bb blocks.length lo b hi) (boundary : Boundary insts hi) :
      Chain insts bb (blocks ++ [coreBlock blocks.length b hi]) hi

variable {insts : List PtxInstruction} {bb : Nat → Option Nat} {blocks : List BasicBlock} {k lo b hi i p : Nat}

theorem Segment.update (segment : Segment insts bb k lo b hi) (late : hi ≤ i) (value : Option Nat) :
    Segment insts (Function.update bb i value) k lo b hi where
  lo_le := segment.lo_le
  lt_hi := segment.lt_hi
  labels := segment.labels
  reals := segment.reals
  inner := segment.inner
  marks p from_lo below := by
    rw [Function.update_of_ne (by omega)]
    exact segment.marks p from_lo below

theorem Chain.update (chain : Chain insts bb blocks hi) (late : hi ≤ i) (value : Option Nat) :
    Chain insts (Function.update bb i value) blocks hi := by
  induction chain with
  | start => exact .start
  | next _ segment boundary ih =>
      have shorter := segment.lo_le
      have shorter' := segment.lt_hi
      exact .next (ih (by omega)) (segment.update late value) boundary

/-- Each block of a chain is a segment, and the next one takes up where it ends. -/
theorem Chain.block (chain : Chain insts bb blocks hi) (within : k < blocks.length) :
    ∃ lo b hi', blocks[k]? = some (coreBlock k b hi') ∧ Segment insts bb k lo b hi' ∧ hi' ≤ hi ∧
      Boundary insts hi' ∧ (k + 1 = blocks.length → hi' = hi) ∧
      ∀ after, blocks[k + 1]? = some after → ∃ b', after.ptxBegin = some b' ∧ hi' ≤ b' ∧ b' < hi ∧
        (∀ p, hi' ≤ p → p < b' → labelAt insts p = true) ∧ realAt insts b' = true := by
  induction chain with
  | start => simp at within
  | @next blocks lo b hi _ segment boundary ih =>
      have low := segment.lo_le
      have high := segment.lt_hi
      rw [List.length_append, List.length_singleton] at within
      by_cases old : k < blocks.length
      · obtain ⟨lo', b', hi', at_k, segment', below, boundary', last, after⟩ := ih old
        refine ⟨lo', b', hi', ?_, segment', by omega, boundary', by simp; omega, ?_⟩
        · rwa [List.getElem?_append_left old]
        · intro later found
          by_cases final : k + 1 < blocks.length
          · rw [List.getElem?_append_left final] at found
            obtain ⟨b'', begins, from_hi, to_lo, labels, real⟩ := after later found
            exact ⟨b'', begins, from_hi, by omega, labels, real⟩
          · obtain rfl := last (by omega)
            rw [List.getElem?_append_right (by omega), show k + 1 - blocks.length = 0 by omega] at found
            obtain rfl := Option.some.inj found
            exact ⟨b, rfl, low, high, segment.labels, segment.reals b (Nat.le_refl b) high⟩
      · obtain rfl : k = blocks.length := by omega
        refine ⟨lo, b, hi, by simp, segment, Nat.le_refl hi, boundary, fun _ => rfl, ?_⟩
        intro after found
        simp at found

/-- Every element before the end of a chain is in one of its segments. -/
theorem Chain.covers (chain : Chain insts bb blocks hi) (below : p < hi) :
    ∃ k lo b hi', blocks[k]? = some (coreBlock k b hi') ∧ Segment insts bb k lo b hi' ∧ lo ≤ p ∧ p < hi' := by
  induction chain with
  | start => omega
  | @next blocks lo b hi _ segment boundary ih =>
      by_cases old : p < lo
      · obtain ⟨k, lo', b', hi', at_k, segment', from_lo, to_hi⟩ := ih old
        refine ⟨k, lo', b', hi', ?_, segment', from_lo, to_hi⟩
        rwa [List.getElem?_append_left (List.getElem?_eq_some_iff.mp at_k).1]
      · exact ⟨blocks.length, lo, b, hi, by simp, segment, Nat.not_lt.mp old, below⟩

/-- A real instruction is in the real part of a segment. -/
theorem Chain.home (chain : Chain insts bb blocks hi)
    (rest : ∀ p, hi ≤ p → p < insts.length → labelAt insts p = true) (real : realAt insts p = true) :
    ∃ k lo b hi', blocks[k]? = some (coreBlock k b hi') ∧ Segment insts bb k lo b hi' ∧ b ≤ p ∧ p < hi' := by
  have below : p < hi := by
    by_contra beyond
    rw [not_real_of_label (rest p (Nat.not_lt.mp beyond) (realAt_lt real))] at real
    cases real
  obtain ⟨k, lo, b, hi', at_k, segment, from_lo, to_hi⟩ := chain.covers below
  refine ⟨k, lo, b, hi', at_k, segment, ?_, to_hi⟩
  by_contra early
  rw [not_real_of_label (segment.labels p from_lo (Nat.not_le.mp early))] at real
  cases real

/-- Its mark names the block of the segment. -/
theorem Chain.home_of {block : BasicBlock} (chain : Chain insts bb blocks hi)
    (rest : ∀ p, hi ≤ p → p < insts.length → labelAt insts p = true) (real : realAt insts p = true)
    (marked : bb p = some k) (found : blocks[k]? = some block) :
    ∃ lo b hi', block = coreBlock k b hi' ∧ Segment insts bb k lo b hi' ∧ b ≤ p ∧ p < hi' := by
  obtain ⟨k', lo, b, hi', at_k, segment, from_b, to_hi⟩ := chain.home rest real
  have low := segment.lo_le
  obtain rfl : k' = k := by
    rw [segment.marks p (by omega) to_hi] at marked
    exact Option.some.inj marked
  rw [at_k] at found
  exact ⟨lo, b, hi', (Option.some.inj found).symm, segment, from_b, to_hi⟩

/-- A chain with nothing but labels behind it is the partition. -/
theorem Chain.partitioned {fn : FunctionInfo} {exit : BasicBlock} (chain : Chain fn.instructions fn.bb blocks hi)
    (made : fn.basicBlocks = blocks ++ [exit])
    (rest : ∀ p, hi ≤ p → p < fn.instructions.length → labelAt fn.instructions p = true) : Partitioned fn := by
  have size : fn.size = blocks.length + 1 := by simp [FunctionInfo.size, made]
  have core : ∀ {k}, k < blocks.length → fn.basicBlocks[k]? = blocks[k]? := by
    intro k within
    rw [made, List.getElem?_append_left within]
  have home_of : ∀ {p k block}, realAt fn.instructions p = true → fn.bb p = some k →
      fn.basicBlocks[k]? = some block → ∃ lo b hi', block = coreBlock k b hi' ∧
        Segment fn.instructions fn.bb k lo b hi' ∧ b ≤ p ∧ p < hi' := by
    intro p k block real marked found
    obtain ⟨k', lo, b, hi', at_k, segment, from_b, to_hi⟩ := chain.home rest real
    have low := segment.lo_le
    rw [segment.marks p (by omega) to_hi] at marked
    obtain rfl := Option.some.inj marked
    rw [core (List.getElem?_eq_some_iff.mp at_k).1] at found
    exact chain.home_of rest real (segment.marks p (by omega) to_hi) found
  constructor
  · intro k within
    obtain ⟨lo, b, hi', at_k, segment, -⟩ := chain.block (k := k) (by omega)
    have nonempty := segment.lt_hi
    have low := segment.lo_le
    have found := (core (by omega)).trans at_k
    refine ⟨_, b, hi' - 1, found, rfl, rfl, segment.reals b (Nat.le_refl b) nonempty,
      segment.reals (hi' - 1) (by omega) (by omega), by omega, ?_⟩
    intro p real
    constructor
    · intro marked
      obtain ⟨_, b', hi'', same, _, from_b, to_hi⟩ := home_of real marked found
      simp only [coreBlock, BasicBlock.mk.injEq, Option.some.injEq] at same
      obtain ⟨-, rfl, ends, -⟩ := same
      omega
    · rintro ⟨from_b, to_e⟩
      exact segment.marks p (by omega) (by omega)
  · intro p real
    obtain ⟨k, lo, b, hi', at_k, segment, from_b, to_hi⟩ := chain.home rest real
    have within := (List.getElem?_eq_some_iff.mp at_k).1
    have low := segment.lo_le
    exact ⟨k, by omega, segment.marks p (by omega) to_hi⟩
  · intro p k block transfer marked found
    obtain ⟨lo, b, hi', rfl, segment, from_b, to_hi⟩ := home_of (realAt_of_transferAt transfer) marked found
    by_cases last : p + 1 = hi'
    · simp only [coreBlock, Option.some.injEq]
      omega
    · rw [segment.inner p from_b (by omega)] at transfer
      cases transfer
  · intro i p k block label before labels real marked found
    obtain ⟨lo, b, hi', rfl, segment, from_b, to_hi⟩ := home_of real marked found
    by_cases first : p = b
    · rw [first, coreBlock]
    · have behind : labelAt fn.instructions (p - 1) = true := by
        by_cases here : p - 1 = i
        · rwa [here]
        · exact labels _ (by omega) (by omega)
      have inside := segment.reals (p - 1) (by omega) (by omega)
      rw [not_real_of_label behind] at inside
      cases inside
  · intro k block after e b' within found found' ends begins
    rw [core (by omega)] at found found'
    obtain ⟨lo, b, hi', at_k, segment, -, boundary, -, next⟩ := chain.block (k := k) (by omega)
    have nonempty := segment.lt_hi
    rw [at_k] at found
    obtain rfl := Option.some.inj found
    obtain rfl : hi' - 1 = e := Option.some.inj ends
    obtain ⟨b'', begins', from_hi, to_end, labels, real⟩ := next after found'
    obtain rfl : b'' = b' := Option.some.inj (begins'.symm.trans begins)
    rcases boundary with last | label | transfer
    · have inside := realAt_lt real
      omega
    · refine .inr ⟨hi', by omega, ?_, label⟩
      by_contra late
      obtain rfl : hi' = b'' := by omega
      rw [not_real_of_label label] at real
      cases real
    · exact .inl transfer

/-! ## The second pass -/

/-- How far the last block is: it has elements, or the labels before it are passed, or it
is complete and what follows is a trailing label. -/
inductive Stage (insts : List PtxInstruction) (i lo b lastRealInst : Nat) : Prop
  | filling (begun : b < i) (reals : ∀ p, b ≤ p → p < i → realAt insts p = true)
      (inner : ∀ p, b ≤ p → p + 1 < i → transferAt insts p = false) (last : lastRealInst = i - 1)
  | waiting (labelled : lo < i) (ahead : i ≤ b)
  | trailing (hi : Nat) (begun : b < hi) (past : hi < i) (reals : ∀ p, b ≤ p → p < hi → realAt insts p = true)
      (inner : ∀ p, b ≤ p → p + 1 < hi → transferAt insts p = false) (last : lastRealInst = hi - 1)
      (rest : ∀ p, hi ≤ p → p < insts.length → labelAt insts p = true)

/-- The state of the second pass when it comes to place `i`: complete blocks up to `lo` and
one that starts at `b`. -/
structure Halfway (insts : List PtxInstruction) (i : Nat) (state : Cutting) (blocks : List BasicBlock)
    (lo b : Nat) : Prop where
  leaders : state.leaders = (List.range' i (insts.length - i)).filter (isLeader insts 1)
  chain : Chain insts state.bb blocks lo
  last : ∃ ptxEnd, state.basicBlocks = blocks ++ [{ coreBlock blocks.length b 0 with ptxEnd := ptxEnd }]
  bbId : state.bbId = blocks.length + 1
  lo_le : lo ≤ b
  labels : ∀ p, lo ≤ p → p < b → labelAt insts p = true
  real : realAt insts b = true
  marks : ∀ p, lo ≤ p → p < i → state.bb p = some blocks.length
  stage : Stage insts i lo b state.lastRealInst

theorem isLeader_one_of_real (well : ¬TransferFirst insts) (started : 1 ≤ i) (within : i < insts.length)
    (real : realAt insts (i - 1) = true) : isLeader insts 1 i = (labelAt insts i || transferAt insts (i - 1)) := by
  by_cases first : i = 1
  · subst first
    rw [isLeader_self]
    cases transfer : transferAt insts (1 - 1) with
    | false => rw [Bool.or_false]
    | true =>
        have not_real : realAt insts 1 = false := by
          by_contra real
          exact well ⟨transfer, by simpa using real⟩
        have either := labelAt_eq within
        rw [not_real] at either
        rw [either]
        rfl
  · have later : decide (1 < i) = true := by simp; omega
    simp [isLeader, real, later]

theorem isLeader_one_of_label (well : ¬TwoLabelsFirst insts) (started : 1 ≤ i)
    (label : labelAt insts (i - 1) = true) : isLeader insts 1 i = false := by
  by_cases first : i = 1
  · subst first
    rw [isLeader_self]
    by_contra second
    exact well ⟨label, by simpa using second⟩
  · exact isLeader_behind_label (by omega) label

theorem leaders_step (within : i < insts.length) {leaders : List Nat}
    (same : leaders = (List.range' i (insts.length - i)).filter (isLeader insts 1)) :
    (leaders.head? = some i ↔ isLeader insts 1 i = true) ∧
      (if isLeader insts 1 i then leaders.tail else leaders) =
        (List.range' (i + 1) (insts.length - (i + 1))).filter (isLeader insts 1) := by
  rw [show insts.length - i = insts.length - (i + 1) + 1 by omega, List.range'_succ] at same
  cases leads : isLeader insts 1 i with
  | true =>
      rw [List.filter_cons_of_pos leads] at same
      simp [same]
  | false =>
      rw [List.filter_cons_of_neg (by simp [leads])] at same
      refine ⟨?_, by simpa using same⟩
      simp only [Bool.false_eq_true, iff_false]
      intro head
      have member : i ∈ leaders := List.mem_of_head? head
      rw [same, List.mem_filter, List.mem_range'_1] at member
      omega

/-- At a place that is not a leader the last block goes on. -/
theorem Halfway.stay {state : Cutting} (half : Halfway insts i state blocks lo b) (from_lo : lo ≤ i)
    (within : i < insts.length) (not_leader : isLeader insts 1 i = false)
    (stage : Stage insts (i + 1) lo b (if labelAt insts i then state.lastRealInst else i)) :
    Halfway insts (i + 1) (state.place insts i) blocks lo b := by
  obtain ⟨head, tail⟩ := leaders_step within half.leaders
  rw [not_leader] at head tail
  have other : ¬state.leaders.head? = some i := by simp [head]
  obtain ⟨ptxEnd, made⟩ := half.last
  simp only [Cutting.place, if_neg other]
  constructor
  · exact tail
  · exact half.chain.update from_lo _
  · exact ⟨ptxEnd, made⟩
  · exact half.bbId
  · exact half.lo_le
  · exact half.labels
  · exact half.real
  · intro p from_lo' below
    by_cases here : p = i
    · subst here
      simp [made, coreBlock]
    · dsimp only
      rw [Function.update_of_ne here]
      exact half.marks p from_lo' (by omega)
  · exact stage

/-- The last block is complete at the leader, and the next real instruction begins a block. -/
theorem Halfway.begin {state : Cutting} (half : Halfway insts i state blocks lo b) (within : i < insts.length)
    (segment : Segment insts state.bb blocks.length lo b i) (last : state.lastRealInst = i - 1)
    (leader : isLeader insts 1 i = true) (boundary : Boundary insts i)
    (more : findNextRealInstruction insts i ≠ insts.length) :
    Halfway insts (i + 1) (state.place insts i) (blocks ++ [coreBlock blocks.length b i]) i
      (findNextRealInstruction insts i) := by
  obtain ⟨head, tail⟩ := leaders_step within half.leaders
  rw [if_pos leader] at tail
  obtain ⟨ptxEnd, made⟩ := half.last
  have ends : setEnd state.basicBlocks state.lastRealInst = blocks ++ [coreBlock blocks.length b i] := by
    rw [made, setEnd_append, last]
    rfl
  obtain ⟨after, labels, stops⟩ := findNextRealInstruction_spec insts i
  have bound := findNextRealInstruction_le (Nat.le_of_lt within)
  have real := real_of_not_label (show findNextRealInstruction insts i < insts.length by omega) stops
  simp only [Cutting.place, head.mpr leader, if_true, Cutting.startBlock, if_pos more, ends]
  constructor
  · exact tail
  · exact (half.chain.next segment boundary).update (Nat.le_refl i) _
  · exact ⟨none, by simp [coreBlock, half.bbId]⟩
  · simp [half.bbId]
  · exact after
  · exact labels
  · exact real
  · intro p from_i below
    obtain rfl : p = i := by omega
    simp [half.bbId]
  · by_cases label : labelAt insts i = true
    · have ahead : i + 1 ≤ findNextRealInstruction insts i := by
        by_contra here
        rw [show findNextRealInstruction insts i = i by omega, label] at stops
        cases stops
      exact .waiting (Nat.lt_succ_self i) ahead
    · have here : findNextRealInstruction insts i = i :=
        findNextRealInstruction_eq (Nat.le_refl i) (by omega) (by simpa using label)
      rw [here] at real ⊢
      refine .filling (Nat.lt_succ_self i) ?_ (by omega) ?_
      · intro p from_i below
        rwa [show p = i by omega]
      · simp [label]

/-- With labels only behind the leader no block begins there. -/
theorem Halfway.trail {state : Cutting} (half : Halfway insts i state blocks lo b) (within : i < insts.length)
    (segment : Segment insts state.bb blocks.length lo b i) (last : state.lastRealInst = i - 1)
    (leader : isLeader insts 1 i = true) (none_left : findNextRealInstruction insts i = insts.length) :
    Halfway insts (i + 1) (state.place insts i) blocks lo b := by
  obtain ⟨head, tail⟩ := leaders_step within half.leaders
  rw [if_pos leader] at tail
  obtain ⟨ptxEnd, made⟩ := half.last
  have ends : setEnd state.basicBlocks state.lastRealInst = blocks ++ [coreBlock blocks.length b i] := by
    rw [made, setEnd_append, last]
    rfl
  have labels := (findNextRealInstruction_spec insts i).2.1
  have label : labelAt insts i = true := labels i (Nat.le_refl i) (by omega)
  have low := half.lo_le
  have begun := segment.lt_hi
  simp only [Cutting.place, head.mpr leader, if_true, Cutting.startBlock, none_left, ne_eq, not_true_eq_false,
    if_false, ends]
  constructor
  · exact tail
  · exact half.chain.update (by omega) _
  · exact ⟨_, rfl⟩
  · exact half.bbId
  · exact low
  · exact half.labels
  · exact half.real
  · intro p from_lo below
    by_cases here : p = i
    · subst here
      simp [coreBlock]
    · dsimp only
      rw [Function.update_of_ne here]
      exact half.marks p from_lo (by omega)
  · refine .trailing i begun (Nat.lt_succ_self i) segment.reals segment.inner ?_ ?_
    · simp [label, last]
    · exact fun p from_i below => labels p from_i (by omega)

/-- At a leader behind a filled block that block is complete. -/
theorem Halfway.cut {state : Cutting} (half : Halfway insts i state blocks lo b) (begun : b < i)
    (within : i < insts.length) (reals : ∀ p, b ≤ p → p < i → realAt insts p = true)
    (inner : ∀ p, b ≤ p → p + 1 < i → transferAt insts p = false) (last : state.lastRealInst = i - 1)
    (leader : isLeader insts 1 i = true) (boundary : Boundary insts i) :
    ∃ blocks lo b, Halfway insts (i + 1) (state.place insts i) blocks lo b := by
  have segment : Segment insts state.bb blocks.length lo b i :=
    ⟨half.lo_le, begun, half.labels, reals, inner, fun p from_lo below => half.marks p from_lo below⟩
  by_cases more : findNextRealInstruction insts i = insts.length
  · exact ⟨blocks, lo, b, half.trail within segment last leader more⟩
  · exact ⟨_, _, _, half.begin within segment last leader boundary more⟩

theorem Halfway.place {state : Cutting} (wellT : ¬TransferFirst insts) (wellL : ¬TwoLabelsFirst insts)
    (half : Halfway insts i state blocks lo b) (started : 1 ≤ i) (within : i < insts.length) :
    ∃ blocks lo b, Halfway insts (i + 1) (state.place insts i) blocks lo b := by
  have low := half.lo_le
  have either := labelAt_eq within
  cases half.stage with
  | filling begun reals inner last =>
      have leads := isLeader_one_of_real wellT started within (reals (i - 1) (by omega) (by omega))
      cases leader : isLeader insts 1 i with
      | true =>
          rw [leader] at leads
          have boundary : Boundary insts i := .inr (by simpa using leads.symm)
          exact half.cut begun within reals inner last leader boundary
      | false =>
          rw [leader] at leads
          obtain ⟨not_label, not_transfer⟩ := Bool.or_eq_false_iff.mp leads.symm
          have real : realAt insts i = true := by simpa [not_label] using either
          refine ⟨blocks, lo, b, half.stay (by omega) within leader (.filling (by omega) ?_ ?_ ?_)⟩
          · intro p from_b below
            by_cases here : p = i
            · rwa [here]
            · exact reals p from_b (by omega)
          · intro p from_b below
            by_cases here : p + 1 = i
            · rwa [show p = i - 1 by omega]
            · exact inner p from_b (by omega)
          · simp [not_label]
  | waiting labelled ahead =>
      have behind := half.labels (i - 1) (by omega) (by omega)
      have leader := isLeader_one_of_label wellL started behind
      refine ⟨blocks, lo, b, half.stay (by omega) within leader ?_⟩
      by_cases here : i = b
      · subst here
        have not_label : labelAt insts i = false := by simpa [half.real] using either
        refine .filling (Nat.lt_succ_self i) ?_ (by omega) ?_
        · intro p from_b below
          rw [show p = i by omega]
          exact half.real
        · simp [not_label]
      · exact .waiting (by omega) (by omega)
  | trailing hi begun past reals inner last rest =>
      have leader := isLeader_one_of_label wellL started (rest (i - 1) (by omega) (by omega))
      refine ⟨blocks, lo, b, half.stay (by omega) within leader ?_⟩
      refine .trailing hi begun (by omega) reals inner ?_ rest
      simp [rest i (by omega) within, last]

theorem Halfway.run {state : Cutting} (wellT : ¬TransferFirst insts) (wellL : ¬TwoLabelsFirst insts)
    (half : Halfway insts i state blocks lo b) (started : 1 ≤ i) {count : Nat} (within : i + count ≤ insts.length) :
    ∃ blocks lo b, Halfway insts (i + count) ((List.range' i count).foldl (Cutting.place insts) state)
      blocks lo b := by
  induction count generalizing i state blocks lo b with
  | zero => exact ⟨blocks, lo, b, half⟩
  | succ count ih =>
      obtain ⟨blocks', lo', b', half'⟩ := half.place wellT wellL started (by omega)
      rw [List.range'_succ, List.foldl_cons, show i + (count + 1) = i + 1 + count by omega]
      exact ih half' (by omega) (by omega)

/-! ## The whole function -/

theorem head_leadersFrom_one (insts : List PtxInstruction) : (leadersFrom insts 1).head? ≠ some 0 := by
  intro head
  have member : 0 ∈ leadersFrom insts 1 := List.mem_of_head? head
  rw [leadersFrom_eq_filter, List.mem_filter, List.mem_range'_1] at member
  omega

/-- The block of an element that is behind the pass does not change any more. -/
theorem bb_foldl_place {state : Cutting} {count : Nat} (before : p < i) :
    ((List.range' i count).foldl (Cutting.place insts) state).bb p = state.bb p := by
  induction count generalizing i state with
  | zero => rfl
  | succ count ih =>
      rw [List.range'_succ, List.foldl_cons, ih (by omega)]
      have apart : p ≠ i := by omega
      simp only [Cutting.place]
      rw [Function.update_of_ne apart]
      split
      · simp only [Cutting.startBlock]
        split <;> rfl
      · rfl

theorem getElem?_setEnd {last : Nat} (several : 1 < blocks.length) : (setEnd blocks last)[0]? = blocks[0]? := by
  have other : ¬blocks.length - 1 = 0 := by omega
  simp [setEnd, other]

theorem map_setEnd {α : Type} {f : BasicBlock → α}
    (same : ∀ (block : BasicBlock) (e : Option Nat), f { block with ptxEnd := e } = f block)
    (blocks : List BasicBlock) (last : Nat) : (setEnd blocks last).map f = blocks.map f := by
  unfold setEnd
  apply List.ext_getElem?
  intro k
  rw [List.getElem?_map, List.getElem?_map, List.getElem?_modify]
  cases blocks[k]? with
  | none => rfl
  | some block => by_cases here : blocks.length - 1 = k <;> simp [here, same]

/-- Nor does the first block, once there is a second. -/
theorem first_foldl_place {state : Cutting} {order : List Nat} (several : 1 < state.basicBlocks.length) :
    (order.foldl (Cutting.place insts) state).basicBlocks[0]? = state.basicBlocks[0]? ∧
      1 < (order.foldl (Cutting.place insts) state).basicBlocks.length := by
  induction order generalizing state with
  | nil => exact ⟨rfl, several⟩
  | cons i order ih =>
      have kept : (state.place insts i).basicBlocks[0]? = state.basicBlocks[0]? ∧
          1 < (state.place insts i).basicBlocks.length := by
        have same : (setEnd state.basicBlocks state.lastRealInst).length = state.basicBlocks.length :=
          List.length_modify _ _ _
        simp only [Cutting.place]
        split
        · simp only [Cutting.startBlock]
          split
          · refine ⟨?_, by simp; omega⟩
            rw [List.getElem?_append_left (by omega), getElem?_setEnd several]
          · refine ⟨getElem?_setEnd several, ?_⟩
            show 1 < (setEnd state.basicBlocks state.lastRealInst).length
            omega
        · exact ⟨rfl, several⟩
      obtain ⟨first, more⟩ := ih kept.2
      exact ⟨first.trans kept.1, more⟩

/-- The blocks are numbered by their places, none of them is the exit, and the marks name blocks that are there. -/
structure Cutting.Numbered (state : Cutting) : Prop where
  some : 1 ≤ state.bbId
  numbered : state.basicBlocks.map BasicBlock.bbId = List.range state.bbId
  inner : ∀ exit ∈ state.basicBlocks.map BasicBlock.isExit, exit = false
  marks : ∀ p k, state.bb p = Option.some k → k < state.bbId

theorem Cutting.Numbered.startBlock {state : Cutting} (numbered : state.Numbered) :
    (state.startBlock insts i).Numbered := by
  have ids := map_setEnd (fun _ _ => rfl) state.basicBlocks state.lastRealInst (f := BasicBlock.bbId)
  have exits := map_setEnd (fun _ _ => rfl) state.basicBlocks state.lastRealInst (f := BasicBlock.isExit)
  rw [Cutting.startBlock]
  split
  · refine ⟨Nat.le_add_left 1 _, ?_, ?_, fun p k marked => Nat.lt_succ_of_lt (numbered.marks p k marked)⟩
    · rw [List.map_append, ids, numbered.numbered, List.range_succ]
      rfl
    · rw [List.map_append, exits]
      intro exit member
      rcases List.mem_append.mp member with old | new
      · exact numbered.inner exit old
      · exact List.mem_singleton.mp new
  · exact ⟨numbered.some, ids.trans numbered.numbered, by rw [exits]; exact numbered.inner, numbered.marks⟩

theorem Cutting.Numbered.place {state : Cutting} (numbered : state.Numbered) : (state.place insts i).Numbered := by
  have begun : (if state.leaders.head? = Option.some i then state.startBlock insts i else state).Numbered := by
    split
    · exact numbered.startBlock
    · exact numbered
  refine ⟨begun.some, begun.numbered, begun.inner, fun p k marked => ?_⟩
  simp only [Cutting.place] at marked ⊢
  by_cases here : p = i
  · rw [here, Function.update_self] at marked
    obtain ⟨block, last, rfl⟩ := Option.map_eq_some_iff.mp marked
    rw [← List.mem_range, ← begun.numbered]
    exact List.mem_map_of_mem (List.mem_of_getLast? last)
  · rw [Function.update_of_ne here] at marked
    exact begun.marks p k marked

theorem Cutting.Numbered.foldl_place {state : Cutting} {order : List Nat} (numbered : state.Numbered) :
    (order.foldl (Cutting.place insts) state).Numbered := by
  induction order generalizing state with
  | nil => exact numbered
  | cons i order ih => exact ih numbered.place

namespace FunctionInfo

variable {fn : FunctionInfo}

/-- The second pass behind the first element. -/
def started (fn : FunctionInfo) : Cutting where
  leaders := leadersFrom fn.instructions 1
  bbId := 1
  basicBlocks := [⟨0, some (findNextRealInstruction fn.instructions 0), none, true, false⟩]
  lastRealInst := 0
  bb := Function.update fn.bb 0 (some 0)

theorem createBasicBlocks_eq (fresh : fn.basicBlocks = []) (holds_real : ∃ p, realAt fn.instructions p = true) :
    ∃ cut, cut = (List.range' 1 (fn.instructions.length - 1)).foldl (Cutting.place fn.instructions) fn.started ∧
      fn.createBasicBlocks = .ok { fn with
        basicBlocks := setEnd cut.basicBlocks cut.lastRealInst ++ [⟨cut.bbId, none, none, false, true⟩]
        bb := cut.bb } := by
  obtain ⟨p, real⟩ := holds_real
  have within := realAt_lt real
  obtain ⟨after, labels, stops⟩ := findNextRealInstruction_spec fn.instructions 0
  have before : findNextRealInstruction fn.instructions 0 ≤ p := by
    by_contra late
    rw [not_real_of_label (labels p (Nat.zero_le p) (by omega))] at real
    cases real
  have checks : ¬(fn.instructions.length = 0 ∨
      findNextRealInstruction fn.instructions 0 = fn.instructions.length) := by omega
  have order : List.range fn.instructions.length = 0 :: List.range' 1 (fn.instructions.length - 1) := by
    rw [List.range_eq_range', show fn.instructions.length = fn.instructions.length - 1 + 1 by omega,
      List.range'_succ]
    rfl
  refine ⟨_, rfl, ?_⟩
  have first : ∀ state : Cutting, state.leaders = leadersFrom fn.instructions 1 → state.lastRealInst = 0 →
      state.place fn.instructions 0 = { state with
        bb := Function.update state.bb 0 (state.basicBlocks.getLast?.map BasicBlock.bbId) } := by
    intro state leaders last
    have other : ¬state.leaders.head? = some 0 := by
      rw [leaders]
      exact head_leadersFrom_one fn.instructions
    simp only [Cutting.place, if_neg other, last, ite_self]
  simp only [createBasicBlocks, if_neg checks]
  rw [order, List.foldl_cons, first _ rfl rfl, fresh]
  rfl

/-- What the analyses assert of the blocks and count on: there are two at least, numbered by their places, the
last one alone is the exit, and instructions are in the others. -/
structure Blocks (fn : FunctionInfo) : Prop where
  two : 2 ≤ fn.size
  numbered : fn.numbered = true
  exit : ∀ i block, fn.basicBlocks[i]? = some block → (block.isExit = true ↔ i + 1 = fn.size)
  marks : ∀ p k, fn.bb p = some k → k + 1 < fn.size

theorem createBasicBlocks_blocks (fresh : fn.basicBlocks = []) (unmarked : ∀ p, fn.bb p = none)
    (holds_real : ∃ p, realAt fn.instructions p = true) {next : FunctionInfo}
    (made : fn.createBasicBlocks = .ok next) : Blocks next := by
  obtain ⟨cut, ran, result⟩ := createBasicBlocks_eq fresh holds_real
  obtain rfl := Except.ok.inj (result.symm.trans made)
  have start : fn.started.Numbered := by
    refine ⟨Nat.le_refl 1, rfl, by simp [started], fun p k marked => ?_⟩
    by_cases here : p = 0
    · simp only [started, here, Function.update_self, Option.some.injEq] at marked ⊢
      omega
    · simp [started, here, unmarked] at marked
  have cutNumbered : cut.Numbered := by
    rw [ran]
    exact start.foldl_place
  have ids := map_setEnd (fun _ _ => rfl) cut.basicBlocks cut.lastRealInst (f := BasicBlock.bbId)
  have exits := map_setEnd (fun _ _ => rfl) cut.basicBlocks cut.lastRealInst (f := BasicBlock.isExit)
  have count : (setEnd cut.basicBlocks cut.lastRealInst).length = cut.bbId := by
    have lengths := congrArg List.length ids
    rwa [cutNumbered.numbered, List.length_map, List.length_range] at lengths
  have some := cutNumbered.some
  constructor
  · simp only [size, List.length_append, count, List.length_singleton]
    omega
  · simp only [FunctionInfo.numbered, size, List.map_append, ids, cutNumbered.numbered, List.length_append, count,
      List.length_singleton, decide_eq_true_eq, List.range_succ]
    rfl
  · intro i block found
    simp only [size, List.length_append, count, List.length_singleton] at found ⊢
    by_cases inner : i < cut.bbId
    · rw [List.getElem?_append_left (by omega)] at found
      have member := List.mem_map_of_mem (f := BasicBlock.isExit) (List.mem_of_getElem? found)
      rw [exits] at member
      rw [cutNumbered.inner _ member]
      simp
      omega
    · rw [List.getElem?_append_right (by omega), count, List.getElem?_singleton] at found
      split at found
      · obtain rfl := Option.some.inj found
        simp
        omega
      · contradiction
  · intro p k marked
    simp only [size, List.length_append, count, List.length_singleton]
    exact Nat.succ_lt_succ (cutNumbered.marks p k marked)

/-- If the list starts well, the blocks partition it. -/
theorem partitioned_of_startsWell (holds_real : ∃ p, realAt fn.instructions p = true)
    (wellL : ¬TwoLabelsFirst fn.instructions) (wellT : ¬TransferFirst fn.instructions) {cut : Cutting}
    (ran : cut = (List.range' 1 (fn.instructions.length - 1)).foldl (Cutting.place fn.instructions) fn.started) :
    Partitioned { fn with
      basicBlocks := setEnd cut.basicBlocks cut.lastRealInst ++ [⟨cut.bbId, none, none, false, true⟩]
      bb := cut.bb } := by
  obtain ⟨p, real⟩ := holds_real
  have within := realAt_lt real
  obtain ⟨after, labels, stops⟩ := findNextRealInstruction_spec fn.instructions 0
  have before : findNextRealInstruction fn.instructions 0 ≤ p := by
    by_contra late
    rw [not_real_of_label (labels p (Nat.zero_le p) (by omega))] at real
    cases real
  have real_b := real_of_not_label
    (show findNextRealInstruction fn.instructions 0 < fn.instructions.length by omega) stops
  have start : Halfway fn.instructions 1 fn.started [] 0 (findNextRealInstruction fn.instructions 0) := by
    constructor
    · exact leadersFrom_eq_filter fn.instructions 1
    · exact .start
    · exact ⟨none, rfl⟩
    · rfl
    · exact after
    · exact labels
    · exact real_b
    · intro q _ below
      obtain rfl : q = 0 := by omega
      simp [started]
    · by_cases label : labelAt fn.instructions 0 = true
      · refine .waiting Nat.one_pos ?_
        by_contra here
        rw [show findNextRealInstruction fn.instructions 0 = 0 by omega, label] at stops
        cases stops
      · have here : findNextRealInstruction fn.instructions 0 = 0 :=
          findNextRealInstruction_eq (Nat.le_refl 0) (by omega) (by simpa using label)
        rw [here] at real_b ⊢
        refine .filling Nat.one_pos ?_ (by omega) rfl
        intro q _ below
        rwa [show q = 0 by omega]
  obtain ⟨blocks, lo, b, half⟩ := start.run wellT wellL (Nat.le_refl 1)
    (show 1 + (fn.instructions.length - 1) ≤ fn.instructions.length by omega)
  rw [← ran, show 1 + (fn.instructions.length - 1) = fn.instructions.length by omega] at half
  obtain ⟨ptxEnd, made⟩ := half.last
  have low := half.lo_le
  have marks := half.marks
  have finish : ∀ hi, b < hi → hi ≤ fn.instructions.length → cut.lastRealInst = hi - 1 →
      (∀ p, b ≤ p → p < hi → realAt fn.instructions p = true) →
      (∀ p, b ≤ p → p + 1 < hi → transferAt fn.instructions p = false) → Boundary fn.instructions hi →
      Chain fn.instructions cut.bb (blocks ++ [coreBlock blocks.length b hi]) hi ∧
        setEnd cut.basicBlocks cut.lastRealInst = blocks ++ [coreBlock blocks.length b hi] := by
    intro hi begun inside last reals inner boundary
    refine ⟨half.chain.next ⟨low, begun, half.labels, reals, inner, ?_⟩ boundary, ?_⟩
    · exact fun q from_lo below => marks q from_lo (by omega)
    · rw [made, setEnd_append, last]
      rfl
  cases half.stage with
  | filling begun reals inner last =>
      obtain ⟨chain, ends⟩ := finish _ begun (Nat.le_refl _) last reals inner (.inl rfl)
      exact chain.partitioned (by rw [ends]) fun q beyond inside => absurd inside (Nat.not_lt.mpr beyond)
  | waiting labelled ahead =>
      have inside := realAt_lt half.real
      omega
  | trailing hi begun past reals inner last rest =>
      obtain ⟨chain, ends⟩ := finish hi begun (by omega) last reals inner (.inr (.inl (rest hi (Nat.le_refl hi) past)))
      exact chain.partitioned (by rw [ends]) rest

/-- Behind two labels the first block begins at the first real instruction and ends at the
first label. -/
theorem twoLabelsFirst_fails (holds_real : ∃ p, realAt fn.instructions p = true)
    (two : TwoLabelsFirst fn.instructions) {cut : Cutting}
    (ran : cut = (List.range' 1 (fn.instructions.length - 1)).foldl (Cutting.place fn.instructions) fn.started) :
    ¬Partitioned { fn with
      basicBlocks := setEnd cut.basicBlocks cut.lastRealInst ++ [⟨cut.bbId, none, none, false, true⟩]
      bb := cut.bb } := by
  intro partitioned
  obtain ⟨p, real⟩ := holds_real
  have within := realAt_lt real
  obtain ⟨after, labels, stops⟩ := findNextRealInstruction_spec fn.instructions 1
  have label_lt := labelAt_lt two.2
  have more : findNextRealInstruction fn.instructions 1 ≠ fn.instructions.length := by
    intro all
    have label : labelAt fn.instructions p = true := by
      by_cases first : p = 0
      · rw [first]
        exact two.1
      · exact labels p (by omega) (by omega)
    rw [not_real_of_label label] at real
    cases real
  obtain ⟨head, -⟩ := leaders_step label_lt (leadersFrom_eq_filter fn.instructions 1)
  rw [isLeader_self] at head
  have second : (fn.started.place fn.instructions 1).basicBlocks =
      [⟨0, some (findNextRealInstruction fn.instructions 0), some 0, true, false⟩,
        ⟨1, some (findNextRealInstruction fn.instructions 1), none, false, false⟩] := by
    have leads : fn.started.leaders.head? = some 1 := head.mpr two.2
    simp only [Cutting.place, if_pos leads, Cutting.startBlock, if_pos more]
    rfl
  rw [show fn.instructions.length - 1 = fn.instructions.length - 2 + 1 by omega, List.range'_succ,
    List.foldl_cons] at ran
  obtain ⟨first, several⟩ := @first_foldl_place fn.instructions (fn.started.place fn.instructions 1)
    (List.range' (1 + 1) (fn.instructions.length - 2)) (by rw [second]; exact Nat.lt_succ_self 1)
  rw [← ran] at first several
  obtain ⟨block, b, e, found, -, ends, -, real_e, -⟩ := partitioned.blocks 0 (by
    have same : (setEnd cut.basicBlocks cut.lastRealInst).length = cut.basicBlocks.length :=
      List.length_modify _ _ _
    simp only [size, List.length_append, same]
    simp
    omega)
  dsimp only at found real_e
  rw [List.getElem?_append_left (by simpa [setEnd] using Nat.lt_trans Nat.zero_lt_one several),
    getElem?_setEnd several, first, second] at found
  obtain rfl := Option.some.inj found
  obtain rfl : 0 = e := Option.some.inj ends
  rw [not_real_of_label two.1] at real_e
  cases real_e

/-- A control transfer in front of a real instruction is put into one block with it. -/
theorem transferFirst_fails (transfer : TransferFirst fn.instructions) {cut : Cutting}
    (ran : cut = (List.range' 1 (fn.instructions.length - 1)).foldl (Cutting.place fn.instructions) fn.started) :
    ¬Partitioned { fn with
      basicBlocks := setEnd cut.basicBlocks cut.lastRealInst ++ [⟨cut.bbId, none, none, false, true⟩]
      bb := cut.bb } := by
  intro partitioned
  have within := realAt_lt transfer.2
  obtain ⟨head, -⟩ := leaders_step within (leadersFrom_eq_filter fn.instructions 1)
  have not_label := not_label_of_real transfer.2
  rw [isLeader_self, not_label] at head
  have mark_one : (fn.started.place fn.instructions 1).bb 1 = some 0 := by
    have other : ¬fn.started.leaders.head? = some 1 := by simpa [started] using head
    simp only [Cutting.place, if_neg other]
    rfl
  have mark_zero : cut.bb 0 = some 0 := by
    rw [ran, bb_foldl_place Nat.zero_lt_one]
    rfl
  have mark_cut : cut.bb 1 = some 0 := by
    rw [ran, show fn.instructions.length - 1 = fn.instructions.length - 2 + 1 by omega, List.range'_succ,
      List.foldl_cons, bb_foldl_place (Nat.lt_succ_self 1), mark_one]
  obtain ⟨k, inside, marked⟩ := partitioned.belongs 0 (realAt_of_transferAt transfer.1)
  dsimp only at marked
  obtain rfl : k = 0 := by
    rw [mark_zero] at marked
    exact (Option.some.inj marked).symm
  obtain ⟨block, b, e, found, -, ends, -, -, -, members⟩ := partitioned.blocks 0 inside
  have last := partitioned.transfers 0 0 block transfer.1 mark_zero found
  obtain rfl : e = 0 := Option.some.inj (ends.symm.trans last)
  have beyond := ((members 1 transfer.2).mp mark_cut).2
  omega

/-- The blocks partition the instructions exactly if the list does not start with two labels
nor with a control transfer in front of a real instruction. -/
theorem createBasicBlocks_partitioned_iff (fresh : fn.basicBlocks = [])
    (holds_real : ∃ p, realAt fn.instructions p = true) :
    ∃ next, fn.createBasicBlocks = .ok next ∧
      (Partitioned next ↔ ¬TwoLabelsFirst fn.instructions ∧ ¬TransferFirst fn.instructions) := by
  obtain ⟨cut, ran, result⟩ := createBasicBlocks_eq fresh holds_real
  refine ⟨_, result, fun partitioned => ⟨?_, ?_⟩,
    fun ⟨wellL, wellT⟩ => partitioned_of_startsWell holds_real wellL wellT ran⟩
  · exact fun two => twoLabelsFirst_fails holds_real two ran partitioned
  · exact fun transfer => transferFirst_fails transfer ran partitioned

/-- A function with these instructions and no blocks yet. -/
def ofInstructions (kinds : List (Option String × Opcode × Bool)) : FunctionInfo :=
  { ofEdges [] with
    instructions := kinds.map fun (label, opcode, hasPred) => ⟨label, opcode, hasPred, "", 8, 0, 0⟩
    bb := fun _ => none }

/-- A label, a branch, the label of its target, a return and a trailing label. -/
theorem createBasicBlocks_partitioned_branch :
    ∃ next, (ofInstructions [(some "a", .other, false), (none, .braOp, true), (some "b", .other, false),
        (none, .retOp, false), (some "c", .other, false)]).createBasicBlocks = .ok next ∧ Partitioned next := by
  have fresh : (ofInstructions [(some "a", .other, false), (none, .braOp, true), (some "b", .other, false),
      (none, .retOp, false), (some "c", .other, false)]).basicBlocks = [] := rfl
  obtain ⟨next, result, partitioned⟩ := createBasicBlocks_partitioned_iff fresh ⟨1, rfl⟩
  refine ⟨next, result, partitioned.mpr ⟨?_, ?_⟩⟩
  · rintro ⟨-, ⟨⟩⟩
  · rintro ⟨⟨⟩, -⟩

/-- A branch in front of a return: both are put into the first block. And two labels in front
of a return: the first block ends at the first label. -/
theorem createBasicBlocks_not_partitioned :
    (∃ next, (ofInstructions [(none, .braOp, true), (none, .retOp, false)]).createBasicBlocks = .ok next ∧
      ¬Partitioned next) ∧
    ∃ next, (ofInstructions [(some "a", .other, false), (some "b", .other, false),
      (none, .retOp, false)]).createBasicBlocks = .ok next ∧ ¬Partitioned next := by
  constructor
  · have fresh : (ofInstructions [(none, .braOp, true), (none, .retOp, false)]).basicBlocks = [] := rfl
    obtain ⟨cut, ran, result⟩ := createBasicBlocks_eq fresh ⟨0, rfl⟩
    exact ⟨_, result, transferFirst_fails ⟨rfl, rfl⟩ ran⟩
  · have fresh : (ofInstructions [(some "a", .other, false), (some "b", .other, false),
        (none, .retOp, false)]).basicBlocks = [] := rfl
    obtain ⟨cut, ran, result⟩ := createBasicBlocks_eq fresh ⟨2, rfl⟩
    exact ⟨_, result, twoLabelsFirst_fails ⟨2, rfl⟩ ⟨rfl, rfl⟩ ran⟩

end FunctionInfo

end GpgpuSim.Ptx
