import GpgpuSim.Containers.FirstFit
import GpgpuSim.Simt.CoalescingCoverage
import GpgpuSim.Transition.Outcomes

/-! Coalescing of atomics: the threads of a subwarp that touch one segment are spread over transactions,
each thread in the first one that has none of its bytes. -/
namespace GpgpuSim.Simt
open GpgpuSim.Memory Words Transition Containers

namespace TransactionInfo

def testBytes (info : TransactionInfo) (startBit endBit : Nat) : Bool :=
  (List.range' startBit (endBit + 1 - startBit)).any info.bytes.getLsbD

/-- No byte is noted twice. -/
def setBytes (idx size : Nat) (bytes : BitVec 128) : Except CoalescingFault (BitVec 128) :=
  (List.range size).foldlM
    (fun bytes i => if bytes.getLsbD (idx + i) then .error .assertion else .ok (setBit bytes (idx + i))) bytes

def recordAtomic (thread addr size : Nat) (info : TransactionInfo) : Except CoalescingFault TransactionInfo :=
  (setBytes (addr % 128) size info.bytes).map fun bytes =>
    { chunks := setBit info.chunks (addr % 128 / 32), active := setBit info.active thread, bytes }

end TransactionInfo

/-- `subwarp_transactions`. -/
abbrev AtomicTransactions := Std.TreeMap Nat (List TransactionInfo)

/-- The first transaction without a conflict takes the thread, or a new one at the end. -/
def placeAtomic (thread addr size : Nat) : List TransactionInfo → Except CoalescingFault (List TransactionInfo)
  | [] => (TransactionInfo.recordAtomic thread addr size {}).map fun info => [info]
  | info :: rest =>
      if info.testBytes (addr % 128) (addr % 128 + size - 1) then
        (placeAtomic thread addr size rest).map fun placed => info :: placed
      else (info.recordAtomic thread addr size).map fun noted => noted :: rest

namespace WarpInst

/-- Step 1 for one thread, which writes to one segment only. -/
def atomicThread (segment : Nat) (inst : WarpInst) (txns : AtomicTransactions) (t : Nat) :
    Except CoalescingFault AtomicTransactions :=
  let addr := inst.memreqaddr t 0
  let block := lineSizeBasedTagFunc addr segment
  if block ≠ lineSizeBasedTagFunc ((addr + inst.dataSize - 1) % 2 ^ 64) segment then .error .assertion
  else (placeAtomic t addr inst.dataSize (txns.getD block [])).map fun placed => txns.insert block placed

def atomicTransactions (segment subwarpSize : Nat) (inst : WarpInst) (subwarp : Nat) :
    Except CoalescingFault AtomicTransactions :=
  (inst.subwarpThreads subwarpSize subwarp).foldlM (inst.atomicThread segment) ∅

end WarpInst

/-- Step 2: the transactions of a subwarp, segment by segment. -/
def AtomicTransactions.send (isWrite : Bool) (accessType : MemAccessType) (segment : Nat) (txns : AtomicTransactions) :
    Except CoalescingFault (List (List MemAccess)) :=
  txns.toList.mapM fun (addr, infos) => infos.mapM fun info =>
    memoryCoalescingArchReduceAndSend isWrite accessType info addr segment

def memoryCoalescingArchAtomic (cfg : CoreConfig) (inst : WarpInst) (isWrite : Bool) (accessType : MemAccessType) :
    Except CoalescingFault (List MemAccess) := do
  if inst.space ≠ .globalSpace then throw .assertion
  let segment := inst.segmentSize cfg
  let subwarpSize := cfg.warpSize / cfg.memWarpParts
  let sent ← (List.range cfg.memWarpParts).mapM fun subwarp => do
    let txns ← inst.atomicTransactions segment subwarpSize subwarp
    txns.send isWrite accessType segment
  return sent.flatten.flatten

/-! ## One transaction -/

section

variable {segment size t addr k : Nat}

theorem setBytes_ok {idx : Nat} {bytes : BitVec 128}
    (free : ∀ j, idx ≤ j → j < idx + size → bytes.getLsbD j = false) :
    TransactionInfo.setBytes idx size bytes = .ok (setRange bytes idx size) := by
  induction size with
  | zero => rfl
  | succ size ih =>
      have earlier := ih fun j low high => free j low (by omega)
      have unset : (setRange bytes idx size).getLsbD (idx + size) = false := by
        rw [← Bool.not_eq_true, getLsbD_setRange, free (idx + size) (by omega) (by omega)]
        simp
      unfold TransactionInfo.setBytes at earlier ⊢
      rw [List.range_succ, List.foldlM_append, earlier]
      have unrolled : setRange bytes idx (size + 1) = setBit (setRange bytes idx size) (idx + size) := by
        simp [setRange, List.range_succ]
      refine bind_ok.mpr ⟨_, rfl, ?_⟩
      rw [List.foldlM_cons, unset, unrolled]
      rfl

/-- A thread with an aligned 32-bit address in the segment `k`. -/
structure Fits (segment size k : Nat) (p : Nat × Nat) : Prop where
  lane : p.1 < 32
  word : p.2 < 2 ^ 32
  aligned : size ∣ p.2
  block : lineSizeBasedTagFunc p.2 segment = k

/-- Aligned accesses of one size to a segment are the same or have no byte in common. -/
theorem Fits.same {p q : Nat × Nat} {j : Nat} (sized : SegmentSize segment)
    (power : size = 1 ∨ size = 2 ∨ size = 4 ∨ size = 8 ∨ size = 16) (one : Fits segment size k p)
    (two : Fits segment size k q) (first : p.2 % 128 ≤ j ∧ j < p.2 % 128 + size)
    (second : q.2 % 128 ≤ j ∧ j < q.2 % 128 + size) : p.2 = q.2 := by
  have in_p := one.block
  have in_q := two.block
  have word_p := one.word
  have word_q := two.word
  obtain ⟨m, at_p⟩ := one.aligned
  obtain ⟨n, at_q⟩ := two.aligned
  rw [lineSizeBasedTagFunc_eq sized] at in_p in_q
  rcases sized with rfl | rfl | rfl <;> rcases power with rfl | rfl | rfl | rfl | rfl <;> omega

theorem testBytes_iff {layer : List (Nat × Nat)} {info : TransactionInfo} (sized : SegmentSize segment)
    (power : size = 1 ∨ size = 2 ∨ size = 4 ∨ size = 8 ∨ size = 16) (noted : Noted size layer info)
    (fits : Fits segment size k (t, addr)) (all : ∀ p ∈ layer, Fits segment size k p) :
    info.testBytes (addr % 128) (addr % 128 + size - 1) = true ↔ addr ∈ layer.map Prod.snd := by
  have positive : 0 < size := by omega
  simp only [TransactionInfo.testBytes, List.any_eq_true, List.mem_range'_1, noted.byte, List.mem_map]
  constructor
  · rintro ⟨j, ⟨low, high⟩, p, member, first, last, -⟩
    exact ⟨p, member, (all p member).same sized power fits ⟨first, last⟩ ⟨low, by omega⟩⟩
  · rintro ⟨p, member, rfl⟩
    exact ⟨p.2 % 128, ⟨by omega, by omega⟩, p, member, by omega, by omega, by omega⟩

theorem recordAtomic_ok {layer : List (Nat × Nat)} {info : TransactionInfo} (sized : SegmentSize segment)
    (power : size = 1 ∨ size = 2 ∨ size = 4 ∨ size = 8 ∨ size = 16) (noted : Noted size layer info)
    (fits : Fits segment size k (t, addr)) (all : ∀ p ∈ layer, Fits segment size k p)
    (apart : addr ∉ layer.map Prod.snd) :
    ∃ after, info.recordAtomic t addr size = .ok after ∧ Noted size (layer ++ [(t, addr)]) after := by
  refine ⟨info.record t addr size, ?_, noted.record fits.lane⟩
  have free : ∀ j, addr % 128 ≤ j → j < addr % 128 + size → info.bytes.getLsbD j = false := by
    intro j low high
    rw [← Bool.not_eq_true, noted.byte]
    rintro ⟨p, member, first, last, -⟩
    exact apart (List.mem_map.mpr ⟨p, member, (all p member).same sized power fits ⟨first, last⟩ ⟨low, high⟩⟩)
  rw [TransactionInfo.recordAtomic, setBytes_ok free]
  rfl

/-- The transactions of a segment follow the layers of a first fit by address. -/
theorem placeAtomic_ok {layers : List (List (Nat × Nat))} {infos : List TransactionInfo} (sized : SegmentSize segment)
    (power : size = 1 ∨ size = 2 ∨ size = 4 ∨ size = 8 ∨ size = 16) (fits : Fits segment size k (t, addr))
    (all : ∀ layer ∈ layers, ∀ p ∈ layer, Fits segment size k p) (noted : List.Forall₂ (Noted size) layers infos) :
    ∃ placed, placeAtomic t addr size infos = .ok placed ∧
      List.Forall₂ (Noted size) (placeFirst Prod.snd (t, addr) layers) placed := by
  induction noted with
  | nil =>
      obtain ⟨after, recorded, done⟩ := recordAtomic_ok sized power .empty fits (by simp) (by simp)
      exact ⟨[after], map_ok.mpr ⟨after, recorded, rfl⟩, .cons done .nil⟩
  | @cons layer info layers infos one rest ih =>
      have here := all layer List.mem_cons_self
      have decides := testBytes_iff sized power one fits here
      simp only [placeAtomic, placeFirst]
      by_cases taken : addr ∈ layer.map Prod.snd
      · obtain ⟨placed, done, later⟩ := ih fun other member => all other (List.mem_cons_of_mem _ member)
        rw [if_pos taken, if_pos (decides.mpr taken)]
        exact ⟨info :: placed, map_ok.mpr ⟨placed, done, rfl⟩, .cons one later⟩
      · obtain ⟨after, recorded, done⟩ := recordAtomic_ok sized power one fits here taken
        rw [if_neg taken, if_neg (fun tested => taken (decides.mp tested))]
        exact ⟨after :: infos, map_ok.mpr ⟨after, recorded, rfl⟩, .cons done rest⟩

/-- The transactions of each segment note the accesses `seen` to it, layer by layer. -/
structure AtomicNotes (segment size : Nat) (seen : List (Nat × Nat)) (txns : AtomicTransactions) : Prop where
  present : ∀ k, txns[k]? ≠ none ↔ within segment seen k ≠ []
  noted : ∀ k, List.Forall₂ (Noted size) (firstFit Prod.snd (within segment seen k)) (txns[k]?.getD [])

theorem AtomicNotes.empty : AtomicNotes segment size [] ∅ := by
  constructor
  · simp [within]
  · intro k
    simp [within, firstFit]

theorem AtomicNotes.thread {inst : WarpInst} {seen : List (Nat × Nat)} {txns : AtomicTransactions}
    (sized : SegmentSize segment)
    (power : inst.dataSize = 1 ∨ inst.dataSize = 2 ∨ inst.dataSize = 4 ∨ inst.dataSize = 8 ∨ inst.dataSize = 16)
    (notes : AtomicNotes segment inst.dataSize seen txns) (all : ∀ p ∈ seen ++ [(t, inst.memreqaddr t 0)],
      Fits segment inst.dataSize (lineSizeBasedTagFunc p.2 segment) p) :
    ∃ after, inst.atomicThread segment txns t = .ok after ∧
      AtomicNotes segment inst.dataSize (seen ++ [(t, inst.memreqaddr t 0)]) after := by
  have fits := all (t, inst.memreqaddr t 0) (by simp)
  have inside : ¬ lineSizeBasedTagFunc (inst.memreqaddr t 0) segment ≠
      lineSizeBasedTagFunc ((inst.memreqaddr t 0 + inst.dataSize - 1) % 2 ^ 64) segment :=
    not_not.mpr (tag_end sized power fits.aligned)
  obtain ⟨placed, done, layers⟩ := placeAtomic_ok sized power fits
    (fun layer member p within_layer => by
      have seen_here := (perm_firstFit _).mem_iff.mp (List.mem_flatten.mpr ⟨layer, member, within_layer⟩)
      obtain ⟨early, block⟩ := mem_within.mp seen_here
      exact { all p (List.mem_append_left _ early) with block })
    (notes.noted (lineSizeBasedTagFunc (inst.memreqaddr t 0) segment))
  refine ⟨txns.insert (lineSizeBasedTagFunc (inst.memreqaddr t 0) segment) placed, ?_, ?_⟩
  · simp only [WarpInst.atomicThread, if_neg inside]
    rw [Std.TreeMap.getD_eq_getD_getElem?, done]
    rfl
  · constructor
    · intro k
      rw [Std.TreeMap.getElem?_insert, within_append_singleton]
      by_cases same : lineSizeBasedTagFunc (inst.memreqaddr t 0) segment = k
      · simp [same]
      · simpa [same] using notes.present k
    · intro k
      rw [Std.TreeMap.getElem?_insert, within_append_singleton]
      by_cases same : lineSizeBasedTagFunc (inst.memreqaddr t 0) segment = k
      · subst same
        simpa [firstFit_append_singleton] using layers
      · simpa [same] using notes.noted k

/-- The accesses of a subwarp, in the order of its threads. -/
def WarpInst.atomicAccesses (subwarpSize : Nat) (inst : WarpInst) (subwarp : Nat) : List (Nat × Nat) :=
  (inst.subwarpThreads subwarpSize subwarp).map fun t => (t, inst.memreqaddr t 0)

theorem atomicTransactions_ok {inst : WarpInst} {subwarpSize subwarp : Nat} (sized : SegmentSize segment)
    (power : inst.dataSize = 1 ∨ inst.dataSize = 2 ∨ inst.dataSize = 4 ∨ inst.dataSize = 8 ∨ inst.dataSize = 16)
    (all : ∀ p ∈ inst.atomicAccesses subwarpSize subwarp,
      Fits segment inst.dataSize (lineSizeBasedTagFunc p.2 segment) p) :
    ∃ txns, inst.atomicTransactions segment subwarpSize subwarp = .ok txns ∧
      AtomicNotes segment inst.dataSize (inst.atomicAccesses subwarpSize subwarp) txns := by
  unfold WarpInst.atomicTransactions
  unfold WarpInst.atomicAccesses at all ⊢
  generalize inst.subwarpThreads subwarpSize subwarp = threads at all ⊢
  induction threads using List.reverseRecOn with
  | nil => exact ⟨∅, rfl, .empty⟩
  | append_singleton threads t ih =>
      rw [List.map_append] at all ⊢
      obtain ⟨txns, done, notes⟩ := ih fun p member => all p (List.mem_append_left _ member)
      obtain ⟨after, last, kept⟩ := notes.thread sized power all
      refine ⟨after, ?_, kept⟩
      rw [List.foldlM_append, done]
      refine bind_ok.mpr ⟨txns, rfl, ?_⟩
      rw [List.foldlM_cons, last]
      rfl

/-! ## What is sent -/

/-- A segment is sent as one access for each layer. -/
def BlockSent (segment size : Nat) (seen : List (Nat × Nat)) (k : Nat) (sent : List MemAccess) : Prop :=
  List.Forall₂ (fun layer access => ∃ info, Noted size layer info ∧ Sent info k segment access)
    (firstFit Prod.snd (within segment seen k)) sent

/-- The accesses of a subwarp, segment by segment. -/
def SubwarpSent (segment size : Nat) (seen : List (Nat × Nat)) (blocks : List (List MemAccess)) : Prop :=
  ∃ keys : List Nat, keys.Nodup ∧ (∀ k, k ∈ keys ↔ within segment seen k ≠ []) ∧
    List.Forall₂ (BlockSent segment size seen) keys blocks

theorem sendBlock_ok (isWrite : Bool) (accessType : MemAccessType) {seen : List (Nat × Nat)}
    {infos : List TransactionInfo} (sized : SegmentSize segment)
    (noted : List.Forall₂ (Noted size) (firstFit Prod.snd (within segment seen k)) infos) :
    ∃ sent, (infos.mapM fun info => memoryCoalescingArchReduceAndSend isWrite accessType info k segment) = .ok sent ∧
      BlockSent segment size seen k sent := by
  apply mapM_along noted
  intro layer info member one
  have inside : ∀ p ∈ layer, lineSizeBasedTagFunc p.2 segment = k := fun p here =>
    (mem_within.mp ((perm_firstFit _).mem_iff.mp (List.mem_flatten.mpr ⟨layer, member, here⟩))).2
  obtain ⟨p, first⟩ := List.exists_mem_of_ne_nil layer ((firstFit_layered _).inhabited layer member)
  have arith := tag_arith sized (inside p first)
  obtain ⟨access, reduced, sent⟩ := reduceAndSend_ok isWrite accessType sized arith.1
    ⟨_, (one.chunk _).mpr ⟨p, first, rfl⟩⟩ (by
      intro c chunk
      obtain ⟨q, here, rfl⟩ := (one.chunk c).mp chunk
      have place := tag_arith sized (inside q here)
      exact ⟨place.2.2.1, place.2.2.2.1⟩)
  exact ⟨access, reduced, info, one, sent⟩

theorem sendSubwarp_ok (isWrite : Bool) (accessType : MemAccessType) {seen : List (Nat × Nat)}
    {txns : AtomicTransactions} (sized : SegmentSize segment) (notes : AtomicNotes segment size seen txns) :
    ∃ blocks, txns.send isWrite accessType segment = .ok blocks ∧ SubwarpSent segment size seen blocks := by
  have each : ∀ p ∈ txns.toList, ∃ sent,
      (p.2.mapM fun info => memoryCoalescingArchReduceAndSend isWrite accessType info p.1 segment) = .ok sent ∧
        BlockSent segment size seen p.1 sent := by
    rintro ⟨k, infos⟩ member
    have noted := notes.noted k
    rw [Std.TreeMap.mem_toList_iff_getElem?_eq_some.mp member] at noted
    exact sendBlock_ok isWrite accessType sized noted
  obtain ⟨blocks, done, all⟩ := mapM_forall₂ each
  refine ⟨blocks, done, txns.keys, Std.TreeMap.nodup_keys, ?_, ?_⟩
  · intro k
    rw [Std.TreeMap.mem_keys, ← notes.present, Std.TreeMap.mem_iff_isSome_getElem?, Option.isSome_iff_ne_none]
  · rw [← Std.TreeMap.map_fst_toList_eq_keys]
    exact List.forall₂_map_left_iff.mpr all

end

end GpgpuSim.Simt
