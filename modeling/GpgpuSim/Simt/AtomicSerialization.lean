import GpgpuSim.Containers.Holdings
import GpgpuSim.Simt.AtomicCoalescing
import Mathlib.Data.List.Dedup
import Mathlib.Order.Bounds.Basic

/-! Atomics are serialised exactly: every active thread is in one access, no two threads of an access touch
a common byte, and no subwarp sends more accesses for a segment than that takes. -/
namespace GpgpuSim.Simt
open GpgpuSim.Memory Transition Containers Holdings

/-- What the issue of an atomic guarantees, and a configuration that has parts to divide a warp into. -/
structure SupportedAtomic (cfg : CoreConfig) (inst : WarpInst) : Prop where
  warpSize : cfg.warpSize ≤ 32
  parts : 0 < cfg.memWarpParts
  space : inst.space = .globalSpace
  dataSize : inst.dataSize = 1 ∨ inst.dataSize = 2 ∨ inst.dataSize = 4 ∨ inst.dataSize = 8 ∨
    inst.dataSize = 16
  addrs : ∀ t < cfg.warpSize, inst.active t = true →
    inst.memreqaddr t 0 < 2 ^ 32 ∧ inst.dataSize ∣ inst.memreqaddr t 0

/-- The byte is one of those that thread `t` changes. -/
def WarpInst.Changes (inst : WarpInst) (t byte : Nat) : Prop :=
  inst.memreqaddr t 0 ≤ byte ∧ byte < inst.memreqaddr t 0 + inst.dataSize

instance (inst : WarpInst) (t byte : Nat) : Decidable (inst.Changes t byte) := inferInstanceAs (Decidable (_ ∧ _))

/-- The active threads of a subwarp. -/
def threadsOf (cfg : CoreConfig) (inst : WarpInst) (subwarp : Nat) : List Nat :=
  inst.subwarpThreads (cfg.warpSize / cfg.memWarpParts) subwarp

/-- How many threads of the subwarp touch the byte. -/
def touching (cfg : CoreConfig) (inst : WarpInst) (subwarp byte : Nat) : Nat :=
  (threadsOf cfg inst subwarp).countP fun t => decide (inst.Changes t byte)

/-- The threads of the subwarp whose address is in the segment `k`. -/
def threadsIn (cfg : CoreConfig) (inst : WarpInst) (subwarp k : Nat) : List Nat :=
  (threadsOf cfg inst subwarp).filter fun t =>
    lineSizeBasedTagFunc (inst.memreqaddr t 0) (inst.segmentSize cfg) == k

/-- The access is in the segment `k` and names a thread of the subwarp. -/
def MemAccess.isOf (cfg : CoreConfig) (inst : WarpInst) (subwarp k : Nat) (access : MemAccess) : Bool :=
  lineSizeBasedTagFunc access.addr (inst.segmentSize cfg) == k &&
    (threadsOf cfg inst subwarp).any access.warpMask.getLsbD

/-- Each active thread is in one access, which covers its bytes; the threads of an access have no byte in
common. A subwarp has as many accesses to a segment as threads that touch one byte of it, and no other
grouping without conflicts has fewer. -/
structure Serializes (cfg : CoreConfig) (inst : WarpInst) (accesses : List MemAccess) : Prop where
  once : ∀ t < cfg.warpSize, inst.active t = true →
    accesses.countP (fun access => access.warpMask.getLsbD t) = 1
  named : ∀ access ∈ accesses, ∀ t, access.warpMask.getLsbD t = true → t < cfg.warpSize ∧ inst.active t = true
  covers : ∀ access ∈ accesses, ∀ t byte, access.warpMask.getLsbD t = true → inst.Changes t byte →
    access.Contains byte ∧ access.byteMask.getLsbD (byte % 128) = true ∧
      access.sectorMask.getLsbD (byte % 128 / 32) = true
  apart : ∀ access ∈ accesses, ∀ t u byte, access.warpMask.getLsbD t = true → access.warpMask.getLsbD u = true →
    inst.Changes t byte → inst.Changes u byte → t = u
  fewest : ∀ subwarp < cfg.memWarpParts, ∀ k < 2 ^ 32, inst.segmentSize cfg ∣ k →
    IsGreatest {n | ∃ byte, k ≤ byte ∧ byte < k + inst.segmentSize cfg ∧ n = touching cfg inst subwarp byte}
      (accesses.countP (MemAccess.isOf cfg inst subwarp k))
  minimal : ∀ subwarp < cfg.memWarpParts, ∀ k < 2 ^ 32, inst.segmentSize cfg ∣ k → ∀ group : Nat → Nat,
    (∀ t ∈ threadsIn cfg inst subwarp k, ∀ u ∈ threadsIn cfg inst subwarp k, group t = group u →
      ∀ byte, inst.Changes t byte → inst.Changes u byte → t = u) →
    accesses.countP (MemAccess.isOf cfg inst subwarp k) ≤ ((threadsIn cfg inst subwarp k).map group).dedup.length

variable {cfg : CoreConfig} {inst : WarpInst} {k t byte subwarp : Nat}

/-! ## Threads and subwarps -/

theorem mem_threadsOf :
    t ∈ threadsOf cfg inst subwarp ↔
      (∃ i < cfg.warpSize / cfg.memWarpParts, t = subwarp * (cfg.warpSize / cfg.memWarpParts) + i) ∧
        inst.active t = true := by
  simp only [threadsOf, WarpInst.subwarpThreads, List.mem_filter, List.mem_map, List.mem_range, eq_comm]

theorem nodup_threadsOf : (threadsOf cfg inst subwarp).Nodup := by
  refine List.Nodup.filter _ (List.Nodup.map (fun i j same => ?_) List.nodup_range)
  exact Nat.add_left_cancel same

/-- A thread is in one subwarp only. -/
theorem subwarp_unique {other : Nat} (one : t ∈ threadsOf cfg inst subwarp) (two : t ∈ threadsOf cfg inst other) :
    other = subwarp := by
  obtain ⟨⟨i, small, at_one⟩, -⟩ := mem_threadsOf.mp one
  obtain ⟨⟨j, below, at_two⟩, -⟩ := mem_threadsOf.mp two
  have first : t / (cfg.warpSize / cfg.memWarpParts) = subwarp := by
    rw [at_one, Nat.mul_comm, Nat.mul_add_div (by omega), Nat.div_eq_of_lt small, Nat.add_zero]
  have second : t / (cfg.warpSize / cfg.memWarpParts) = other := by
    rw [at_two, Nat.mul_comm, Nat.mul_add_div (by omega), Nat.div_eq_of_lt below, Nat.add_zero]
  exact second.symm.trans first

/-- The active threads that a subwarp has are those below the last full part. -/
theorem exists_subwarp_iff (active : inst.active t = true) :
    (∃ subwarp < cfg.memWarpParts, t ∈ threadsOf cfg inst subwarp) ↔
      t < cfg.memWarpParts * (cfg.warpSize / cfg.memWarpParts) := by
  constructor
  · rintro ⟨subwarp, inside, member⟩
    obtain ⟨⟨i, small, rfl⟩, -⟩ := mem_threadsOf.mp member
    exact lane_lt inside small
  · intro below
    have some_thread : 0 < cfg.warpSize / cfg.memWarpParts := by
      by_contra none_left
      simp [Nat.eq_zero_of_not_pos none_left] at below
    refine ⟨t / (cfg.warpSize / cfg.memWarpParts), Nat.div_lt_of_lt_mul (by rwa [Nat.mul_comm]), ?_⟩
    exact mem_threadsOf.mpr ⟨⟨_, Nat.mod_lt t some_thread, (Nat.div_add_mod' t _).symm⟩, active⟩

/-- The accesses of a subwarp, as pairs of a thread and its address. -/
def accessesOf (cfg : CoreConfig) (inst : WarpInst) (subwarp : Nat) : List (Nat × Nat) :=
  inst.atomicAccesses (cfg.warpSize / cfg.memWarpParts) subwarp

theorem mem_accessesOf {p : Nat × Nat} :
    p ∈ accessesOf cfg inst subwarp ↔ p.1 ∈ threadsOf cfg inst subwarp ∧ p.2 = inst.memreqaddr p.1 0 := by
  simp only [accessesOf, WarpInst.atomicAccesses, List.mem_map, threadsOf]
  constructor
  · rintro ⟨t, member, rfl⟩
    exact ⟨member, rfl⟩
  · rintro ⟨member, addr⟩
    exact ⟨p.1, member, Prod.ext rfl addr.symm⟩

theorem nodup_accessesOf : ((accessesOf cfg inst subwarp).map Prod.fst).Nodup := by
  have threads : (accessesOf cfg inst subwarp).map Prod.fst = threadsOf cfg inst subwarp := by
    simp [accessesOf, WarpInst.atomicAccesses, threadsOf, Function.comp_def]
  rw [threads]
  exact nodup_threadsOf

theorem SupportedAtomic.fits (supported : SupportedAtomic cfg inst) (inside : subwarp < cfg.memWarpParts)
    {p : Nat × Nat} (member : p ∈ accessesOf cfg inst subwarp) :
    Fits (inst.segmentSize cfg) inst.dataSize (lineSizeBasedTagFunc p.2 (inst.segmentSize cfg)) p := by
  obtain ⟨thread, addr⟩ := mem_accessesOf.mp member
  have active := (mem_threadsOf.mp thread).2
  have lane := Nat.lt_of_lt_of_le ((exists_subwarp_iff active).mp ⟨subwarp, inside, thread⟩) (Nat.mul_div_le _ _)
  obtain ⟨word, aligned⟩ := supported.addrs p.1 lane active
  rw [← addr] at word aligned
  exact ⟨lane.trans_le supported.warpSize, word, aligned, rfl⟩

/-! ## One segment of a subwarp -/

/-- The layers of the accesses to the segment `k`. -/
def layersOf (cfg : CoreConfig) (inst : WarpInst) (subwarp k : Nat) : List (List (Nat × Nat)) :=
  firstFit Prod.snd (within (inst.segmentSize cfg) (accessesOf cfg inst subwarp) k)

/-- The accesses of a layer are noted in the transaction that is sent. -/
def LayerSent (cfg : CoreConfig) (inst : WarpInst) (subwarp k : Nat) (layer : List (Nat × Nat)) (access : MemAccess) :
    Prop :=
  layer ∈ layersOf cfg inst subwarp k ∧
    ∃ info, Noted inst.dataSize layer info ∧ Sent info k (inst.segmentSize cfg) access

variable {layer : List (Nat × Nat)} {access : MemAccess} {other l : Nat} {sent : List MemAccess}

theorem mem_layersOf {p : Nat × Nat} (member : layer ∈ layersOf cfg inst subwarp k)
    (here : p ∈ layer) : p ∈ accessesOf cfg inst subwarp ∧ lineSizeBasedTagFunc p.2 (inst.segmentSize cfg) = k :=
  mem_within.mp ((perm_firstFit _).mem_iff.mp (List.mem_flatten.mpr ⟨layer, member, here⟩))

theorem LayerSent.named_iff (sent : LayerSent cfg inst subwarp k layer access) :
    access.warpMask.getLsbD t = true ↔ t ∈ layer.map Prod.fst := by
  obtain ⟨-, info, noted, sent⟩ := sent
  rw [sent.warpMask, noted.active]
  simp [eq_comm]

/-- An access names only threads of its subwarp with an address in its segment. -/
theorem LayerSent.thread (sent : LayerSent cfg inst subwarp k layer access)
    (named : access.warpMask.getLsbD t = true) :
    (t, inst.memreqaddr t 0) ∈ layer ∧ t ∈ threadsOf cfg inst subwarp ∧
      lineSizeBasedTagFunc (inst.memreqaddr t 0) (inst.segmentSize cfg) = k := by
  obtain ⟨p, here, rfl⟩ := List.mem_map.mp (sent.named_iff.mp named)
  obtain ⟨within_subwarp, block⟩ := mem_layersOf sent.1 here
  obtain ⟨thread, addr⟩ := mem_accessesOf.mp within_subwarp
  rw [← addr]
  exact ⟨here, thread, block⟩

theorem tag_of_inside {segment addr : Nat} (sized : SegmentSize segment) (aligned : segment ∣ k)
    (word : k + segment ≤ 2 ^ 32)
    (low : k ≤ addr) (high : addr < k + segment) : lineSizeBasedTagFunc addr segment = k := by
  rw [lineSizeBasedTagFunc_eq sized]
  obtain ⟨n, rfl⟩ := aligned
  rcases sized with rfl | rfl | rfl <;> omega

theorem LayerSent.isOf_iff (sized : SegmentSize (inst.segmentSize cfg))
    (sent : LayerSent cfg inst subwarp k layer access) :
    access.isOf cfg inst other l = true ↔ other = subwarp ∧ l = k := by
  obtain ⟨p, first⟩ := List.exists_mem_of_ne_nil layer ((firstFit_layered _).inhabited layer sent.1)
  have named : access.warpMask.getLsbD p.1 = true := sent.named_iff.mpr (List.mem_map_of_mem first)
  obtain ⟨-, thread, block⟩ := sent.thread named
  have place : lineSizeBasedTagFunc access.addr (inst.segmentSize cfg) = k := by
    obtain ⟨-, info, noted, sent⟩ := sent
    have some_chunk := sent.holds _ ((noted.chunk _).mpr ⟨p, first, rfl⟩)
    exact tag_of_inside sized (tag_arith sized block).1 (tag_arith sized block).2.1 sent.inside.1
      (by have := sent.inside.2; unfold HoldsChunk at some_chunk; omega)
  simp only [MemAccess.isOf, place, Bool.and_eq_true, beq_iff_eq, List.any_eq_true]
  constructor
  · rintro ⟨rfl, v, of_other, named_v⟩
    exact ⟨subwarp_unique (sent.thread named_v).2.1 of_other, rfl⟩
  · rintro ⟨rfl, rfl⟩
    exact ⟨rfl, p.1, thread, named⟩

/-- In its segment a thread is in one access, and in no other segment. -/
theorem countP_named (all : List.Forall₂ (LayerSent cfg inst subwarp k) (layersOf cfg inst subwarp k) sent) :
    sent.countP (fun access => access.warpMask.getLsbD t) = if t ∈ threadsIn cfg inst subwarp k then 1 else 0 := by
  have counted : sent.countP (fun access => access.warpMask.getLsbD t) =
      (layersOf cfg inst subwarp k).countP fun layer => decide (t ∈ layer.map Prod.fst) := by
    apply countP_related all
    intro layer access related
    rw [Bool.eq_iff_iff, decide_eq_true_eq]
    exact related.named_iff.symm
  have share : ((layersOf cfg inst subwarp k).flatMap (List.map Prod.fst)).Perm
      ((within (inst.segmentSize cfg) (accessesOf cfg inst subwarp) k).map Prod.fst) := by
    rw [List.flatMap_def, ← List.map_flatten]
    exact (perm_firstFit _).map Prod.fst
  have apart : ((layersOf cfg inst subwarp k).flatMap (List.map Prod.fst)).Nodup :=
    share.nodup_iff.mpr (nodup_accessesOf.sublist (List.filter_sublist.map Prod.fst))
  have held : t ∈ (layersOf cfg inst subwarp k).flatMap (List.map Prod.fst) ↔ t ∈ threadsIn cfg inst subwarp k := by
    rw [share.mem_iff, List.mem_map, threadsIn, List.mem_filter, beq_iff_eq]
    constructor
    · rintro ⟨p, member, rfl⟩
      obtain ⟨within_subwarp, block⟩ := mem_within.mp member
      obtain ⟨thread, addr⟩ := mem_accessesOf.mp within_subwarp
      exact ⟨thread, addr ▸ block⟩
    · rintro ⟨thread, block⟩
      exact ⟨(t, inst.memreqaddr t 0), mem_within.mpr ⟨mem_accessesOf.mpr ⟨thread, rfl⟩, block⟩, rfl⟩
  rw [counted]
  split_ifs with here
  · exact countP_holders apart (held.mpr here)
  · refine List.countP_eq_zero.mpr fun layer member named => here (held.mp ?_)
    exact List.mem_flatMap.mpr ⟨layer, member, of_decide_eq_true named⟩

/-- The accesses of a segment of a subwarp are those of its layers. -/
theorem countP_isOf (sized : SegmentSize (inst.segmentSize cfg))
    (all : List.Forall₂ (LayerSent cfg inst subwarp k) (layersOf cfg inst subwarp k) sent) :
    sent.countP (MemAccess.isOf cfg inst other l) =
      if other = subwarp ∧ l = k then (layersOf cfg inst subwarp k).length else 0 := by
  have counted : sent.countP (MemAccess.isOf cfg inst other l) =
      (layersOf cfg inst subwarp k).countP fun _ => decide (other = subwarp ∧ l = k) := by
    apply countP_related all
    intro layer access related
    rw [Bool.eq_iff_iff, decide_eq_true_eq]
    exact (related.isOf_iff sized).symm
  rw [counted]
  split_ifs with same
  · simp [same]
  · simp [same]

/-! ## The accesses of a warp -/

/-- What the subwarps send. -/
structure WarpSent (cfg : CoreConfig) (inst : WarpInst) (accesses : List MemAccess) : Prop where
  exists_layer : ∀ access ∈ accesses, ∃ subwarp < cfg.memWarpParts, ∃ k layer, LayerSent cfg inst subwarp k layer access
  named : ∀ subwarp < cfg.memWarpParts, ∀ t ∈ threadsOf cfg inst subwarp,
    accesses.countP (fun access => access.warpMask.getLsbD t) = 1
  sent : ∀ subwarp < cfg.memWarpParts, ∀ k,
    accesses.countP (MemAccess.isOf cfg inst subwarp k) = (layersOf cfg inst subwarp k).length

/-- The blocks of a subwarp, each of one segment. -/
def PartSent (cfg : CoreConfig) (inst : WarpInst) (subwarp : Nat) (sent : List MemAccess) : Prop :=
  ∃ blocks keys, sent = List.flatten blocks ∧ List.Nodup keys ∧ (∀ k, k ∉ keys → layersOf cfg inst subwarp k = []) ∧
    List.Forall₂ (fun k block => List.Forall₂ (LayerSent cfg inst subwarp k) (layersOf cfg inst subwarp k) block)
      keys blocks

theorem PartSent.countP_isOf (sized : SegmentSize (inst.segmentSize cfg)) (part : PartSent cfg inst subwarp sent) :
    sent.countP (MemAccess.isOf cfg inst other l) =
      if other = subwarp then (layersOf cfg inst subwarp l).length else 0 := by
  obtain ⟨blocks, keys, rfl, once, absent, all⟩ := part
  rw [countP_blocks (i := l) (n := if other = subwarp then (layersOf cfg inst subwarp l).length else 0) all once]
  · split_ifs with within_keys same
    · rfl
    · rfl
    · rw [absent l within_keys, List.length_nil]
    · rfl
  · intro block related
    rw [Simt.countP_isOf sized related]
    simp
  · intro k _ different block related
    rw [Simt.countP_isOf sized related, if_neg fun both => different both.2.symm]

theorem PartSent.countP_named (part : PartSent cfg inst subwarp sent) :
    sent.countP (fun access => access.warpMask.getLsbD t) = if t ∈ threadsOf cfg inst subwarp then 1 else 0 := by
  obtain ⟨blocks, keys, rfl, once, absent, all⟩ := part
  have in_block : ∀ k, t ∈ threadsIn cfg inst subwarp k ↔ t ∈ threadsOf cfg inst subwarp ∧
      lineSizeBasedTagFunc (inst.memreqaddr t 0) (inst.segmentSize cfg) = k := by
    simp [threadsIn]
  rw [countP_blocks (i := lineSizeBasedTagFunc (inst.memreqaddr t 0) (inst.segmentSize cfg))
    (n := if t ∈ threadsOf cfg inst subwarp then 1 else 0) all once]
  · by_cases within_keys : lineSizeBasedTagFunc (inst.memreqaddr t 0) (inst.segmentSize cfg) ∈ keys
    · rw [if_pos within_keys]
    · -- a segment without layers has no threads
      rw [if_neg within_keys]
      have empty := @Simt.countP_named cfg inst _ t subwarp [] (by rw [absent _ within_keys]; exact .nil)
      simpa only [in_block, and_true, List.countP_nil] using empty
  · intro block related
    rw [Simt.countP_named related]
    simp [in_block]
  · intro k _ different block related
    rw [Simt.countP_named related, if_neg fun here => different ((in_block k).mp here).2.symm]

theorem PartSent.exists_layer (part : PartSent cfg inst subwarp sent) (member : access ∈ sent) :
    ∃ k layer, LayerSent cfg inst subwarp k layer access := by
  obtain ⟨blocks, keys, rfl, -, -, all⟩ := part
  obtain ⟨block, inside, here⟩ := List.mem_flatten.mp member
  obtain ⟨k, -, related⟩ := exists_related all block inside
  obtain ⟨layer, -, of_layer⟩ := exists_related related access here
  exact ⟨k, layer, of_layer⟩

/-- What the subwarps send one after the other. -/
theorem warpSent_of_parts {parts : List (List MemAccess)} (sized : SegmentSize (inst.segmentSize cfg))
    (all : List.Forall₂ (PartSent cfg inst) (List.range cfg.memWarpParts) parts) : WarpSent cfg inst parts.flatten := by
  constructor
  · intro access member
    obtain ⟨part, inside, here⟩ := List.mem_flatten.mp member
    obtain ⟨subwarp, below, related⟩ := exists_related all part inside
    exact ⟨subwarp, List.mem_range.mp below, related.exists_layer here⟩
  · intro subwarp inside t thread
    rw [countP_blocks (i := subwarp) (n := 1) all List.nodup_range, if_pos (List.mem_range.mpr inside)]
    · intro part related
      rw [related.countP_named, if_pos thread]
    · intro other _ different part related
      rw [related.countP_named, if_neg fun also => different (subwarp_unique thread also)]
  · intro subwarp inside k
    rw [countP_blocks (i := subwarp) (n := (layersOf cfg inst subwarp k).length) all List.nodup_range,
      if_pos (List.mem_range.mpr inside)]
    · intro part related
      rw [related.countP_isOf sized, if_pos rfl]
    · intro other _ different part related
      rw [related.countP_isOf sized, if_neg (Ne.symm different)]

theorem memoryCoalescingArchAtomic_ok (supported : SupportedAtomic cfg inst) (isWrite : Bool)
    (accessType : MemAccessType) :
    ∃ accesses, memoryCoalescingArchAtomic cfg inst isWrite accessType = .ok accesses ∧ WarpSent cfg inst accesses := by
  have sized := segmentSize_sized cfg supported.dataSize
  have each : ∀ subwarp ∈ List.range cfg.memWarpParts, ∃ blocks,
      (inst.atomicTransactions (inst.segmentSize cfg) (cfg.warpSize / cfg.memWarpParts) subwarp >>= fun txns =>
          txns.send isWrite accessType (inst.segmentSize cfg)) = .ok blocks ∧
        PartSent cfg inst subwarp blocks.flatten := by
    intro subwarp inside
    obtain ⟨txns, noted, notes⟩ := atomicTransactions_ok sized supported.dataSize
      fun p member => supported.fits (List.mem_range.mp inside) member
    obtain ⟨blocks, done, keys, once, present, all⟩ := sendSubwarp_ok isWrite accessType sized notes
    refine ⟨blocks, bind_ok.mpr ⟨txns, noted, done⟩, blocks, keys, rfl, once, ?_, ?_⟩
    · intro k absent
      have none_here : within (inst.segmentSize cfg) (accessesOf cfg inst subwarp) k = [] :=
        not_not.mp fun some_here => absent ((present k).mpr some_here)
      rw [layersOf, none_here]
      rfl
    · apply all.imp
      intro k block related
      exact (List.forall₂_and_left _ _).mpr ⟨fun _ member => member, related⟩
  obtain ⟨sent, done, all⟩ := mapM_forall₂ each
  have space : ¬ inst.space ≠ .globalSpace := not_not.mpr supported.space
  refine ⟨sent.flatten.flatten, ?_, ?_⟩
  · rw [memoryCoalescingArchAtomic, if_neg space]
    exact bind_ok.mpr ⟨sent, done, rfl⟩
  · rw [List.flatten_flatten]
    exact warpSent_of_parts sized (List.forall₂_map_right_iff.mpr all)

/-! ## How many accesses a segment takes -/

theorem start_eq {size addr : Nat} (aligned : size ∣ addr) (low : addr ≤ byte) (high : byte < addr + size) :
    addr = byte / size * size := by
  obtain ⟨m, rfl⟩ := aligned
  have quotient : byte / size = m := Nat.div_eq_of_lt_le (by rwa [Nat.mul_comm]) (by rwa [Nat.succ_mul, Nat.mul_comm m])
  rw [quotient, Nat.mul_comm]

/-- In a segment the aligned access that touches a byte is the one at the byte rounded down. -/
theorem changes_iff {segment size addr : Nat} (sized : SegmentSize segment)
    (power : size = 1 ∨ size = 2 ∨ size = 4 ∨ size = 8 ∨ size = 16) (aligned : size ∣ addr) (word : addr < 2 ^ 32)
    (block : segment ∣ k) (low : k ≤ byte) (high : byte < k + segment) :
    addr ≤ byte ∧ byte < addr + size ↔ addr = byte / size * size ∧ lineSizeBasedTagFunc addr segment = k := by
  rw [lineSizeBasedTagFunc_eq sized]
  obtain ⟨m, rfl⟩ := aligned
  obtain ⟨n, rfl⟩ := block
  rcases sized with rfl | rfl | rfl <;> rcases power with rfl | rfl | rfl | rfl | rfl <;> omega

theorem SupportedAtomic.word (supported : SupportedAtomic cfg inst) (inside : subwarp < cfg.memWarpParts)
    (thread : t ∈ threadsOf cfg inst subwarp) :
    inst.memreqaddr t 0 < 2 ^ 32 ∧ inst.dataSize ∣ inst.memreqaddr t 0 := by
  have fits := supported.fits inside (mem_accessesOf.mpr ⟨thread, rfl⟩ : (t, inst.memreqaddr t 0) ∈ _)
  exact ⟨fits.word, fits.aligned⟩

theorem touching_eq (supported : SupportedAtomic cfg inst) (inside : subwarp < cfg.memWarpParts)
    (block : inst.segmentSize cfg ∣ k) (low : k ≤ byte) (high : byte < k + inst.segmentSize cfg) :
    touching cfg inst subwarp byte = ofKey Prod.snd (byte / inst.dataSize * inst.dataSize)
      (within (inst.segmentSize cfg) (accessesOf cfg inst subwarp) k) := by
  have sized := segmentSize_sized cfg supported.dataSize
  have threads : accessesOf cfg inst subwarp =
      (threadsOf cfg inst subwarp).map fun t => (t, inst.memreqaddr t 0) := rfl
  rw [touching, ofKey, within, List.countP_filter, threads, List.countP_map]
  apply List.countP_congr
  intro t thread
  obtain ⟨word, aligned⟩ := supported.word inside thread
  simp only [decide_eq_true_eq, Function.comp_apply, Bool.and_eq_true, beq_iff_eq]
  exact changes_iff sized supported.dataSize aligned word block low high

theorem isGreatest_layers (supported : SupportedAtomic cfg inst) (inside : subwarp < cfg.memWarpParts)
    (block : inst.segmentSize cfg ∣ k) :
    IsGreatest {n | ∃ byte, k ≤ byte ∧ byte < k + inst.segmentSize cfg ∧ n = touching cfg inst subwarp byte}
      (layersOf cfg inst subwarp k).length := by
  have sized := segmentSize_sized cfg supported.dataSize
  have positive : 0 < inst.segmentSize cfg := by
    unfold SegmentSize at sized
    omega
  constructor
  · by_cases some_access : within (inst.segmentSize cfg) (accessesOf cfg inst subwarp) k = []
    · refine ⟨k, Nat.le_refl k, by omega, ?_⟩
      rw [touching_eq supported inside block (Nat.le_refl k) (by omega), layersOf, some_access]
      rfl
    · obtain ⟨p, member, most⟩ := @exists_ofKey_eq_length _ _ _ Prod.snd _ some_access
      obtain ⟨within_subwarp, here⟩ := mem_within.mp member
      have fits := supported.fits inside within_subwarp
      have positive_size : 0 < inst.dataSize := by have := supported.dataSize; omega
      have low : k ≤ p.2 ∧ p.2 < k + inst.segmentSize cfg := by
        have word := fits.word
        rw [lineSizeBasedTagFunc_eq sized] at here
        rcases sized with size | size | size <;> rw [size] at here ⊢ <;> omega
      refine ⟨p.2, low.1, low.2, ?_⟩
      rw [touching_eq supported inside block low.1 low.2, Nat.div_mul_cancel fits.aligned, most]
      rfl
  · rintro n ⟨byte, low, high, rfl⟩
    rw [touching_eq supported inside block low high]
    exact ofKey_le_length _ _

/-- Threads that touch one byte are in different groups, whatever the grouping. -/
theorem touching_le_groups (supported : SupportedAtomic cfg inst) (inside : subwarp < cfg.memWarpParts)
    (block : inst.segmentSize cfg ∣ k) (low : k ≤ byte) (high : byte < k + inst.segmentSize cfg) (group : Nat → Nat)
    (apart : ∀ t ∈ threadsIn cfg inst subwarp k, ∀ u ∈ threadsIn cfg inst subwarp k, group t = group u →
      ∀ byte, inst.Changes t byte → inst.Changes u byte → t = u) :
    touching cfg inst subwarp byte ≤ ((threadsIn cfg inst subwarp k).map group).dedup.length := by
  have sized := segmentSize_sized cfg supported.dataSize
  have here : ∀ t ∈ (threadsOf cfg inst subwarp).filter fun t => decide (inst.Changes t byte),
      t ∈ threadsIn cfg inst subwarp k ∧ inst.Changes t byte := by
    intro t member
    obtain ⟨thread, changes⟩ := List.mem_filter.mp member
    have touches := of_decide_eq_true changes
    obtain ⟨word, aligned⟩ := supported.word inside thread
    have place := (changes_iff sized supported.dataSize aligned word block low high).mp touches
    exact ⟨List.mem_filter.mpr ⟨thread, beq_iff_eq.mpr place.2⟩, touches⟩
  have different : (((threadsOf cfg inst subwarp).filter fun t => decide (inst.Changes t byte)).map group).Nodup := by
    refine List.Nodup.map_on (fun t one u two same => ?_) (nodup_threadsOf.filter _)
    exact apart t (here t one).1 u (here u two).1 same byte (here t one).2 (here u two).2
  have among : ((threadsOf cfg inst subwarp).filter fun t => decide (inst.Changes t byte)).map group ⊆
      ((threadsIn cfg inst subwarp k).map group).dedup := by
    intro g member
    obtain ⟨t, one, rfl⟩ := List.mem_map.mp member
    exact List.mem_dedup.mpr (List.mem_map_of_mem (here t one).1)
  calc touching cfg inst subwarp byte
      = (((threadsOf cfg inst subwarp).filter fun t => decide (inst.Changes t byte)).map group).length := by
        rw [List.length_map, touching, List.countP_eq_length_filter]
    _ ≤ ((threadsIn cfg inst subwarp k).map group).dedup.length := (different.subperm among).length_le

/-! ## Exact serialisation -/

/-- Where every active thread is in a subwarp, what the subwarps send is serialised. -/
theorem WarpSent.serializes {accesses : List MemAccess} (supported : SupportedAtomic cfg inst)
    (sent : WarpSent cfg inst accesses)
    (everyone : ∀ t < cfg.warpSize, inst.active t = true → t < cfg.memWarpParts * (cfg.warpSize / cfg.memWarpParts)) :
    Serializes cfg inst accesses where
  once t lane active := by
    obtain ⟨subwarp, inside, thread⟩ := (exists_subwarp_iff active).mpr (everyone t lane active)
    exact sent.named subwarp inside t thread
  named access member t named := by
    obtain ⟨subwarp, inside, k, layer, of_layer⟩ := sent.exists_layer access member
    obtain ⟨-, thread, -⟩ := of_layer.thread named
    have active := (mem_threadsOf.mp thread).2
    exact ⟨Nat.lt_of_lt_of_le ((exists_subwarp_iff active).mp ⟨subwarp, inside, thread⟩) (Nat.mul_div_le _ _), active⟩
  covers access member t byte named changes := by
    obtain ⟨subwarp, inside, k, layer, of_layer⟩ := sent.exists_layer access member
    obtain ⟨here, thread, rfl⟩ := of_layer.thread named
    obtain ⟨word, aligned⟩ := supported.word inside thread
    obtain ⟨-, info, noted, reduced⟩ := of_layer
    obtain ⟨contains, -, masks⟩ := reduced.covers (segmentSize_sized cfg supported.dataSize) supported.dataSize noted
      here aligned word changes.1 changes.2
    exact ⟨contains, masks⟩
  apart access member t u byte named also changes touches := by
    obtain ⟨subwarp, inside, k, layer, of_layer⟩ := sent.exists_layer access member
    obtain ⟨first, thread, block⟩ := of_layer.thread named
    obtain ⟨second, other, same_block⟩ := of_layer.thread also
    have distinct := (firstFit_layered _).distinct layer of_layer.1
    have same : inst.memreqaddr t 0 = inst.memreqaddr u 0 := by
      have aligned := (supported.word inside thread).2
      have also_aligned := (supported.word inside other).2
      rw [start_eq aligned changes.1 changes.2, start_eq also_aligned touches.1 touches.2]
    exact congrArg Prod.fst (List.inj_on_of_nodup_map distinct first second same)
  fewest subwarp inside k _ block := by
    rw [sent.sent subwarp inside k]
    exact isGreatest_layers supported inside block
  minimal subwarp inside k _ block group apart := by
    obtain ⟨byte, low, high, most⟩ := (isGreatest_layers supported inside block).1
    rw [sent.sent subwarp inside k, most]
    exact touching_le_groups supported inside block low high group apart

/-- The accesses of an atomic serialise it exactly when every active thread is in a subwarp. -/
theorem memoryCoalescingArchAtomic_serializes_iff (cfg : CoreConfig) (inst : WarpInst) (isWrite : Bool)
    (accessType : MemAccessType) (supported : SupportedAtomic cfg inst) :
    ∃ accesses, memoryCoalescingArchAtomic cfg inst isWrite accessType = .ok accesses ∧
      (Serializes cfg inst accesses ↔ ∀ t < cfg.warpSize, inst.active t = true →
        t < cfg.memWarpParts * (cfg.warpSize / cfg.memWarpParts)) := by
  obtain ⟨accesses, done, sent⟩ := memoryCoalescingArchAtomic_ok supported isWrite accessType
  refine ⟨accesses, done, fun serializes t lane active => ?_, sent.serializes supported⟩
  have counted := serializes.once t lane active
  obtain ⟨access, member, named⟩ := List.countP_pos_iff.mp (by rw [counted]; exact Nat.one_pos)
  obtain ⟨subwarp, inside, k, layer, of_layer⟩ := sent.exists_layer access member
  exact (exists_subwarp_iff active).mp ⟨subwarp, inside, (of_layer.thread named).2.1⟩

/-- The threads of `mask` change the word at `addr`. -/
def sameWord (mask : BitVec 32) (addr : Nat) : WarpInst where
  space := .globalSpace
  dataSize := 4
  cacheGlobal := false
  warpActiveMask := mask
  addrs _ := [addr]

theorem sameWord_supported {cfg : CoreConfig} {mask : BitVec 32} {addr : Nat} (warpSize : cfg.warpSize ≤ 32)
    (parts : 0 < cfg.memWarpParts) (word : addr < 2 ^ 32) (aligned : 4 ∣ addr) :
    SupportedAtomic cfg (sameWord mask addr) where
  warpSize := warpSize
  parts := parts
  space := rfl
  dataSize := .inr (.inr (.inl rfl))
  addrs _ _ _ := ⟨word, aligned⟩

theorem memoryCoalescingArchAtomic_serializes_iff_sameWord : ∃ accesses,
    memoryCoalescingArchAtomic sectorCore (sameWord 7 256) true .globalAccW = .ok accesses ∧
      Serializes sectorCore (sameWord 7 256) accesses := by
  obtain ⟨accesses, done, serialized⟩ := memoryCoalescingArchAtomic_serializes_iff sectorCore (sameWord 7 256) true
    .globalAccW (sameWord_supported (by decide) (by decide) (by decide) (by decide))
  exact ⟨accesses, done, serialized.mpr fun t lane _ => lane⟩

/-- A warp of 32 threads in three parts. -/
def threeParts : CoreConfig where
  warpSize := 32
  memWarpParts := 3
  gpgpuCoalesceArch := 70
  gmemSkipL1D := false

/-- The parts have ten threads each, and the last two threads are in none. -/
theorem memoryCoalescingArchAtomic_drops :
    SupportedAtomic threeParts (sameWord 0x80000000 256) ∧
      memoryCoalescingArchAtomic threeParts (sameWord 0x80000000 256) true .globalAccW = .ok [] ∧
      ¬Serializes threeParts (sameWord 0x80000000 256) [] := by
  refine ⟨sameWord_supported (by decide) (by decide) (by decide) (by decide), rfl, fun serializes => ?_⟩
  exact absurd (serializes.once 31 (by decide) (by decide)) (by decide)

end GpgpuSim.Simt
