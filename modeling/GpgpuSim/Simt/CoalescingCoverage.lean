import GpgpuSim.Simt.Coalescing
import GpgpuSim.Transition.Fallible
import Mathlib.Data.List.TakeWhile

/-! Which bytes the coalesced accesses of a warp cover. -/
namespace GpgpuSim.Simt
open GpgpuSim.Memory Transition

/-- An active thread reads or writes the byte. -/
def Touches (cfg : CoreConfig) (inst : WarpInst) (t byte : Nat) : Prop :=
  t < cfg.warpSize ∧ inst.active t = true ∧
    ∃ addr ∈ inst.addrs t, addr ≤ byte ∧ byte < addr + inst.dataSizeCoales

def MemAccess.Contains (access : MemAccess) (byte : Nat) : Prop :=
  access.addr ≤ byte ∧ byte < access.addr + access.reqSize

/-- Every byte is in an access that names its thread and has the byte in its masks,
and no access names a thread without a byte in it. -/
structure Covers (cfg : CoreConfig) (inst : WarpInst) (accesses : List MemAccess) : Prop where
  covered : ∀ t byte, Touches cfg inst t byte → ∃ access ∈ accesses, access.Contains byte ∧
    access.warpMask.getLsbD t = true ∧ access.byteMask.getLsbD (byte % 128) = true ∧
    access.sectorMask.getLsbD (byte % 128 / 32) = true
  used : ∀ access ∈ accesses, ∀ t, access.warpMask.getLsbD t = true →
    ∃ byte, Touches cfg inst t byte ∧ access.Contains byte

/-- What the issue of a load or store guarantees. -/
structure Supported (cfg : CoreConfig) (inst : WarpInst) : Prop where
  warpSize : cfg.warpSize ≤ 32
  dataSize : inst.dataSize = 1 ∨ inst.dataSize = 2 ∨ inst.dataSize = 4 ∨ inst.dataSize = 8 ∨
    inst.dataSize = 16
  addrs : ∀ t, (inst.addrs t).length ≤ maxAccessesPerInsnPerThread
  aligned : ∀ t, ∀ addr ∈ inst.addrs t, inst.dataSizeCoales ∣ addr

/-- Every active thread is in a subwarp and has addresses of 32 bits, none of them zero. -/
def Addressable (cfg : CoreConfig) (inst : WarpInst) : Prop :=
  ∀ t, t < cfg.warpSize → inst.active t = true → ∀ addr ∈ inst.addrs t,
    t < cfg.memWarpParts * (cfg.warpSize / cfg.memWarpParts) ∧ 0 < addr ∧ addr < 2 ^ 32

variable {cfg : CoreConfig} {inst : WarpInst} {k t byte : Nat}

theorem segmentSize_sized (cfg : CoreConfig) (dataSize : inst.dataSize = 1 ∨ inst.dataSize = 2 ∨ inst.dataSize = 4 ∨
    inst.dataSize = 8 ∨ inst.dataSize = 16) : SegmentSize (inst.segmentSize cfg) := by
  unfold SegmentSize WarpInst.segmentSize
  rcases dataSize with size | size | size | size | size <;> simp only [size] <;>
    cases inst.sectorSegmentSize cfg <;> simp

theorem Supported.segmentSize (supported : Supported cfg inst) : SegmentSize (inst.segmentSize cfg) :=
  segmentSize_sized cfg supported.dataSize

theorem Supported.dataSizeCoales (supported : Supported cfg inst) :
    inst.dataSizeCoales = 1 ∨ inst.dataSizeCoales = 2 ∨ inst.dataSizeCoales = 4 ∨
      inst.dataSizeCoales = 8 ∨ inst.dataSizeCoales = 16 := by
  unfold WarpInst.dataSizeCoales
  split
  · simp
  · exact supported.dataSize

/-- The loop reaches only addresses that were set, and none of them is zero. -/
theorem mem_accessed {addr : Nat} (member : addr ∈ inst.accessed t) :
    addr ∈ inst.addrs t ∧ 0 < addr := by
  have nonzero : 0 < addr := by
    have := List.mem_takeWhile_imp member
    simp only [bne_iff_ne, ne_eq] at this
    omega
  obtain ⟨i, -, at_i⟩ := List.mem_map.mp ((List.takeWhile_sublist _).subset member)
  rw [WarpInst.memreqaddr, List.getD_eq_getElem?_getD] at at_i
  cases set : (inst.addrs t)[i]? with
  | none =>
      rw [set] at at_i
      exact absurd at_i.symm (Nat.ne_of_gt nonzero)
  | some found =>
      rw [set] at at_i
      cases at_i
      exact ⟨List.mem_of_getElem? set, nonzero⟩

/-- Without a zero among them the loop reaches all addresses. -/
theorem mem_accessed_of_nonzero (supported : Supported cfg inst) (nonzero : ∀ addr ∈ inst.addrs t, 0 < addr)
    {addr : Nat} (member : addr ∈ inst.addrs t) : addr ∈ inst.accessed t := by
  have shape : (List.range maxAccessesPerInsnPerThread).map (inst.memreqaddr t) =
      inst.addrs t ++ List.replicate (maxAccessesPerInsnPerThread - (inst.addrs t).length) 0 := by
    have short := supported.addrs t
    apply List.ext_getElem
    · simp
      omega
    · intro i left right
      simp only [List.getElem_map, List.getElem_range, WarpInst.memreqaddr,
        List.getD_eq_getElem?_getD, List.getElem_append, List.getElem_replicate]
      split
      · rename_i set
        rw [List.getElem?_eq_getElem set]
        rfl
      · rename_i unset
        rw [List.getElem?_eq_none (Nat.not_lt.mp unset)]
        rfl
  rw [WarpInst.accessed, shape, List.takeWhile_append_of_pos]
  · exact List.mem_append_left _ member
  · intro addr inside
    have := nonzero addr inside
    simp only [bne_iff_ne, ne_eq]
    omega

/-- The segment of an access, and the place of its chunk in it. -/
theorem tag_arith {segment addr : Nat} (sized : SegmentSize segment) (here : lineSizeBasedTagFunc addr segment = k) :
    segment ∣ k ∧ k + segment ≤ 2 ^ 32 ∧
      k % 128 ≤ 32 * (addr % 128 / 32) ∧ 32 * (addr % 128 / 32) < k % 128 + segment ∧
      (addr < 2 ^ 32 → k / 128 * 128 + 32 * (addr % 128 / 32) = addr / 32 * 32) := by
  rw [lineSizeBasedTagFunc_eq sized] at here
  refine ⟨⟨_, by rw [← here, Nat.mul_comm]⟩, ?_⟩
  rcases sized with rfl | rfl | rfl <;> omega

/-- An access of the queue and the transaction it was sent for. -/
def SentFor (cfg : CoreConfig) (inst : WarpInst) (access : MemAccess) (subwarp k : Nat) : Prop :=
  ∃ info, subwarp < cfg.memWarpParts ∧
    within (inst.segmentSize cfg) (inst.subwarpAccesses (cfg.warpSize / cfg.memWarpParts) subwarp) k ≠ [] ∧
    Noted inst.dataSizeCoales
      (within (inst.segmentSize cfg) (inst.subwarpAccesses (cfg.warpSize / cfg.memWarpParts) subwarp) k) info ∧
    Sent info k (inst.segmentSize cfg) access

/-- No assertion fails, and the queue holds one access for each transaction. -/
theorem memoryCoalescingArch_ok (supported : Supported cfg inst) (isWrite : Bool) (accessType : MemAccessType) :
    ∃ accesses, memoryCoalescingArch cfg inst isWrite accessType = .ok accesses ∧
      (∀ access ∈ accesses, ∃ subwarp k, SentFor cfg inst access subwarp k) ∧
      ∀ subwarp < cfg.memWarpParts, ∀ p ∈ inst.subwarpAccesses (cfg.warpSize / cfg.memWarpParts) subwarp,
        ∃ access ∈ accesses,
          SentFor cfg inst access subwarp (lineSizeBasedTagFunc p.2 (inst.segmentSize cfg)) := by
  have sized := supported.segmentSize
  have aligned : ∀ t, inst.active t = true → ∀ addr ∈ inst.accessed t, inst.dataSizeCoales ∣ addr :=
    fun t _ addr member => supported.aligned t addr (mem_accessed member).1
  have few : ¬maxAccessesPerInsnPerThread < inst.numAccesses := by
    unfold WarpInst.numAccesses maxAccessesPerInsnPerThread
    have := supported.dataSize
    split <;> omega
  have notes := WarpInst.subwarpTransactions_notes sized supported.dataSizeCoales aligned
    (cfg.warpSize / cfg.memWarpParts)
  -- each transaction of each subwarp is sent
  have one : ∀ subwarp ∈ List.range cfg.memWarpParts, ∃ sent,
      (inst.subwarpTransactions (inst.segmentSize cfg) (cfg.warpSize / cfg.memWarpParts)
        subwarp).toList.mapM (fun p =>
          memoryCoalescingArchReduceAndSend isWrite accessType p.2 p.1 (inst.segmentSize cfg)) = .ok sent ∧
        (∀ access ∈ sent, ∃ k, SentFor cfg inst access subwarp k) ∧
        ∀ p ∈ inst.subwarpAccesses (cfg.warpSize / cfg.memWarpParts) subwarp, ∃ access ∈ sent,
          SentFor cfg inst access subwarp (lineSizeBasedTagFunc p.2 (inst.segmentSize cfg)) := by
    intro subwarp inside
    obtain ⟨sent, done, sound, complete⟩ := mapM_ok
      (f := fun p : Nat × TransactionInfo =>
        memoryCoalescingArchReduceAndSend isWrite accessType p.2 p.1 (inst.segmentSize cfg))
      (P := fun p access => SentFor cfg inst access subwarp p.1)
      (l := (inst.subwarpTransactions (inst.segmentSize cfg) (cfg.warpSize / cfg.memWarpParts)
        subwarp).toList) (by
        rintro ⟨k, info⟩ member
        have found := Std.TreeMap.mem_toList_iff_getElem?_eq_some.mp member
        have noted := (notes subwarp).noted k
        have some_access := ((notes subwarp).present k).mp (by rw [found]; simp)
        rw [found, Option.getD_some] at noted
        obtain ⟨⟨t, addr⟩, first⟩ := List.exists_mem_of_ne_nil _ some_access
        obtain ⟨access, reduced, sent⟩ := reduceAndSend_ok isWrite accessType sized
          (tag_arith sized (mem_within.mp first).2).1
          ⟨_, (noted.chunk _).mpr ⟨_, first, rfl⟩⟩ (by
            intro c chunk
            obtain ⟨p, member, rfl⟩ := (noted.chunk c).mp chunk
            have := tag_arith sized (mem_within.mp member).2
            exact ⟨this.2.2.1, this.2.2.2.1⟩)
        exact ⟨access, reduced, info, List.mem_range.mp inside, some_access, noted, sent⟩)
    refine ⟨sent, done, ?_, ?_⟩
    · intro access member
      obtain ⟨p, -, sent_for⟩ := sound access member
      exact ⟨p.1, sent_for⟩
    · intro p member
      have present := ((notes subwarp).present (lineSizeBasedTagFunc p.2 (inst.segmentSize cfg))).mpr
        (List.ne_nil_of_mem (mem_within.mpr ⟨member, rfl⟩))
      obtain ⟨info, found⟩ := Option.ne_none_iff_exists'.mp present
      exact complete (_, info) (Std.TreeMap.mem_toList_iff_getElem?_eq_some.mpr found)
  obtain ⟨sent, done, sound, complete⟩ := mapM_ok one
  refine ⟨sent.flatten, ?_, ?_, ?_⟩
  · rw [memoryCoalescingArch]
    dsimp only
    rw [if_neg (fun both => few both.2), done]
    rfl
  · intro access member
    obtain ⟨queue, inside, member⟩ := List.mem_flatten.mp member
    obtain ⟨subwarp, -, each, -⟩ := sound queue inside
    exact ⟨subwarp, each access member⟩
  · intro subwarp inside p member
    obtain ⟨queue, in_sent, -, each⟩ := complete subwarp (List.mem_range.mpr inside)
    obtain ⟨access, in_queue, sent_for⟩ := each p member
    exact ⟨access, List.mem_flatten.mpr ⟨queue, in_sent, in_queue⟩, sent_for⟩

/-- The subwarp of a thread that is in one. -/
theorem mem_subwarpAccesses {size subwarp addr : Nat} :
    (t, addr) ∈ inst.subwarpAccesses size subwarp ↔
      (∃ i < size, t = subwarp * size + i) ∧ inst.active t = true ∧ addr ∈ inst.accessed t := by
  simp only [WarpInst.subwarpAccesses, WarpInst.subwarpThreads, List.mem_flatMap, List.mem_filter,
    List.mem_map, List.mem_range, Prod.mk.injEq]
  constructor
  · rintro ⟨_, ⟨⟨i, inside, rfl⟩, active⟩, _, member, rfl, rfl⟩
    exact ⟨⟨i, inside, rfl⟩, active, member⟩
  · rintro ⟨⟨i, inside, rfl⟩, active, member⟩
    exact ⟨_, ⟨⟨i, inside, rfl⟩, active⟩, addr, member, rfl, rfl⟩

theorem lane_lt {parts size part i : Nat} (inside : part < parts) (small : i < size) : part * size + i < parts * size :=
  calc part * size + i < (part + 1) * size := by
        rw [Nat.add_mul, Nat.one_mul]
        omega
    _ ≤ parts * size := Nat.mul_le_mul_right _ inside

theorem lane_of_mem {subwarp addr : Nat} (inside : subwarp < cfg.memWarpParts)
    (member : (t, addr) ∈ inst.subwarpAccesses (cfg.warpSize / cfg.memWarpParts) subwarp) :
    t < cfg.memWarpParts * (cfg.warpSize / cfg.memWarpParts) := by
  obtain ⟨⟨i, small, rfl⟩, -⟩ := mem_subwarpAccesses.mp member
  exact lane_lt inside small

/-- A thread that an access names has one in its segment. -/
theorem SentFor.thread {access : MemAccess} {subwarp : Nat} (sent : SentFor cfg inst access subwarp k)
    (named : access.warpMask.getLsbD t = true) :
    ∃ addr, (t, addr) ∈ inst.subwarpAccesses (cfg.warpSize / cfg.memWarpParts) subwarp ∧
      lineSizeBasedTagFunc addr (inst.segmentSize cfg) = k := by
  obtain ⟨info, -, -, noted, sent⟩ := sent
  rw [sent.warpMask] at named
  obtain ⟨⟨t, addr⟩, member, rfl⟩ := (noted.active _).mp named
  exact ⟨addr, mem_within.mp member⟩

/-- The bytes of an aligned access of at most 32 bytes stay in its chunk. -/
theorem chunk_arith {size addr : Nat}
    (power : size = 1 ∨ size = 2 ∨ size = 4 ∨ size = 8 ∨ size = 16) (aligned : size ∣ addr)
    (low : addr ≤ byte) (high : byte < addr + size) :
    byte / 32 = addr / 32 ∧ byte % 128 / 32 = addr % 128 / 32 ∧ addr % 128 ≤ byte % 128 ∧
      byte % 128 < addr % 128 + size := by
  obtain ⟨n, rfl⟩ := aligned
  rcases power with rfl | rfl | rfl | rfl | rfl <;> omega

/-- What a transaction is sent as covers the bytes of the accesses it notes. -/
theorem Sent.covers {size segment addr : Nat} {here : List (Nat × Nat)} {info : TransactionInfo} {access : MemAccess}
    (sized : SegmentSize segment) (power : size = 1 ∨ size = 2 ∨ size = 4 ∨ size = 8 ∨ size = 16)
    (noted : Noted size here info) (sent : Sent info (lineSizeBasedTagFunc addr segment) segment access)
    (member : (t, addr) ∈ here) (aligned : size ∣ addr) (word : addr < 2 ^ 32) (low : addr ≤ byte)
    (high : byte < addr + size) :
    access.Contains byte ∧ access.warpMask.getLsbD t = true ∧
      access.byteMask.getLsbD (byte % 128) = true ∧
      access.sectorMask.getLsbD (byte % 128 / 32) = true := by
  obtain ⟨same_32, same_chunk, first, last⟩ := chunk_arith power aligned low high
  have chunk : info.chunks.getLsbD (byte % 128 / 32) = true := by
    rw [same_chunk]
    exact (noted.chunk _).mpr ⟨_, member, rfl⟩
  have held := sent.holds _ chunk
  have place := (tag_arith sized (rfl (a := lineSizeBasedTagFunc addr _))).2.2.2.2 word
  rw [same_chunk] at held
  unfold HoldsChunk at held
  rw [sent.warpMask, sent.byteMask, sent.sectorMask]
  refine ⟨⟨by omega, by omega⟩, ?_, ?_, chunk⟩
  · exact (noted.active t).mpr ⟨_, member, rfl⟩
  · exact (noted.byte _).mpr ⟨_, member, first, last, by omega⟩

theorem SentFor.covers (supported : Supported cfg inst) {access : MemAccess} {subwarp addr : Nat}
    (member : (t, addr) ∈ inst.subwarpAccesses (cfg.warpSize / cfg.memWarpParts) subwarp)
    (sent : SentFor cfg inst access subwarp (lineSizeBasedTagFunc addr (inst.segmentSize cfg)))
    (word : addr < 2 ^ 32) (low : addr ≤ byte) (high : byte < addr + inst.dataSizeCoales) :
    access.Contains byte ∧ access.warpMask.getLsbD t = true ∧
      access.byteMask.getLsbD (byte % 128) = true ∧
      access.sectorMask.getLsbD (byte % 128 / 32) = true := by
  obtain ⟨info, -, -, noted, sent⟩ := sent
  have here : (t, addr) ∈ within (inst.segmentSize cfg) _ _ := mem_within.mpr ⟨member, rfl⟩
  have set : addr ∈ inst.addrs t := (mem_accessed (mem_subwarpAccesses.mp member).2.2).1
  exact sent.covers supported.segmentSize supported.dataSizeCoales noted here (supported.aligned t addr set) word low
    high

/-- The accesses cover every byte exactly when every active thread is in a subwarp and
its addresses are nonzero words of 32 bits. -/
theorem memoryCoalescingArch_covers_iff (cfg : CoreConfig) (inst : WarpInst) (isWrite : Bool)
    (accessType : MemAccessType) (supported : Supported cfg inst) :
    ∃ accesses, memoryCoalescingArch cfg inst isWrite accessType = .ok accesses ∧
      (Covers cfg inst accesses ↔ Addressable cfg inst) := by
  obtain ⟨accesses, done, sound, complete⟩ := memoryCoalescingArch_ok supported isWrite accessType
  have sized := supported.segmentSize
  have positive : 0 < inst.dataSizeCoales := by
    have := supported.dataSizeCoales
    omega
  refine ⟨accesses, done, ?_, ?_⟩
  · intro covers
    have word : ∀ t, t < cfg.warpSize → inst.active t = true → ∀ addr ∈ inst.addrs t,
        ∃ access subwarp k, SentFor cfg inst access subwarp k ∧ access.Contains addr ∧
          access.warpMask.getLsbD t = true ∧ access.byteMask.getLsbD (addr % 128) = true ∧
          addr < 2 ^ 32 := by
      intro t lane active addr set
      obtain ⟨access, member, ⟨low, high⟩, named, byte_set, -⟩ :=
        covers.covered t addr ⟨lane, active, addr, set, Nat.le_refl _, by omega⟩
      obtain ⟨subwarp, k, sent⟩ := sound access member
      refine ⟨access, subwarp, k, sent, ⟨low, high⟩, named, byte_set, ?_⟩
      obtain ⟨info, -, nonempty, -, sent⟩ := sent
      obtain ⟨p, first⟩ := List.exists_mem_of_ne_nil _ nonempty
      have segment_word := (tag_arith sized (mem_within.mp first).2).2.1
      have inside := sent.inside.2
      omega
    intro t lane active addr set
    obtain ⟨access, subwarp, k, sent, ⟨low, -⟩, named, byte_set, small⟩ := word t lane active addr set
    obtain ⟨own, member, -⟩ := sent.thread named
    have here := sent
    obtain ⟨info, inside, -, noted, sent⟩ := sent
    refine ⟨lane_of_mem inside member, ?_, small⟩
    -- byte zero is in the mask of its segment only if a nonzero access starts there
    by_contra zero
    have at_zero : addr = 0 := by omega
    subst at_zero
    rw [sent.byteMask] at byte_set
    obtain ⟨⟨other, start⟩, noted_here, first, -⟩ := (noted.byte _).mp byte_set
    obtain ⟨accessed, tag⟩ := mem_within.mp noted_here
    have lane' := lane_of_mem inside accessed
    obtain ⟨-, active', reached⟩ := mem_subwarpAccesses.mp accessed
    obtain ⟨set', nonzero⟩ := mem_accessed reached
    obtain ⟨-, -, -, -, -, -, -, small'⟩ :=
      word other (Nat.lt_of_lt_of_le lane' (Nat.mul_div_le _ _)) active' start set'
    have segment_zero := sent.inside.1
    dsimp only at first tag nonzero
    rw [lineSizeBasedTagFunc_eq sized] at tag
    rcases sized with size | size | size <;> rw [size] at tag <;> omega
  · intro addressable
    constructor
    · rintro t byte ⟨lane, active, addr, set, low, high⟩
      obtain ⟨inside, -, word⟩ := addressable t lane active addr set
      have reached := mem_accessed_of_nonzero supported
        (fun other also => (addressable t lane active other also).2.1) set
      have split := Nat.div_add_mod' t (cfg.warpSize / cfg.memWarpParts)
      have nonzero : 0 < cfg.warpSize / cfg.memWarpParts := by
        by_contra none
        simp [Nat.eq_zero_of_not_pos none] at inside
      have subwarp : t / (cfg.warpSize / cfg.memWarpParts) < cfg.memWarpParts :=
        Nat.div_lt_of_lt_mul (by rwa [Nat.mul_comm])
      have member := mem_subwarpAccesses.mpr
        ⟨⟨_, Nat.mod_lt t nonzero, split.symm⟩, active, reached⟩
      obtain ⟨access, in_queue, sent⟩ := complete _ subwarp _ member
      exact ⟨access, in_queue, sent.covers supported member word low high⟩
    · intro access in_queue t named
      obtain ⟨subwarp, k, sent⟩ := sound access in_queue
      obtain ⟨addr, member, rfl⟩ := sent.thread named
      obtain ⟨-, active, accessed⟩ := mem_subwarpAccesses.mp member
      obtain ⟨set, -⟩ := mem_accessed accessed
      obtain ⟨info, inside, -⟩ := id sent
      have lane : t < cfg.warpSize := Nat.lt_of_lt_of_le (lane_of_mem inside member) (Nat.mul_div_le _ _)
      have word := (addressable t lane active addr set).2.2
      refine ⟨addr, ⟨lane, active, addr, set, Nat.le_refl _, by omega⟩, ?_⟩
      exact (sent.covers supported member word (Nat.le_refl _) (by omega)).1

/-- A core that works in sectors, with one part to a warp. -/
def sectorCore : CoreConfig where
  warpSize := 32
  memWarpParts := 1
  gpgpuCoalesceArch := 70
  gmemSkipL1D := false

/-- Every other thread loads a word, with two of the words in a sector. -/
def stridedLoad : WarpInst where
  space := .globalSpace
  dataSize := 4
  cacheGlobal := false
  warpActiveMask := 0x55555555
  addrs t := if t < 32 then [0xC0000000 + 8 * t] else []

theorem stridedLoad_supported : Supported sectorCore stridedLoad where
  warpSize := by decide
  dataSize := .inr (.inr (.inl rfl))
  addrs t := by
    unfold stridedLoad
    dsimp only
    split <;> simp [maxAccessesPerInsnPerThread]
  aligned t addr member := by
    have words : stridedLoad.dataSizeCoales = 4 := by decide
    rw [words]
    unfold stridedLoad at member
    dsimp only at member
    split at member
    · rw [List.mem_singleton] at member
      omega
    · contradiction

theorem memoryCoalescingArch_covers_iff_strided : ∃ accesses,
    memoryCoalescingArch sectorCore stridedLoad false .globalAccR = .ok accesses ∧
      accesses.map MemAccess.warpMask = [5, 0x50, 0x500, 0x5000, 0x50000, 0x500000, 0x5000000, 0x50000000] ∧
      Covers sectorCore stridedLoad accesses := by
  have sent : (memoryCoalescingArch sectorCore stridedLoad false .globalAccR).map (List.map MemAccess.warpMask) =
      .ok [5, 0x50, 0x500, 0x5000, 0x50000, 0x500000, 0x5000000, 0x50000000] := rfl
  obtain ⟨accesses, done, covers⟩ :=
    memoryCoalescingArch_covers_iff sectorCore stridedLoad false .globalAccR stridedLoad_supported
  rw [done] at sent
  refine ⟨accesses, done, Except.ok.inj sent, covers.mpr ?_⟩
  intro t lane active addr member
  have lane : t < 32 := lane
  obtain rfl : addr = 0xC0000000 + 8 * t := by simpa [stridedLoad, lane] using member
  refine ⟨lane, ?_, ?_⟩ <;> omega

/-- Thread 0 loads the word at `addr`. -/
def loneLoad (addr : Nat) : WarpInst where
  space := .globalSpace
  dataSize := 4
  cacheGlobal := false
  warpActiveMask := 1
  addrs t := if t = 0 then [addr] else []

theorem loneLoad_supported {addr : Nat} (aligned : 4 ∣ addr) : Supported sectorCore (loneLoad addr) where
  warpSize := by decide
  dataSize := .inr (.inr (.inl rfl))
  addrs t := by
    unfold loneLoad
    dsimp only
    split <;> simp [maxAccessesPerInsnPerThread]
  aligned t other member := by
    unfold loneLoad at member
    dsimp only at member
    split at member
    · rw [List.mem_singleton] at member
      exact member ▸ aligned
    · contradiction

/-- The word at 4 GiB is asked for at address 0. -/
theorem memoryCoalescingArch_truncates :
    Supported sectorCore (loneLoad (2 ^ 32)) ∧
      memoryCoalescingArch sectorCore (loneLoad (2 ^ 32)) false .globalAccR =
        .ok [⟨.globalAccR, 0, 32, false, 1, 15, 1⟩] ∧
      ¬Covers sectorCore (loneLoad (2 ^ 32)) [⟨.globalAccR, 0, 32, false, 1, 15, 1⟩] := by
  refine ⟨loneLoad_supported (by decide), rfl, ?_⟩
  intro covers
  obtain ⟨access, member, inside, -⟩ := covers.covered 0 (2 ^ 32)
    ⟨by decide, by decide, 2 ^ 32, by decide, by decide, by decide⟩
  rw [List.mem_singleton] at member
  subst member
  exact absurd inside.2 (by decide)

end GpgpuSim.Simt
