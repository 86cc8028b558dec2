import GpgpuSim.Partition.SectorRequests

/-! The sectors and the bytes that the parts of a request stand for. The window of bytes is built for the first
sector of the block and then moved along, so it is empty when the request begins later. -/
namespace GpgpuSim.Partition
open GpgpuSim.Memory GpgpuSim.Cache Words

variable {mf : MemFetch} {requests : List MemFetch} {serial start last i j k : Nat}

/-- The parts name different sectors, each at its own address, which are those that the request touches, and share
the bytes of the request out among themselves. -/
structure Divides (mf : MemFetch) (requests : List MemFetch) : Prop where
  masks : (requests.map MemFetch.sectorMask).Nodup
  named : ∀ request ∈ requests, request.addr / 128 = mf.addr / 128 ∧
    request.sectorMask = BitVec.twoPow 4 (request.addr % 128 / sectorSize)
  sectors : ∀ sector, (∃ request ∈ requests, request.addr / sectorSize = sector) ↔
    ∃ byte, mf.addr ≤ byte ∧ byte < mf.addr + mf.dataSize ∧ byte / sectorSize = sector
  disjoint : requests.Pairwise fun one other => one.byteMask &&& other.byteMask = 0
  together : ∀ k, mf.byteMask.getLsbD k = true ↔ ∃ request ∈ requests, request.byteMask.getLsbD k = true

/-- The request is passed on as it is. -/
def Single (mf : MemFetch) : Prop := mf.dataSize = sectorSize ∧ maskCount mf.sectorMask = 1

/-- A request begins where its sector mask says, on a sector, a half or the block, and has no bytes unless it begins
at the block or is passed on as it is. -/
def InPlace (mf : MemFetch) : Prop :=
  mf.dataSize = 32 ∧ mf.addr % 32 = 0 ∧ mf.sectorMask = BitVec.twoPow 4 (mf.addr % 128 / 32) ∨
    mf.dataSize = 128 ∧ mf.addr % 128 = 0 ∨
    mf.dataSize = 64 ∧ mf.addr % 128 = 0 ∧ mf.sectorMask ≠ 0b1100 ∨
    mf.dataSize = 64 ∧ mf.addr % 128 = 64 ∧ mf.sectorMask ≠ 0b0011 ∧ mf.byteMask = 0

theorem sectorRange_count (size : mf.dataSize = 128 ∨ mf.dataSize = 64) (range : sectorRange mf = .ok (start, last)) :
    last + 1 - start = mf.dataSize / 32 ∧ start + mf.dataSize / 32 ≤ 4 := by
  rw [sectorRange] at range
  split at range
  next whole =>
    cases range
    simp [whole]
  next part =>
    have half : mf.dataSize = 64 := size.resolve_left part
    rw [half]
    split at range
    · cases range
      decide
    · split at range
      · cases range
        decide
      · split at range
        · split at range <;> cases range <;> decide
        · cases range

/-- The sector that the code takes a request of several sectors to begin on, in terms of the request. -/
theorem inPlace_iff (size : mf.dataSize = 128 ∨ mf.dataSize = 64) (range : sectorRange mf = .ok (start, last)) :
    InPlace mf ↔ mf.addr % 128 = 32 * start ∧ (start = 0 ∨ mf.byteMask = 0) := by
  rw [sectorRange] at range
  split at range
  next whole =>
    cases range
    simp [InPlace, whole]
  next part =>
    have half : mf.dataSize = 64 := size.resolve_left part
    simp only [InPlace, half, Nat.reduceEqDiff, false_and, true_and, false_or]
    split at range
    next second =>
      cases range
      simp [second]
    next not_second =>
      split at range
      next first =>
        cases range
        simp [first]
      next not_first =>
        split at range
        next =>
          split at range
          next aligned =>
            cases range
            simpa [aligned] using not_second
          next inside =>
            cases range
            simpa [inside] using fun _ _ => not_first
        next => cases range

theorem getLsbD_sectorRequest : (sectorRequest mf serial start i).byteMask.getLsbD k = true ↔
    mf.byteMask.getLsbD k = true ∧ start = 0 ∧ k / 32 = i := by
  have inside (set : mf.byteMask.getLsbD k = true) : k < 128 := by
    by_contra outside
    rw [BitVec.getLsbD_of_ge _ _ (Nat.not_lt.mp outside)] at set
    contradiction
  have clear (j : Nat) : (0 : BitVec 128).getLsbD j = false := BitVec.getLsbD_zero
  simp only [sectorRequest, BitVec.getLsbD_and, BitVec.getLsbD_shiftLeft, Bool.and_eq_true, decide_eq_true_eq,
    Bool.not_eq_true', decide_eq_false_iff_not, getLsbD_setRange, sectorSize, clear, Bool.false_eq_true,
    false_or]
  constructor
  · rintro ⟨set, ⟨_, _⟩, _, _, _⟩
    exact ⟨set, by omega, by omega⟩
  · rintro ⟨set, rfl, rfl⟩
    have small := inside set
    exact ⟨set, ⟨small, by omega⟩, by omega, by omega, by omega⟩

/-- What the code makes of a request that it accepts. -/
theorem breakdown_cases (accepted : breakdownRequestToSectorRequests mf serial = .ok requests) :
    Single mf ∧ requests = [mf] ∨ ¬ Single mf ∧ (mf.dataSize = 128 ∨ mf.dataSize = 64) ∧
      ∃ start last, sectorRange mf = .ok (start, last) ∧
        requests = (List.range (mf.dataSize / 32)).map (sectorRequest mf serial start) := by
  rw [breakdownRequestToSectorRequests] at accepted
  split at accepted
  next single => exact .inl ⟨single, (Except.ok.inj accepted).symm⟩
  next several =>
    split at accepted
    next size =>
      obtain ⟨⟨start, last⟩, range, built⟩ := Transition.bind_ok.mp accepted
      refine .inr ⟨several, size, start, last, range, ?_⟩
      rw [← (sectorRange_count size range).1]
      exact (Except.ok.inj built).symm
    next => contradiction

theorem twoPow_inj (first : i < 4) (second : j < 4) (same : BitVec.twoPow 4 i = BitVec.twoPow 4 j) : i = j := by
  have all : ∀ i < 4, ∀ j < 4, BitVec.twoPow 4 i = BitVec.twoPow 4 j → i = j := by decide
  exact all i first j second same

theorem and_eq_zero_of_disjoint {w : Nat} {a b : BitVec w}
    (apart : ∀ k, a.getLsbD k = true → b.getLsbD k = true → False) : a &&& b = 0 := by
  refine BitVec.eq_of_getLsbD_eq fun k _ => ?_
  rw [BitVec.getLsbD_and]
  refine Eq.trans ?_ BitVec.getLsbD_zero.symm
  rw [Bool.and_eq_false_iff]
  by_contra both
  simp only [not_or, Bool.not_eq_false] at both
  exact apart k both.1 both.2

section Several

variable {n : Nat} (size : mf.dataSize = 32 * n) (bound : start + n ≤ 4)
include size bound

theorem Divides.begins (positive : 0 < n) (divides : Divides mf ((List.range n).map (sectorRequest mf serial start))) :
    mf.addr % 128 = 32 * start := by
  -- the sector of the last byte is one of the parts, so the request does not begin inside a sector
  have aligned : mf.addr % 32 = 0 := by
    obtain ⟨request, member, here⟩ := (divides.sectors ((mf.addr + mf.dataSize - 1) / sectorSize)).mpr
      ⟨mf.addr + mf.dataSize - 1, by omega, by omega, rfl⟩
    obtain ⟨i, inside, rfl⟩ := List.mem_map.mp member
    rw [List.mem_range] at inside
    simp only [sectorRequest, sectorSize] at here
    omega
  have first := (divides.named _ (List.mem_map_of_mem (List.mem_range.mpr positive))).2
  simp only [sectorRequest, sectorSize, Nat.mul_zero, Nat.add_zero] at first
  have same := twoPow_inj (by omega) (by omega) first
  omega

theorem divides_of_begins (aligned : mf.addr % 128 = 32 * start) (share : start = 0 ∨ mf.byteMask = 0)
    (within : ∀ k, mf.byteMask.getLsbD k = true → mf.addr % 128 ≤ k ∧ k < mf.addr % 128 + mf.dataSize) :
    Divides mf ((List.range n).map (sectorRequest mf serial start)) where
  masks := by
    rw [List.map_map]
    refine List.nodup_range.map_on fun i here j there same => ?_
    rw [List.mem_range] at here there
    have := twoPow_inj (by omega) (by omega) same
    omega
  named := by
    intro request member
    obtain ⟨i, inside, rfl⟩ := List.mem_map.mp member
    rw [List.mem_range] at inside
    simp only [sectorRequest, sectorSize]
    refine ⟨by omega, congrArg (BitVec.twoPow 4) (by omega)⟩
  sectors sector := by
    constructor
    · rintro ⟨request, member, rfl⟩
      obtain ⟨i, inside, rfl⟩ := List.mem_map.mp member
      rw [List.mem_range] at inside
      simp only [sectorRequest, sectorSize]
      exact ⟨mf.addr + 32 * i, by omega, by omega, rfl⟩
    · rintro ⟨byte, low, high, rfl⟩
      refine ⟨_, List.mem_map_of_mem (List.mem_range.mpr (show byte / 32 - mf.addr / 32 < n by omega)), ?_⟩
      simp only [sectorRequest, sectorSize]
      omega
  disjoint := by
    rw [List.pairwise_map]
    refine List.pairwise_lt_range.imp fun {i j} before => and_eq_zero_of_disjoint fun k one other => ?_
    have here := (getLsbD_sectorRequest.mp one).2.2
    have there := (getLsbD_sectorRequest.mp other).2.2
    omega
  together k := by
    constructor
    · intro set
      have inside := within k set
      have zero : start = 0 := share.resolve_right fun empty => by
        rw [empty] at set
        exact absurd (set.symm.trans BitVec.getLsbD_zero) (by decide)
      subst zero
      exact ⟨_, List.mem_map_of_mem (List.mem_range.mpr (show k / 32 < n by omega)),
        getLsbD_sectorRequest.mpr ⟨set, rfl, rfl⟩⟩
    · rintro ⟨request, member, set⟩
      obtain ⟨i, -, rfl⟩ := List.mem_map.mp member
      exact (getLsbD_sectorRequest.mp set).1

/-- A request of several sectors is divided where it begins on the first sector that the code takes it for, and
either begins at the block or has no bytes to share out. -/
theorem several_divides_iff (positive : 0 < n)
    (within : ∀ k, mf.byteMask.getLsbD k = true → mf.addr % 128 ≤ k ∧ k < mf.addr % 128 + mf.dataSize) :
    Divides mf ((List.range n).map (sectorRequest mf serial start)) ↔
      mf.addr % 128 = 32 * start ∧ (start = 0 ∨ mf.byteMask = 0) := by
  constructor
  · intro divides
    refine ⟨divides.begins size bound positive, ?_⟩
    by_contra lost
    rw [not_or] at lost
    refine lost.2 (BitVec.eq_of_getLsbD_eq fun k _ => ?_)
    refine Eq.trans ?_ BitVec.getLsbD_zero.symm
    by_contra set
    obtain ⟨request, member, part⟩ := (divides.together k).mp (Bool.eq_true_of_not_eq_false set)
    obtain ⟨i, -, rfl⟩ := List.mem_map.mp member
    exact lost.1 (getLsbD_sectorRequest.mp part).2.1
  · rintro ⟨aligned, share⟩
    exact divides_of_begins size bound aligned share within

end Several

theorem single_divides_iff (single : Single mf) :
    Divides mf [mf] ↔ mf.addr % 32 = 0 ∧ mf.sectorMask = BitVec.twoPow 4 (mf.addr % 128 / 32) := by
  have size : mf.dataSize = 32 := single.1
  constructor
  · intro divides
    refine ⟨?_, (divides.named mf List.mem_cons_self).2⟩
    obtain ⟨request, member, here⟩ := (divides.sectors ((mf.addr + 31) / sectorSize)).mpr
      ⟨mf.addr + 31, by omega, by omega, rfl⟩
    obtain rfl := List.mem_singleton.mp member
    simp only [sectorSize] at here
    omega
  · rintro ⟨aligned, mask⟩
    refine ⟨List.nodup_singleton _, fun request member => ?_, fun sector => ?_, List.pairwise_singleton .., fun k => ?_⟩
    · obtain rfl := List.mem_singleton.mp member
      exact ⟨rfl, mask⟩
    · simp only [List.mem_singleton, exists_eq_left, sectorSize, size]
      constructor
      · rintro rfl
        exact ⟨mf.addr, Nat.le_refl _, by omega, rfl⟩
      · rintro ⟨byte, low, high, rfl⟩
        omega
    · simp only [List.mem_singleton, exists_eq_left]

/-- The parts divide a request exactly where it is in place: a half of a block that is not the first one loses all its
bytes. -/
theorem breakdown_divides_iff (accepted : breakdownRequestToSectorRequests mf serial = .ok requests)
    (within : ∀ k, mf.byteMask.getLsbD k = true → mf.addr % 128 ≤ k ∧ k < mf.addr % 128 + mf.dataSize) :
    Divides mf requests ↔ InPlace mf := by
  rcases breakdown_cases accepted with ⟨single, rfl⟩ | ⟨several, size, start, last, range, rfl⟩
  · have size : mf.dataSize = 32 := single.1
    rw [single_divides_iff single]
    simp [InPlace, size]
  · have count := sectorRange_count size range
    rw [several_divides_iff (by omega) count.2 (by omega) within, inPlace_iff size range]

/-- A write of one half of a block. -/
def halfWrite (half : Nat) : MemFetch :=
  { requestTo .globalAccW (64 * half) with
    dataSize := 64, sectorMask := setRange 0 (2 * half) 2, byteMask := setRange 0 (64 * half) 64 }

theorem breakdown_first_half : Divides (halfWrite 0) ((List.range 2).map (sectorRequest (halfWrite 0) 0 0)) ↔
    InPlace (halfWrite 0) := by
  have accepted : breakdownRequestToSectorRequests (halfWrite 0) 0 =
      .ok ((List.range 2).map (sectorRequest (halfWrite 0) 0 0)) := rfl
  refine breakdown_divides_iff accepted fun k set => ?_
  rcases (getLsbD_setRange 0 0 64 k).mp set with absurdly | inside
  · exact absurd (absurdly.symm.trans BitVec.getLsbD_zero) (by decide)
  · exact ⟨Nat.zero_le _, inside.2.1⟩

/-- The parts of the second half of a block have no bytes. -/
theorem breakdown_second_half : ∃ requests, breakdownRequestToSectorRequests (halfWrite 1) 0 = .ok requests ∧
    (∀ k, (halfWrite 1).byteMask.getLsbD k = true → 64 ≤ k ∧ k < 128) ∧ (halfWrite 1).byteMask.getLsbD 64 = true ∧
    (∀ request ∈ requests, request.byteMask = 0) ∧ ¬ Divides (halfWrite 1) requests := by
  have accepted : breakdownRequestToSectorRequests (halfWrite 1) 0 =
      .ok ((List.range 2).map (sectorRequest (halfWrite 1) 0 2)) := rfl
  have empty : ∀ request ∈ (List.range 2).map (sectorRequest (halfWrite 1) 0 2), request.byteMask = 0 := by
    decide
  refine ⟨_, accepted, fun k set => ?_, rfl, empty, fun divides => ?_⟩
  · rcases (getLsbD_setRange 0 64 64 k).mp set with absurdly | inside
    · exact absurd (absurdly.symm.trans BitVec.getLsbD_zero) (by decide)
    · exact ⟨inside.1, inside.2.1⟩
  · obtain ⟨request, member, set⟩ := (divides.together 64).mp rfl
    rw [empty request member] at set
    exact absurd (set.symm.trans BitVec.getLsbD_zero) (by decide)

end GpgpuSim.Partition
