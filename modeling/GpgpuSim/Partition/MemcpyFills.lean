import GpgpuSim.Address.Decoding
import GpgpuSim.Cache.LineStates
import GpgpuSim.Cache.Victims
import Mathlib.Data.List.Induction

/-! The copies to the GPU that are not simulated as traffic: `perf_memcpy_to_gpu` fills the sectors of
the destination into the L2 slices, 32 bytes a step. -/
namespace GpgpuSim.Partition
open GpgpuSim.Address GpgpuSim.Cache GpgpuSim.Memory Transition

/-- What `perf_memcpy_to_gpu` reads of the configuration. -/
structure MemcpyConfig where
  perfSimMemcpy : Bool
  addressMapping : Translation
  l2 : CacheConfig

/-- One call of `handle_memcpy_to_gpu`: the partition, its sub partition and what is filled. -/
structure FillRequest where
  partitionId : Nat
  localId : Nat
  addr : Nat
  mask : BitVec 4
  deriving DecidableEq, Repr

def maxMemoryAccessSize : Nat := 128

/-- The fill covers sector `s`, that is the bytes `[32 s, 32 s + 32)`. -/
def FillRequest.Fills (q : FillRequest) (s : Nat) : Prop :=
  ∃ i < sectorChunckSize, q.mask.getLsbD i = true ∧ s = q.addr / maxMemoryAccessSize * sectorChunckSize + i

/-- A fill by a mask reads nothing else of a request. -/
def FillRequest.masked (q : FillRequest) : MemFetch where
  accessType := .globalAccW
  addr := q.addr
  dataSize := 0
  subPartitionId := 0
  chip := 0
  sectorMask := q.mask

/-- An L2 slice, as far as a copy changes it. -/
structure L2Slice where
  tags : TagArray
  memcpyCycleOffset : Nat

namespace MemcpyConfig

/-- The global number of a sub partition, its `m_id`. -/
def subPartitionId (cfg : MemcpyConfig) (q : FillRequest) : Nat :=
  q.partitionId * cfg.addressMapping.nSubPartitionInChannel + q.localId

def forceL2TagUpdate (cfg : MemcpyConfig) (slice : L2Slice) (time : Nat) (q : FillRequest) :
    Except CacheFault L2Slice := do
  let tags ← slice.tags.fillAddr cfg.l2 q.addr (toUnsigned (slice.memcpyCycleOffset + time)) q.masked
  return ⟨tags, toUnsigned (slice.memcpyCycleOffset + 1)⟩

/-- The slices are found by partition and by their place in it. -/
def handleMemcpyToGpu (cfg : MemcpyConfig) (time : Nat) (units : Nat → Nat → L2Slice) (q : FillRequest) :
    Except CacheFault (Nat → Nat → L2Slice) := do
  let slice ← cfg.forceL2TagUpdate (units q.partitionId q.localId) time q
  return Function.update units q.partitionId (Function.update (units q.partitionId) q.localId slice)

/-- One turn of the loop: `wr_addr` is an `unsigned`. -/
def memcpyStep (cfg : MemcpyConfig) (dst counter : Nat) : Except AddrdecFault FillRequest := do
  let wrAddr := (dst + counter) % 2 ^ 32
  let mask := 1#4 <<< (wrAddr % maxMemoryAccessSize / sectorSize)
  let raw ← cfg.addressMapping.addrdecTlx wrAddr
  let partitionId := raw.subPartition / cfg.addressMapping.nSubPartitionInChannel
  return ⟨partitionId, raw.subPartition - partitionId * cfg.addressMapping.nSubPartitionInChannel, wrAddr, mask⟩

/-- The calls of the loop, whose `counter` is an `unsigned` that is compared with a `size_t`. -/
def memcpyLoop (cfg : MemcpyConfig) (dst count : Nat) : Nat → Nat → Option (Except AddrdecFault (List FillRequest))
  | 0, _ => none
  | fuel + 1, counter =>
      if counter < count then
        match cfg.memcpyStep dst counter with
        | .error fault => some (.error fault)
        | .ok q =>
            (cfg.memcpyLoop dst count fuel ((counter + sectorSize) % 2 ^ 32)).map fun later => later.map (q :: ·)
      else some (.ok [])

/-- The calls of `perf_memcpy_to_gpu`, which do not depend on what is in the slices. -/
def memcpyRequests (cfg : MemcpyConfig) (fuel dst count : Nat) : Option (Except AddrdecFault (List FillRequest)) :=
  if cfg.perfSimMemcpy then cfg.memcpyLoop dst count fuel 0 else some (.ok [])

/-- The slices after the calls. -/
def perfMemcpyToGpu (cfg : MemcpyConfig) (time : Nat) (units : Nat → Nat → L2Slice) (requests : List FillRequest) :
    Except CacheFault (Nat → Nat → L2Slice) :=
  requests.foldlM (cfg.handleMemcpyToGpu time) units

/-! ## What a copy is for -/

/-- Sector `s` has a byte of `[dst, dst + count)`. -/
def Overlaps (dst count s : Nat) : Prop := ∃ byte, dst ≤ byte ∧ byte < dst + count ∧ byte / sectorSize = s

/-- Where `addrdec_tlx` sends an address. -/
def subPartitionOf (cfg : MemcpyConfig) (addr : Nat) : Except AddrdecFault Nat :=
  (cfg.addressMapping.addrdecTlx addr).map (·.subPartition)

/-- Sector `s` belongs to this slice. -/
def Belongs (cfg : MemcpyConfig) (p l s : Nat) : Prop :=
  cfg.subPartitionOf (s * sectorSize) = .ok (p * cfg.addressMapping.nSubPartitionInChannel + l)

/-- The slice holds the sector of the address: a line of its block has the cell of the mask. -/
def Holds (cfg : MemcpyConfig) (slice : L2Slice) (addr : Nat) (mask : BitVec 4) : Prop :=
  ∃ i c, cfg.l2.cell mask = .ok c ∧ (slice.tags.view i).tag = cfg.l2.tag addr ∧
    ((slice.tags.view i).status c = .valid ∨ (slice.tags.view i).status c = .modified)

def HoldsSector (cfg : MemcpyConfig) (slice : L2Slice) (s : Nat) : Prop :=
  cfg.Holds slice (s * sectorSize) (1#4 <<< (s % sectorChunckSize))

/-- The calls succeed; together they fill the sectors of the destination and no others, each in its own sub
partition; and each call puts its sector into the slice, and into no slice a sector that is not to be there. -/
structure Exact (cfg : MemcpyConfig) (time : Nat) (units : Nat → Nat → L2Slice) (dst count : Nat)
    (requests : List FillRequest) : Prop where
  succeeds : ∃ after, cfg.perfMemcpyToGpu time units requests = .ok after
  every : ∀ s, Overlaps dst count s → ∃ q ∈ requests, q.Fills s
  own : ∀ q ∈ requests, ∀ s, q.Fills s →
    Overlaps dst count s ∧ cfg.subPartitionOf (s * sectorSize) = .ok (cfg.subPartitionId q)
  lands : ∀ earlier q later before after, requests = earlier ++ q :: later →
    cfg.perfMemcpyToGpu time units earlier = .ok before → cfg.handleMemcpyToGpu time before q = .ok after →
    cfg.Holds (after q.partitionId q.localId) q.addr q.mask ∧
      ∀ p l s, s * sectorSize < 2 ^ 64 → cfg.HoldsSector (after p l) s →
        cfg.HoldsSector (before p l) s ∨ Overlaps dst count s ∧ cfg.Belongs p l s

/-- The copy ends, and is exact on these slices. -/
def FillsExactly (cfg : MemcpyConfig) (time : Nat) (units : Nat → Nat → L2Slice) (dst count : Nat) : Prop :=
  ∃ fuel requests, cfg.memcpyRequests fuel dst count = some (.ok requests) ∧ cfg.Exact time units dst count requests

def steps (count : Nat) : Nat := (count + (sectorSize - 1)) / sectorSize

/-- Nothing is copied, or: copies are modelled, the destination lies in the 32 bits of an `unsigned` and is
shorter than that by a sector, as many sectors overlap it as there are steps, and each step's address goes to
the sub partition of its sector. -/
def Covers (cfg : MemcpyConfig) (dst count : Nat) : Prop :=
  count = 0 ∨ cfg.perfSimMemcpy = true ∧ count ≤ 2 ^ 32 - sectorSize ∧ dst + count ≤ 2 ^ 32 ∧
    steps (dst % sectorSize + count) = steps count ∧
    ∀ k < steps count, ∃ p, cfg.subPartitionOf (dst + k * sectorSize) = .ok p ∧
      cfg.subPartitionOf ((dst + k * sectorSize) / sectorSize * sectorSize) = .ok p

/-- The slice has a line for the call, and any other sector that shares the filled cell of that line is in
the slice already, or is to be filled there as well. -/
structure Ready (cfg : MemcpyConfig) (units : Nat → Nat → L2Slice) (dst count : Nat) (q : FillRequest) : Prop where
  line : ∃ status i, (units q.partitionId q.localId).tags.probe cfg.l2 q.addr q.masked false = .ok (status, some i)
  shared : ∀ s, s * sectorSize < 2 ^ 64 → cfg.l2.tag (s * sectorSize) = cfg.l2.tag q.addr →
    cfg.l2.cell (1#4 <<< (s % sectorChunckSize)) = cfg.l2.cell q.mask →
      cfg.HoldsSector (units q.partitionId q.localId) s ∨
        Overlaps dst count s ∧ cfg.Belongs q.partitionId q.localId s

/-- Every call of the copy is ready on the slices that it finds. -/
def AllReady (cfg : MemcpyConfig) (time : Nat) (units : Nat → Nat → L2Slice) (dst count : Nat) : Prop :=
  ∀ fuel requests, cfg.memcpyRequests fuel dst count = some (.ok requests) →
    ∀ earlier q later before, requests = earlier ++ q :: later →
      cfg.perfMemcpyToGpu time units earlier = .ok before → cfg.Ready before dst count q

/-! ## One step -/

variable {cfg : MemcpyConfig} {dst count counter fuel k s : Nat} {q : FillRequest} {requests : List FillRequest}

theorem memcpyStep_ok (done : cfg.memcpyStep dst counter = .ok q) :
    q.addr = (dst + counter) % 2 ^ 32 ∧ q.mask = 1#4 <<< (q.addr % maxMemoryAccessSize / sectorSize) ∧
      cfg.subPartitionOf q.addr = .ok (cfg.subPartitionId q) := by
  obtain ⟨raw, decoded, done⟩ := bind_ok.mp done
  cases done
  refine ⟨rfl, rfl, map_ok.mpr ⟨raw, decoded, ?_⟩⟩
  have whole := Nat.div_mul_le_self raw.subPartition cfg.addressMapping.nSubPartitionInChannel
  simp only [subPartitionId]
  omega

theorem memcpyStep_succeeds {p : Nat} (decoded : cfg.subPartitionOf ((dst + counter) % 2 ^ 32) = .ok p) :
    ∃ q, cfg.memcpyStep dst counter = .ok q := by
  obtain ⟨raw, decoded, -⟩ := map_ok.mp decoded
  exact ⟨_, bind_ok.mpr ⟨raw, decoded, rfl⟩⟩

theorem getLsbD_oneHot {i j : Nat} (inside : i < sectorChunckSize) : (1#4 <<< j).getLsbD i = decide (i = j) := by
  have small : i < 4 := inside
  rw [BitVec.getLsbD_shiftLeft]
  by_cases same : i = j
  · subst same
    simp [small]
  · by_cases below : i < j
    · simp [below, same]
    · have other : i - j ≠ 0 := by omega
      simp [BitVec.getLsbD_one, other, same]

/-- The mask is recomputed from the address, so a call fills the one sector of its address. -/
theorem fills_iff (done : cfg.memcpyStep dst counter = .ok q) : q.Fills s ↔ s = q.addr / sectorSize := by
  obtain ⟨-, masked, -⟩ := memcpyStep_ok done
  have inside : q.addr % maxMemoryAccessSize / sectorSize < sectorChunckSize := by
    simp only [maxMemoryAccessSize, sectorSize, sectorChunckSize]
    omega
  have whole : q.addr / maxMemoryAccessSize * sectorChunckSize + q.addr % maxMemoryAccessSize / sectorSize =
      q.addr / sectorSize := by
    simp only [maxMemoryAccessSize, sectorSize, sectorChunckSize]
    omega
  constructor
  · rintro ⟨i, small, named, rfl⟩
    rw [masked, getLsbD_oneHot small, decide_eq_true_eq] at named
    rw [named, whole]
  · rintro rfl
    refine ⟨_, inside, ?_, whole.symm⟩
    rw [masked, getLsbD_oneHot inside, decide_eq_true_eq]

theorem handleMemcpyToGpu_other {time p l : Nat} {units next : Nat → Nat → L2Slice}
    (done : cfg.handleMemcpyToGpu time units q = .ok next) (other : (p, l) ≠ (q.partitionId, q.localId)) :
    next p l = units p l := by
  obtain ⟨slice, -, done⟩ := bind_ok.mp done
  cases done
  by_cases same : p = q.partitionId
  · subst same
    have elsewhere : l ≠ q.localId := fun equal => other (by rw [equal])
    simp [elsewhere]
  · simp [same]

/-- What a call does to its slice: one cell of the line of its block is filled. -/
structure Handled (cfg : MemcpyConfig) (q : FillRequest) (slice next : L2Slice) (i c : Nat) : Prop where
  cell : cfg.l2.cell q.mask = .ok c
  elsewhere : ∀ j, j ≠ i → next.tags.view j = slice.tags.view j
  at_tag : (next.tags.view i).tag = cfg.l2.tag q.addr
  filled : (next.tags.view i).status c = .valid ∨ (next.tags.view i).status c = .modified
  kept : ∀ d, d ≠ c → (next.tags.view i).status d = .valid ∨ (next.tags.view i).status d = .modified →
    (slice.tags.view i).tag = cfg.l2.tag q.addr ∧ (slice.tags.view i).status d = (next.tags.view i).status d

theorem cell_step (done : cfg.memcpyStep dst counter = .ok q) : ∃ c, cfg.l2.cell q.mask = .ok c := by
  rw [(memcpyStep_ok done).2.1]
  refine cfg.l2.cell_oneHot ?_
  simp only [maxMemoryAccessSize, sectorSize, sectorChunckSize]
  omega

/-- The fill finds or makes the line of the address. -/
theorem handleMemcpyToGpu_ok {time : Nat} {units next : Nat → Nat → L2Slice} (done : cfg.memcpyStep dst counter = .ok q)
    (typed : ∀ p l, (units p l).tags.Typed cfg.l2) (handled : cfg.handleMemcpyToGpu time units q = .ok next) :
    (∀ p l, (next p l).tags.Typed cfg.l2) ∧
      (∃ status i, (units q.partitionId q.localId).tags.probe cfg.l2 q.addr q.masked false = .ok (status, some i)) ∧
      ∃ i c, cfg.Handled q (units q.partitionId q.localId) (next q.partitionId q.localId) i c := by
  have other := fun {p l} => handleMemcpyToGpu_other (p := p) (l := l) handled
  obtain ⟨slice, updated, handled⟩ := bind_ok.mp handled
  cases handled
  obtain ⟨tags, filled, updated⟩ := bind_ok.mp updated
  cases updated
  obtain ⟨c, cell⟩ := cell_step done
  obtain ⟨i, status, found, probed, is_typed, view⟩ := TagArray.fillAddr_ok (typed q.partitionId q.localId) cell filled
  have here : (Function.update units q.partitionId (Function.update (units q.partitionId) q.localId
      ⟨tags, toUnsigned ((units q.partitionId q.localId).memcpyCycleOffset + 1)⟩) q.partitionId q.localId).tags =
        tags := by
    simp
  refine ⟨fun p l => ?_, ⟨status, i, found⟩, i, c, cell, fun j apart => ?_, ?_, ?_, fun d apart present => ?_⟩
  · by_cases same : (p, l) = (q.partitionId, q.localId)
    · obtain ⟨rfl, rfl⟩ := Prod.mk.inj same
      rw [here]
      exact is_typed
    · rw [other same]
      exact typed p l
  · rw [here, view, Function.update_of_ne apart]
  · rw [here, view, Function.update_self]
    cases probed with
    | hitReserved _ at_tag => exact at_tag
    | hit _ at_tag => exact at_tag
    | sectorMiss _ at_tag => exact at_tag
    | miss => rfl
  · rw [here, view, Function.update_self]
    simp only [Sectors.fill, Sectors.setStatus, Function.update_self]
    split_ifs
    · exact .inr rfl
    · exact .inl rfl
  · rw [here, view, Function.update_self] at present ⊢
    cases probed with
    | hitReserved _ at_tag => exact ⟨at_tag, by simp [Sectors.fill, Sectors.setStatus, TagArray.readied, apart]⟩
    | hit _ at_tag => exact ⟨at_tag, by simp [Sectors.fill, Sectors.setStatus, TagArray.readied, apart]⟩
    | sectorMiss _ at_tag =>
        exact ⟨at_tag, by simp [Sectors.fill, Sectors.setStatus, TagArray.readied, Sectors.addSector, apart]⟩
    | miss => simp [Sectors.fill, Sectors.setStatus, TagArray.readied, Sectors.allocated, apart] at present

theorem handleMemcpyToGpu_succeeds {time : Nat} {units : Nat → Nat → L2Slice}
    (done : cfg.memcpyStep dst counter = .ok q) (typed : ∀ p l, (units p l).tags.Typed cfg.l2)
    (line : ∃ status i,
      (units q.partitionId q.localId).tags.probe cfg.l2 q.addr q.masked false = .ok (status, some i)) :
    ∃ next, cfg.handleMemcpyToGpu time units q = .ok next := by
  obtain ⟨c, cell⟩ := cell_step done
  obtain ⟨status, i, probed⟩ := line
  obtain ⟨tags, filled⟩ := TagArray.fillAddr_succeeds
    (toUnsigned ((units q.partitionId q.localId).memcpyCycleOffset + time)) (typed _ _) cell probed
  exact ⟨_, bind_ok.mpr ⟨_, bind_ok.mpr ⟨tags, filled, rfl⟩, rfl⟩⟩

/-- The sectors that the slice of a call holds after it. -/
theorem holds_handled {slice next : L2Slice} {i c : Nat} (handled : cfg.Handled q slice next i c) :
    cfg.HoldsSector next s → cfg.HoldsSector slice s ∨ cfg.l2.tag (s * sectorSize) = cfg.l2.tag q.addr ∧
      cfg.l2.cell (1#4 <<< (s % sectorChunckSize)) = cfg.l2.cell q.mask := by
  rintro ⟨j, d, cell, at_tag, present⟩
  by_cases same : j = i
  · subst same
    have tags := at_tag.symm.trans handled.at_tag
    by_cases one : d = c
    · subst one
      exact .inr ⟨tags, cell.trans handled.cell.symm⟩
    · obtain ⟨tag, status⟩ := handled.kept d one present
      exact .inl ⟨j, d, cell, tag.trans tags.symm, status ▸ present⟩
  · rw [handled.elsewhere j same] at at_tag present
    exact .inl ⟨j, d, cell, at_tag, present⟩

theorem Handled.holds {slice next : L2Slice} {i c addr : Nat} {mask : BitVec 4} (handled : cfg.Handled q slice next i c)
    (tags : cfg.l2.tag addr = cfg.l2.tag q.addr) (cells : cfg.l2.cell mask = cfg.l2.cell q.mask) :
    cfg.Holds next addr mask :=
  ⟨i, c, cells.trans handled.cell, handled.at_tag.trans tags.symm, handled.filled⟩

/-! ## The loop -/

theorem counter_lt_iff : k * sectorSize < count ↔ k < steps count := by
  simp only [steps, sectorSize]
  omega

/-- The counter wraps around before it reaches such a count. -/
theorem memcpyLoop_diverges (large : 2 ^ 32 - sectorSize < count) (inside : k < 2 ^ 27) :
    cfg.memcpyLoop dst count fuel (k * sectorSize) ≠ some (.ok requests) := by
  induction fuel generalizing k requests with
  | zero => simp [memcpyLoop]
  | succ fuel ih =>
      have below : k * sectorSize < count := by
        simp only [sectorSize] at large ⊢
        omega
      have wraps : (k * sectorSize + sectorSize) % 2 ^ 32 = (k + 1) % 2 ^ 27 * sectorSize := by
        simp only [sectorSize]
        omega
      simp only [memcpyLoop, below, if_true, wraps]
      cases step : cfg.memcpyStep dst (k * sectorSize) with
      | error fault => simp
      | ok q =>
          intro done
          obtain ⟨later, looped, done⟩ := Option.map_eq_some_iff.mp done
          obtain ⟨rest, rfl, -⟩ := map_ok.mp done
          exact ih (Nat.mod_lt _ (by decide)) looped

theorem counter_next (small : count ≤ 2 ^ 32 - sectorSize) (below : k * sectorSize < count) :
    (k * sectorSize + sectorSize) % 2 ^ 32 = (k + 1) * sectorSize := by
  simp only [sectorSize] at small below ⊢
  omega

/-- The calls of a loop that ends are those of its steps. -/
theorem memcpyLoop_ok (small : count ≤ 2 ^ 32 - sectorSize)
    (done : cfg.memcpyLoop dst count fuel (k * sectorSize) = some (.ok requests)) :
    (∀ j, k ≤ j → j < steps count → ∃ q ∈ requests, cfg.memcpyStep dst (j * sectorSize) = .ok q) ∧
      ∀ q ∈ requests, ∃ j, k ≤ j ∧ j < steps count ∧ cfg.memcpyStep dst (j * sectorSize) = .ok q := by
  induction fuel generalizing k requests with
  | zero => simp [memcpyLoop] at done
  | succ fuel ih =>
      simp only [memcpyLoop] at done
      split_ifs at done with below
      · rw [counter_next small below] at done
        cases step : cfg.memcpyStep dst (k * sectorSize) with
        | error fault => simp [step] at done
        | ok q =>
            simp only [step] at done
            obtain ⟨later, looped, done⟩ := Option.map_eq_some_iff.mp done
            obtain ⟨rest, rfl, rfl⟩ := map_ok.mp done
            obtain ⟨made, only⟩ := ih looped
            constructor
            · intro j from_k inside
              rcases Nat.eq_or_lt_of_le from_k with rfl | later
              · exact ⟨q, List.mem_cons_self, step⟩
              · obtain ⟨r, within, stepped⟩ := made j later inside
                exact ⟨r, List.mem_cons_of_mem _ within, stepped⟩
            · intro r within
              rcases List.mem_cons.mp within with rfl | within
              · exact ⟨k, le_rfl, counter_lt_iff.mp below, step⟩
              · obtain ⟨j, from_k, inside, stepped⟩ := only r within
                exact ⟨j, by omega, inside, stepped⟩
      · cases done
        have ended : ¬ k < steps count := fun inside => below (counter_lt_iff.mpr inside)
        exact ⟨fun j from_k inside => absurd (lt_of_le_of_lt from_k inside) ended, by simp⟩

theorem memcpyLoop_ends (small : count ≤ 2 ^ 32 - sectorSize) (within : k ≤ steps count)
    (decodes : ∀ j, k ≤ j → j < steps count → ∃ q, cfg.memcpyStep dst (j * sectorSize) = .ok q)
    (enough : steps count < fuel + k) :
    ∃ requests, cfg.memcpyLoop dst count fuel (k * sectorSize) = some (.ok requests) := by
  induction fuel generalizing k with
  | zero => omega
  | succ fuel ih =>
      simp only [memcpyLoop]
      split_ifs with below
      · have inside := counter_lt_iff.mp below
        obtain ⟨q, step⟩ := decodes k le_rfl inside
        obtain ⟨rest, looped⟩ := ih (k := k + 1) (by omega) (fun j later => decodes j (by omega)) (by omega)
        rw [counter_next small below, step, looped]
        exact ⟨q :: rest, rfl⟩
      · exact ⟨[], rfl⟩

/-- However much fuel there is, the calls are the same. -/
theorem memcpyLoop_unique {fuel' : Nat} {calls calls' : Except AddrdecFault (List FillRequest)}
    (done : cfg.memcpyLoop dst count fuel counter = some calls)
    (done' : cfg.memcpyLoop dst count fuel' counter = some calls') : calls = calls' := by
  induction fuel generalizing fuel' counter calls calls' with
  | zero => simp [memcpyLoop] at done
  | succ fuel ih =>
      cases fuel' with
      | zero => simp [memcpyLoop] at done'
      | succ fuel' =>
          simp only [memcpyLoop] at done done'
          split_ifs at done done' with below
          · cases step : cfg.memcpyStep dst counter with
            | error fault =>
                simp only [step] at done done'
                exact Option.some.inj (done.symm.trans done')
            | ok q =>
                simp only [step] at done done'
                obtain ⟨rest, looped, rfl⟩ := Option.map_eq_some_iff.mp done
                obtain ⟨rest', looped', rfl⟩ := Option.map_eq_some_iff.mp done'
                rw [ih looped looped']
          · exact Option.some.inj (done.symm.trans done')

theorem memcpyRequests_unique {fuel' : Nat} {requests' : List FillRequest}
    (done : cfg.memcpyRequests fuel dst count = some (.ok requests))
    (done' : cfg.memcpyRequests fuel' dst count = some (.ok requests')) : requests = requests' := by
  unfold memcpyRequests at done done'
  split_ifs at done done'
  · exact Except.ok.inj (memcpyLoop_unique done done')
  · exact Except.ok.inj (Option.some.inj (done.symm.trans done'))

/-! ## When the copy is exact -/

variable {time : Nat} {units before : Nat → Nat → L2Slice}

theorem perfMemcpyToGpu_append (cfg : MemcpyConfig) (time : Nat) (units : Nat → Nat → L2Slice)
    (earlier later : List FillRequest) : cfg.perfMemcpyToGpu time units (earlier ++ later) =
      cfg.perfMemcpyToGpu time units earlier >>= fun before => cfg.perfMemcpyToGpu time before later :=
  List.foldlM_append

theorem perfMemcpyToGpu_typed (steps : ∀ q ∈ requests, ∃ counter, cfg.memcpyStep dst counter = .ok q)
    (typed : ∀ p l, (units p l).tags.Typed cfg.l2) (done : cfg.perfMemcpyToGpu time units requests = .ok before) :
    ∀ p l, (before p l).tags.Typed cfg.l2 := by
  induction requests generalizing units with
  | nil =>
      cases done
      exact typed
  | cons q rest ih =>
      simp only [perfMemcpyToGpu, List.foldlM_cons] at done
      obtain ⟨middle, first, later⟩ := bind_ok.mp done
      obtain ⟨counter, step⟩ := steps q (by simp)
      exact ih (fun r within => steps r (by simp [within])) (handleMemcpyToGpu_ok step typed first).1 later

/-- Calls that are ready succeed. -/
theorem perfMemcpyToGpu_succeeds (steps : ∀ q ∈ requests, ∃ counter, cfg.memcpyStep dst counter = .ok q)
    (typed : ∀ p l, (units p l).tags.Typed cfg.l2)
    (ready : ∀ earlier q later before, requests = earlier ++ q :: later →
      cfg.perfMemcpyToGpu time units earlier = .ok before → cfg.Ready before dst count q) :
    ∃ after, cfg.perfMemcpyToGpu time units requests = .ok after := by
  induction requests using List.reverseRecOn with
  | nil => exact ⟨units, rfl⟩
  | append_singleton earlier q ih =>
      have earlierSteps : ∀ r ∈ earlier, ∃ counter, cfg.memcpyStep dst counter = .ok r :=
        fun r within => steps r (by simp [within])
      obtain ⟨before, done⟩ := ih earlierSteps fun front r back middle split reached =>
        ready front r (back ++ [q]) middle (by simp [split]) reached
      obtain ⟨counter, step⟩ := steps q (by simp)
      obtain ⟨after, handled⟩ := handleMemcpyToGpu_succeeds step (perfMemcpyToGpu_typed earlierSteps typed done)
        (ready earlier q [] before rfl done).line
      have one : cfg.perfMemcpyToGpu time before [q] = .ok after := bind_ok.mpr ⟨after, handled, rfl⟩
      exact ⟨after, by rw [perfMemcpyToGpu_append, done]; exact one⟩

theorem subPartitionId_step (done : cfg.memcpyStep dst counter = .ok q) (fits : dst + counter < 2 ^ 32) :
    q.addr = dst + counter ∧ cfg.subPartitionOf (dst + counter) = .ok (cfg.subPartitionId q) := by
  obtain ⟨addr, -, decoded⟩ := memcpyStep_ok done
  rw [Nat.mod_eq_of_lt fits] at addr
  exact ⟨addr, addr ▸ decoded⟩

/-- A copy that is covered ends, and its calls are those for its sectors. -/
theorem Covers.copies (covers : cfg.Covers dst count) : ∃ fuel requests,
    cfg.memcpyRequests fuel dst count = some (.ok requests) ∧
      (∀ s, Overlaps dst count s → ∃ q ∈ requests, q.Fills s) ∧
      ∀ q ∈ requests, (∃ counter, cfg.memcpyStep dst counter = .ok q) ∧ ∀ s, q.Fills s →
        Overlaps dst count s ∧ cfg.subPartitionOf (s * sectorSize) = .ok (cfg.subPartitionId q) := by
  rcases covers with rfl | ⟨enabled, small, low, whole, agrees⟩
  · refine ⟨1, [], ?_, ?_, by simp⟩
    · simp [memcpyRequests, memcpyLoop]
    · rintro s ⟨byte, from_dst, below, -⟩
      omega
  have fits : ∀ j < steps count, dst + j * sectorSize < 2 ^ 32 := by
    intro j inside
    have below := counter_lt_iff.mpr inside
    omega
  obtain ⟨requests, looped⟩ := @memcpyLoop_ends cfg dst count (steps count + 1) 0 small (Nat.zero_le _)
    (fun j _ inside => by
      obtain ⟨p, decoded, -⟩ := agrees j inside
      exact memcpyStep_succeeds (by rwa [Nat.mod_eq_of_lt (fits j inside)])) (by omega)
  obtain ⟨made, only⟩ := memcpyLoop_ok small looped
  refine ⟨steps count + 1, requests, ?_, ?_, ?_⟩
  · rw [Nat.zero_mul] at looped
    simp only [memcpyRequests, enabled, if_true, looped]
  · rintro s ⟨byte, from_dst, below, rfl⟩
    have inside : byte / sectorSize - dst / sectorSize < steps count := by
      rw [← whole]
      simp only [steps, sectorSize]
      omega
    obtain ⟨q, within, step⟩ := made _ (Nat.zero_le _) inside
    obtain ⟨addr, -⟩ := subPartitionId_step step (fits _ inside)
    refine ⟨q, within, (fills_iff step).mpr ?_⟩
    rw [addr]
    simp only [sectorSize]
    omega
  · intro q within
    obtain ⟨j, -, inside, step⟩ := only q within
    refine ⟨⟨_, step⟩, ?_⟩
    intro s filled
    obtain ⟨addr, decoded⟩ := subPartitionId_step step (fits j inside)
    obtain ⟨p, there, base⟩ := agrees j inside
    have at_addr := (fills_iff step).mp filled
    rw [addr] at at_addr
    subst at_addr
    have below := counter_lt_iff.mpr inside
    refine ⟨⟨dst + j * sectorSize, by omega, by omega, rfl⟩, ?_⟩
    rw [base, ← there, decoded]

/-- What a ready call puts into its slice is there to stay, and nothing else is. -/
theorem Ready.lands {after : Nat → Nat → L2Slice} (ready : cfg.Ready before dst count q)
    (step : cfg.memcpyStep dst counter = .ok q) (typed : ∀ p l, (before p l).tags.Typed cfg.l2)
    (handled : cfg.handleMemcpyToGpu time before q = .ok after) :
    cfg.Holds (after q.partitionId q.localId) q.addr q.mask ∧
      ∀ p l s, s * sectorSize < 2 ^ 64 → cfg.HoldsSector (after p l) s →
        cfg.HoldsSector (before p l) s ∨ Overlaps dst count s ∧ cfg.Belongs p l s := by
  obtain ⟨-, -, i, c, filled⟩ := handleMemcpyToGpu_ok step typed handled
  refine ⟨filled.holds rfl rfl, fun p l s inside holds => ?_⟩
  by_cases same : (p, l) = (q.partitionId, q.localId)
  · obtain ⟨rfl, rfl⟩ := Prod.mk.inj same
    rcases holds_handled filled holds with held | ⟨tags, cells⟩
    · exact .inl held
    · exact ready.shared s inside tags cells
  · rw [handleMemcpyToGpu_other handled same] at holds
    exact .inl holds

theorem Covers.fillsExactly (covers : cfg.Covers dst count) (typed : ∀ p l, (units p l).tags.Typed cfg.l2)
    (ready : cfg.AllReady time units dst count) : cfg.FillsExactly time units dst count := by
  obtain ⟨fuel, requests, done, every, own⟩ := covers.copies
  refine ⟨fuel, requests, done, ?_, every, fun q within => (own q within).2, ?_⟩
  · exact perfMemcpyToGpu_succeeds (fun q within => (own q within).1) typed (ready fuel requests done)
  · intro earlier q later before after split reached handled
    have steps : ∀ r ∈ earlier, ∃ counter, cfg.memcpyStep dst counter = .ok r :=
      fun r within => (own r (by simp [split, within])).1
    obtain ⟨counter, step⟩ := (own q (by simp [split])).1
    exact (ready fuel requests done earlier q later before split reached).lands step
      (perfMemcpyToGpu_typed steps typed reached) handled

theorem FillsExactly.covers (exact : cfg.FillsExactly time units dst count) : cfg.Covers dst count := by
  obtain ⟨fuel, requests, done, -, every, only, -⟩ := exact
  by_cases empty : count = 0
  · exact Or.inl empty
  have enabled : cfg.perfSimMemcpy = true := by
    by_contra off
    simp only [memcpyRequests, off] at done
    cases done
    obtain ⟨q, within, -⟩ := every (dst / sectorSize) ⟨dst, le_rfl, by omega, rfl⟩
    simp at within
  simp only [memcpyRequests, enabled, if_true] at done
  rw [← Nat.zero_mul sectorSize] at done
  have small : count ≤ 2 ^ 32 - sectorSize := by
    by_contra large
    exact memcpyLoop_diverges (by omega) (by decide) done
  obtain ⟨made, steppers⟩ := memcpyLoop_ok small done
  -- the last byte of the destination is in a sector that some step fills
  have low : dst + count ≤ 2 ^ 32 := by
    by_contra high
    obtain ⟨q, within, filled⟩ := every ((dst + count - 1) / sectorSize) ⟨_, by omega, by omega, rfl⟩
    obtain ⟨j, -, -, step⟩ := steppers q within
    have at_addr := (fills_iff step).mp filled
    have wraps := (memcpyStep_ok step).1
    have below : q.addr < 2 ^ 32 := wraps ▸ Nat.mod_lt _ (by decide)
    simp only [sectorSize] at at_addr
    omega
  have fits : ∀ j < steps count, dst + j * sectorSize < 2 ^ 32 := by
    intro j inside
    have below := counter_lt_iff.mpr inside
    omega
  refine Or.inr ⟨enabled, small, low, ?_, ?_⟩
  · by_contra short
    have more : steps count < steps (dst % sectorSize + count) := by
      simp only [steps, sectorSize] at short ⊢
      omega
    have beyond : (dst / sectorSize + steps count) * sectorSize < dst + count := by
      simp only [steps, sectorSize] at more ⊢
      omega
    have after : dst ≤ (dst / sectorSize + steps count) * sectorSize := by
      simp only [steps, sectorSize]
      omega
    obtain ⟨q, within, filled⟩ :=
      every (dst / sectorSize + steps count) ⟨_, after, beyond, Nat.mul_div_cancel _ (by decide)⟩
    obtain ⟨j, -, inside, step⟩ := steppers q within
    have at_addr := (fills_iff step).mp filled
    rw [(subPartitionId_step step (fits j inside)).1] at at_addr
    simp only [sectorSize] at at_addr
    omega
  · intro j inside
    obtain ⟨q, within, step⟩ := made j (Nat.zero_le _) inside
    obtain ⟨addr, decoded⟩ := subPartitionId_step step (fits j inside)
    have filled := (fills_iff step).mpr rfl
    rw [addr] at filled
    exact ⟨cfg.subPartitionId q, decoded, (only q within _ filled).2⟩

theorem FillsExactly.allReady (exact : cfg.FillsExactly time units dst count)
    (typed : ∀ p l, (units p l).tags.Typed cfg.l2) : cfg.AllReady time units dst count := by
  obtain ⟨_, copies, copied, -, own⟩ := exact.covers.copies
  obtain ⟨fuel, requests, done, ⟨last, whole⟩, -, -, lands⟩ := exact
  intro fuel' requests' done' earlier q later before split reached
  obtain rfl := memcpyRequests_unique done done'
  obtain rfl := memcpyRequests_unique done copied
  have is_typed := perfMemcpyToGpu_typed (fun r within => (own r (by simp [split, within])).1) typed reached
  obtain ⟨counter, step⟩ := (own q (by simp [split])).1
  rw [split, perfMemcpyToGpu_append, reached] at whole
  obtain ⟨middle, handled, -⟩ : ∃ middle, cfg.handleMemcpyToGpu time before q = .ok middle ∧
      cfg.perfMemcpyToGpu time middle later = .ok last := bind_ok.mp whole
  obtain ⟨-, line, i, c, filled⟩ := handleMemcpyToGpu_ok step is_typed handled
  refine ⟨line, fun s inside tags cells => ?_⟩
  exact (lands earlier q later before middle split reached handled).2 _ _ s inside (filled.holds tags cells)

/-- A copy ends and fills exactly the sectors that its destination overlaps if and only if it is covered and its
calls find the slices ready. -/
theorem perfMemcpyToGpu_fills_iff (cfg : MemcpyConfig) (time : Nat) (units : Nat → Nat → L2Slice) (dst count : Nat)
    (typed : ∀ p l, (units p l).tags.Typed cfg.l2) :
    cfg.FillsExactly time units dst count ↔ cfg.Covers dst count ∧ cfg.AllReady time units dst count := by
  constructor
  · exact fun exact => ⟨exact.covers, exact.allReady typed⟩
  · rintro ⟨covers, ready⟩
    exact covers.fillsExactly typed ready

/-- In a sectored cache of 128-byte lines no two sectors share a cell, so that a call only needs a line. -/
theorem ready_of_sectored (sectored : cfg.l2.cacheType = .sector) (lines : cfg.l2.lineSize = 128)
    (step : cfg.memcpyStep dst counter = .ok q)
    (own : ∀ s, q.Fills s → Overlaps dst count s ∧ cfg.subPartitionOf (s * sectorSize) = .ok (cfg.subPartitionId q))
    (line : ∃ status i,
      (before q.partitionId q.localId).tags.probe cfg.l2 q.addr q.masked false = .ok (status, some i)) :
    cfg.Ready before dst count q := by
  refine ⟨line, fun s inside tags cells => .inr (own s ((fills_iff step).mpr ?_))⟩
  obtain ⟨addr, masked, -⟩ := memcpyStep_ok step
  have tag {x : Nat} (small : x < 2 ^ 64) : cfg.l2.tag x = x / 128 * 128 := by
    rw [CacheConfig.tag, CacheConfig.align, lines]
    have parts := Words.and_two_pow_sub_two_pow x (k := 7) (w := 64) (by decide)
    rw [Nat.mod_eq_of_lt small] at parts
    exact parts
  have small : q.addr < 2 ^ 32 := addr ▸ Nat.mod_lt _ (by decide)
  have below : s % sectorChunckSize < sectorChunckSize := Nat.mod_lt _ (by decide)
  have within : q.addr % maxMemoryAccessSize / sectorSize < sectorChunckSize := by
    simp only [maxMemoryAccessSize, sectorSize, sectorChunckSize]
    omega
  rw [tag inside, tag (by omega)] at tags
  rw [masked, CacheConfig.cell, CacheConfig.cell, sectored] at cells
  simp only [getSectorIndex_oneHot below, getSectorIndex_oneHot within, Except.ok.injEq] at cells
  simp only [sectorSize, sectorChunckSize, maxMemoryAccessSize] at tags cells ⊢
  omega

/-- Two channels that bit 8 selects. -/
def twoChannels : MemcpyConfig where
  perfSimMemcpy := true
  addressMapping :=
    { addrChipS := 8
      mask := { chip := 2 ^ 8, bk := 0, row := 2 ^ 16, col := 2 ^ 7, burst := 0 }
      gap := 0
      nChannel := 2
      nSubPartitionInChannel := 1
      log2channel := 1
      log2subPartition := 0
      nextPowerOf2NChannel := 2
      memoryPartitionIndexing := .consecutive }
  l2 :=
    { cacheType := .sector
      nset := 2
      lineSize := 128
      assoc := 2
      replacementPolicy := .lru
      writePolicy := .writeBack
      allocPolicy := .onMiss
      isStreaming := false
      mshrType := .assoc
      mshrEntries := 4
      mshrMaxMerge := 4
      missQueueSize := 4
      dataPortWidth := 32
      setIndex := fun addr => addr / 128 % 2 }

def fresh (cfg : MemcpyConfig) : Nat → Nat → L2Slice := fun _ _ => ⟨.create cfg.l2, 0⟩

/-- Two sectors from an unaligned start, the second one in the other channel. -/
theorem perfMemcpyToGpu_fills_two : twoChannels.FillsExactly 0 twoChannels.fresh 240 40 := by
  have typed : ∀ p l, (twoChannels.fresh p l).tags.Typed twoChannels.l2 := fun _ _ => .create _
  have covers : twoChannels.Covers 240 40 := by
    refine .inr ⟨rfl, by decide, by decide, by decide, fun k inside => ?_⟩
    obtain rfl | rfl : k = 0 ∨ k = 1 := by
      simp only [steps, sectorSize] at inside
      omega
    · exact ⟨0, rfl, rfl⟩
    · exact ⟨1, rfl, rfl⟩
  refine (perfMemcpyToGpu_fills_iff twoChannels 0 twoChannels.fresh 240 40 typed).mpr ⟨covers, ?_⟩
  intro fuel requests done earlier q later before split reached
  obtain ⟨_, copies, copied, -, own⟩ := covers.copies
  have calls : twoChannels.memcpyRequests 3 240 40 = some (.ok [⟨0, 0, 240, 8#4⟩, ⟨1, 0, 272, 1#4⟩]) := rfl
  obtain rfl := memcpyRequests_unique copied done
  obtain ⟨⟨counter, step⟩, fills⟩ := own q (by simp [split])
  refine ready_of_sectored rfl rfl step fills ?_
  rw [memcpyRequests_unique copied calls] at split
  rcases earlier with _ | ⟨first, earlier⟩
  · cases split
    cases reached
    exact ⟨.miss, 3, rfl⟩
  · obtain ⟨rfl, split⟩ := List.cons.inj split
    obtain rfl : earlier = [] := by
      rcases earlier with _ | ⟨second, earlier⟩
      · rfl
      · simp at split
    cases split
    obtain ⟨_, handled, ⟨⟩⟩ := bind_ok.mp reached
    rw [handleMemcpyToGpu_other handled (by decide)]
    exact ⟨.miss, 1, rfl⟩

/-- The same channels with unsectored lines. -/
def unsectored : MemcpyConfig := { twoChannels with l2 := { twoChannels.l2 with cacheType := .normal } }

/-- An unaligned start loses the last sector, a start above 32 bits is cut off, a copy of 4 GiB does not end, and
an unsectored line shows three sectors that were not copied. -/
theorem unaligned_copy_not_exact : ¬ twoChannels.FillsExactly 0 twoChannels.fresh 16 32 ∧
    ¬ twoChannels.FillsExactly 0 twoChannels.fresh (2 ^ 32) 32 ∧
    ¬ twoChannels.FillsExactly 0 twoChannels.fresh 0 (2 ^ 32) ∧
    ¬ unsectored.FillsExactly 0 unsectored.fresh 0 32 := by
  refine ⟨?_, ?_, ?_, ?_⟩
  · intro exact
    rcases exact.covers with empty | ⟨-, -, -, whole, -⟩
    · contradiction
    · revert whole
      decide
  · intro exact
    rcases exact.covers with empty | ⟨-, -, low, -⟩
    · contradiction
    · omega
  · intro exact
    rcases exact.covers with empty | ⟨-, small, -⟩
    · omega
    · simp only [sectorSize] at small
      omega
  · intro exact
    have calls : unsectored.memcpyRequests 2 0 32 = some (.ok [⟨0, 0, 0, 1#4⟩]) := rfl
    have ready := exact.allReady (fun _ _ => .create _) 2 _ calls [] _ [] unsectored.fresh rfl rfl
    rcases ready.shared 1 (by decide) (by decide) rfl with ⟨i, c, -, -, held⟩ | ⟨⟨byte, -, below, there⟩, -⟩
    · have empty : ((unsectored.fresh 0 0).tags.view i).status c = .invalid := by
        change Function.update (fun _ => CacheBlockState.invalid) 0 .invalid c = _
        simp
      rw [empty] at held
      simp at held
    · simp only [sectorSize] at there
      omega

end MemcpyConfig

end GpgpuSim.Partition
