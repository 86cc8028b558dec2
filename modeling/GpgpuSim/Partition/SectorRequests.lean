import GpgpuSim.Cache.DirtyData
import Mathlib.Data.List.Perm.Basic

/-! What a sectored L2 makes of a request of several sectors. The size and the sector mask
are decoded by cases; the write-backs of an L1 carry an address and a size only. -/
namespace GpgpuSim.Partition
open GpgpuSim.Memory GpgpuSim.Cache Transition

/-- The first and the last sector that a request of 64 or 128 bytes stands for. -/
def sectorRange (mf : MemFetch) : Except CacheFault (Nat × Nat) :=
  if mf.dataSize = 128 then .ok (0, 3)
  else if mf.sectorMask = 0b1100 then .ok (2, 3)
  else if mf.sectorMask = 0b0011 then .ok (0, 1)
  else if mf.sectorMask = 0b1111 ∨ mf.sectorMask = 0b0000 then
    if mf.addr % 128 = 0 then .ok (0, 1) else .ok (2, 3)
  else .error .assertion

/-- The request for the `i`-th of the sectors from `start` on, a part of request `serial`. The
loop that sets the bytes of the first sector ends at the size of one sector. -/
def sectorRequest (mf : MemFetch) (serial start i : Nat) : MemFetch where
  accessType := mf.accessType
  addr := mf.addr + sectorSize * i
  dataSize := sectorSize
  subPartitionId := mf.subPartitionId
  chip := mf.chip
  sectorMask := BitVec.twoPow 4 (start + i)
  byteMask := mf.byteMask &&&
    Words.setRange 0 (start * sectorSize) (sectorSize - start * sectorSize) <<< (sectorSize * i)
  warpMask := mf.warpMask
  originalMf := some serial

/-- `breakdown_request_to_sector_requests`. -/
def breakdownRequestToSectorRequests (mf : MemFetch) (serial : Nat) : Except CacheFault (List MemFetch) :=
  if mf.dataSize = sectorSize ∧ maskCount mf.sectorMask = 1 then .ok [mf]
  else if mf.dataSize = 128 ∨ mf.dataSize = 64 then do
    let (start, last) ← sectorRange mf
    return (List.range (last + 1 - start)).map (sectorRequest mf serial start)
  else .error .assertion

/-- The parts are writes of exactly these sectors of the block, each once. -/
def Addresses (block : Nat) (sectors : List Nat) (result : Except CacheFault (List MemFetch)) : Prop :=
  ∃ requests, result = .ok requests ∧ (∀ request ∈ requests, request.isWrite) ∧
    (requests.map fun request => (request.addr, request.dataSize, request.sectorMask)).Perm
      (sectors.map fun sector => (block + sectorSize * sector, sectorSize, BitVec.twoPow 4 sector))

/-- The sectors of a line that are modified. -/
def modifiedSectors (line : CacheBlock) : List Nat :=
  (List.range sectorChunckSize).filter fun sector => line.view.status sector == .modified

/-! ## Write-backs -/

variable {mf : MemFetch} {wrbkType : MemAccessType} {block size serial : Nat}

/-- A write-back names no sectors, so its size decides: it is the first two sectors of the
block, all four, or nothing the L2 accepts. -/
theorem breakdown_writeBack (aligned : block % 128 = 0) :
    breakdownRequestToSectorRequests (DataCache.writeBackRequest ⟨block, size⟩ mf wrbkType) serial =
      if size = 128 then
        .ok ((List.range 4).map (sectorRequest (DataCache.writeBackRequest ⟨block, size⟩ mf wrbkType) serial 0))
      else if size = 64 then
        .ok ((List.range 2).map (sectorRequest (DataCache.writeBackRequest ⟨block, size⟩ mf wrbkType) serial 0))
      else .error .assertion := by
  have unnamed : maskCount (DataCache.writeBackRequest ⟨block, size⟩ mf wrbkType).sectorMask ≠ 1 := by
    change maskCount (0 : BitVec 4) ≠ 1
    decide
  unfold breakdownRequestToSectorRequests
  rw [if_neg fun single => unnamed single.2]
  simp only [DataCache.writeBackRequest, sectorRange]
  by_cases all : size = 128
  · simp [all, bind, Except.bind, pure, Except.pure]
  · by_cases half : size = 64
    · simp [half, aligned, bind, Except.bind, pure, Except.pure]
    · simp [all, half]

/-- The parts of a write-back of the first `n` sectors. -/
theorem addresses_writeBack (is_write : wrbkType.isWrite = true) (n : Nat) :
    Addresses block (List.range n)
      (.ok ((List.range n).map (sectorRequest (DataCache.writeBackRequest ⟨block, size⟩ mf wrbkType) serial 0))) := by
  refine ⟨_, rfl, ?_, ?_⟩
  · intro request member
    obtain ⟨i, -, rfl⟩ := List.mem_map.mp member
    exact is_write
  · rw [List.map_map]
    refine List.Perm.of_eq (List.map_congr_left fun i _ => ?_)
    simp [sectorRequest, DataCache.writeBackRequest]

/-- The sectors that a result addresses are determined by it. -/
theorem Addresses.unique {sectors others : List Nat} {result : Except CacheFault (List MemFetch)}
    (one : Addresses block sectors result) (two : Addresses block others result) : sectors.Perm others := by
  obtain ⟨requests, rfl, -, here⟩ := one
  obtain ⟨_, ⟨⟩, -, there⟩ := two
  have same := here.symm.trans there
  have addresses := same.map Prod.fst
  simp only [List.map_map] at addresses
  refine (List.map_perm_map_iff ?_).mp addresses
  intro a b equal
  simp only [Function.comp_apply, sectorSize] at equal
  omega

/-- A write-back of a block survives the trip exactly when the modified sectors are the
first two or all of them. -/
theorem addresses_modified_iff {sectors : List Nat} (aligned : block % 128 = 0) (is_write : wrbkType.isWrite = true)
    (part : sectors.Sublist (List.range sectorChunckSize)) (some_sector : sectors ≠ []) :
    Addresses block sectors (breakdownRequestToSectorRequests
      (DataCache.writeBackRequest ⟨block, sectors.length * sectorSize⟩ mf wrbkType) serial) ↔
      sectors = [0, 1] ∨ sectors = [0, 1, 2, 3] := by
  have nodup := part.nodup List.nodup_range
  have sorted : sectors.Pairwise (· < ·) := List.pairwise_lt_range.sublist part
  rw [breakdown_writeBack aligned]
  constructor
  · intro addresses
    by_cases all : sectors.length * sectorSize = 128
    · rw [if_pos all] at addresses
      right
      have length : sectors.length = 4 := by
        simp only [sectorSize] at all
        omega
      exact part.eq_of_length length
    · rw [if_neg all] at addresses
      by_cases half : sectors.length * sectorSize = 64
      · rw [if_pos half] at addresses
        left
        have same := addresses.unique (addresses_writeBack is_write 2)
        exact same.eq_of_pairwise
          (fun a b _ _ ab ba => absurd (Nat.lt_trans ab ba) (Nat.lt_irrefl a)) sorted (by decide)
      · rw [if_neg half] at addresses
        obtain ⟨requests, broken, -⟩ := addresses
        cases broken
  · rintro (rfl | rfl)
    · exact addresses_writeBack is_write 2
    · exact addresses_writeBack is_write 4


/-! ## Evictions of an L1 data cache -/

section Evictions

open CacheSystem

variable {cfg : DataCacheConfig} {s t : CacheSystem}

theorem getModifiedSize_eq {line : CacheBlock} (typed : line.Typed cfg.toCacheConfig)
    (sectored : cfg.cacheType = .sector) :
    line.getModifiedSize = (modifiedSectors line).length * sectorSize := by
  cases line with
  | line block =>
      rw [show cfg.cacheType = .normal from typed] at sectored
      contradiction
  | sector block => rfl

theorem modifiedSectors_ne_nil {line : CacheBlock} (modified : line.isModifiedLine = true) :
    modifiedSectors line ≠ [] := by
  obtain ⟨c, small, status⟩ := CacheBlock.isModifiedLine_iff.mp modified
  refine List.ne_nil_of_mem (a := c) ?_
  simp [modifiedSectors, small, status]

/-- Every eviction of a modified line queues a write-back, and the L2 takes it for writes of
exactly the modified sectors if and only if these are the first two or all four. -/
theorem evicted_sectors_arrive_iff {pool : MfPool} {history : List CacheMove} {mf : MfId} {time i : Nat}
    {result : AccessResult} (accepted : cfg.Accepted) (sectored : cfg.cacheType = .sector)
    (wrbkType : cfg.wrbkType = .l1WrbkAcc) (through : cfg.writePolicy ≠ .writeThrough)
    (run : Run .data cfg pool history s) (step : Step .data cfg s (.access mf time result) t)
    (replaced : Replaces cfg ⟨s, .access mf time result, t⟩ i)
    (modified : (s.cache.tagArray.lines i).isModifiedLine = true) :
    ∃ wb front, t.cache.missQueue = s.cache.missQueue ++ front ++ [wb] ∧ s.pool.nextSerial ≤ wb.serial ∧
      (Addresses (s.cache.tagArray.lines i).blockAddr (modifiedSectors (s.cache.tagArray.lines i))
          (breakdownRequestToSectorRequests (t.pool.get wb) wb.serial) ↔
        modifiedSectors (s.cache.tagArray.lines i) = [0, 1] ∨
          modifiedSectors (s.cache.tagArray.lines i) = [0, 1, 2, 3]) := by
  have outstanding := Outstanding.run run
  cases step with
  | access presented done =>
      obtain ⟨wb, ⟨front, queued⟩, fresh, fields⟩ := replaced.queues outstanding through presented done modified
      refine ⟨wb, front, queued, fresh, ?_⟩
      dsimp only
      rw [fields, getModifiedSize_eq (outstanding.typed i) sectored]
      have aligned : (s.cache.tagArray.lines i).blockAddr % 128 = 0 := by
        obtain ⟨addr, -, block⟩ := Tagged.run run i
        rw [show (s.cache.tagArray.lines i).blockAddr = cfg.blockAddr addr from
            CacheBlock.view_blockAddr.symm.trans block,
          CacheConfig.blockAddr, accepted.sector sectored]
        exact (congrArg (· % 128) (CacheConfig.align_eq (k := 7) rfl (by decide) addr)).trans (Nat.mul_mod_left _ _)
      refine addresses_modified_iff aligned ?_ List.filter_sublist (modifiedSectors_ne_nil modified)
      rw [wrbkType]
      rfl

/-- A sectored cache of one line. -/
def oneSectorLine : DataCacheConfig := { oneLine .writeBack .fetchOnWrite with cacheType := .sector }

theorem oneSectorLine_accepted : oneSectorLine.Accepted where
  writeBack _ := rfl
  fetch _ := rfl
  streaming := by rintro ⟨⟩
  sector _ := rfl
  port := by simp [oneSectorLine, oneLine]

/-- A write of a whole sector. -/
def sectorWrite (sector : Nat) : MemFetch :=
  { requestTo .globalAccW (sectorSize * sector) with
    sectorMask := BitVec.twoPow 4 sector, byteMask := Words.setRange 0 (sectorSize * sector) sectorSize }

/-- The access by request `mf` replaces the modified line 0. -/
def replacesLine (s : CacheSystem) (mf : MfId) (result : AccessResult) : Bool :=
  tagProbe oneSectorLine s mf == some (.miss, some 0) &&
    (result.cache.tagArray.lines 0).tag != (s.cache.tagArray.lines 0).tag &&
    (s.cache.tagArray.lines 0).isModifiedLine

theorem replaces_of_replacesLine {mf : MfId} {time : Nat} {result : AccessResult}
    (replaced : replacesLine s mf result = true) :
    Replaces oneSectorLine ⟨s, .access mf time result, ⟨result.cache, result.pool⟩⟩ 0 ∧
      (s.cache.tagArray.lines 0).isModifiedLine = true := by
  simp only [replacesLine, Bool.and_eq_true, beq_iff_eq, bne_iff_ne] at replaced
  obtain ⟨⟨probed, changed⟩, modified⟩ := replaced
  refine ⟨⟨mf, time, result, rfl, rfl, ?_, ?_⟩, modified⟩
  · unfold tagProbe at probed
    cases found : s.cache.tagArray.probe oneSectorLine.toCacheConfig
      (oneSectorLine.blockAddr (s.pool.get mf).addr) (s.pool.get mf) false with
    | ok answer =>
        rw [found] at probed
        cases probed
        rfl
    | error fault =>
        rw [found] at probed
        cases probed
  · dsimp only
    intro same
    exact changed (by rw [same])

theorem evicted_half_line_arrives :
    ∃ s t mf result, Step .data oneSectorLine s (.access mf 2 result) t ∧
      ∃ wb front, t.cache.missQueue = s.cache.missQueue ++ front ++ [wb] ∧
        Addresses (s.cache.tagArray.lines 0).blockAddr [0, 1]
          (breakdownRequestToSectorRequests (t.pool.get wb) wb.serial) := by
  have passed : testRun .data oneSectorLine (poolOf [sectorWrite 0, sectorWrite 1, requestTo .globalAccR 128])
      [.access (.request 0) 0, .access (.request 1) 1] (fun _ s =>
        isPresented oneSectorLine s (.request 2) &&
        modifiedSectors (s.cache.tagArray.lines 0) == [0, 1] &&
        succeedsWith (CacheKind.access .data oneSectorLine s.cache s.pool (.request 2) 2)
          (replacesLine s (.request 2))) = true := rfl
  obtain ⟨history, s, run, test⟩ := exists_run passed
  simp only [Bool.and_eq_true, beq_iff_eq] at test
  obtain ⟨⟨presented, sectors⟩, accessed⟩ := test
  obtain ⟨result, done, accessed⟩ := exists_of_succeedsWith accessed
  obtain ⟨replaced, modified⟩ := replaces_of_replacesLine accessed
  have step : Step .data oneSectorLine s (.access (.request 2) 2 result) ⟨result.cache, result.pool⟩ :=
    .access (presented_of_isPresented presented) done
  obtain ⟨wb, front, queued, -, arrives⟩ :=
    evicted_sectors_arrive_iff oneSectorLine_accepted rfl rfl (by decide) run step replaced modified
  rw [sectors] at arrives
  exact ⟨s, _, _, result, step, wb, front, queued, arrives.mpr (.inl rfl)⟩

/-- A line with one modified sector is evicted: its write-back of 32 bytes names no sector. -/
theorem evicted_single_sector_refused :
    ¬ ∀ (cfg : DataCacheConfig) (pool : MfPool) (history : List CacheMove) (s t : CacheSystem) (mf : MfId)
      (time i : Nat)
      (result : AccessResult), cfg.Accepted → cfg.cacheType = .sector → cfg.wrbkType = .l1WrbkAcc →
      cfg.writePolicy ≠ .writeThrough → Run .data cfg pool history s → Step .data cfg s (.access mf time result) t →
      Replaces cfg ⟨s, .access mf time result, t⟩ i → (s.cache.tagArray.lines i).isModifiedLine = true →
      ∃ wb front, t.cache.missQueue = s.cache.missQueue ++ front ++ [wb] ∧ s.pool.nextSerial ≤ wb.serial ∧
        Addresses (s.cache.tagArray.lines i).blockAddr (modifiedSectors (s.cache.tagArray.lines i))
          (breakdownRequestToSectorRequests (t.pool.get wb) wb.serial) := by
  intro claim
  have passed : testRun .data oneSectorLine (poolOf [sectorWrite 0, requestTo .globalAccR 128])
      [.access (.request 0) 0] (fun _ s =>
        isPresented oneSectorLine s (.request 1) &&
        succeedsWith (CacheKind.access .data oneSectorLine s.cache s.pool (.request 1) 1) fun result =>
          replacesLine s (.request 1) result && result.cache.missQueue.getLast?.any fun wb =>
            (breakdownRequestToSectorRequests (result.pool.get wb) wb.serial).toOption == none) = true := rfl
  obtain ⟨history, s, run, test⟩ := exists_run passed
  rw [Bool.and_eq_true] at test
  obtain ⟨presented, accessed⟩ := test
  obtain ⟨result, done, accessed⟩ := exists_of_succeedsWith accessed
  rw [Bool.and_eq_true] at accessed
  obtain ⟨replaced, modified⟩ := replaces_of_replacesLine accessed.1
  obtain ⟨wb, front, queued, -, requests, broken, -⟩ :=
    claim _ _ history s _ _ 1 0 result oneSectorLine_accepted rfl rfl
    (by decide) run (.access (presented_of_isPresented presented) done) replaced modified
  have refused := accessed.2
  rw [show result.cache.missQueue.getLast? = some wb by
    rw [show result.cache.missQueue = _ from queued, List.getLast?_append_of_ne_nil _ (List.cons_ne_nil _ _)]
    rfl] at refused
  dsimp only at broken
  rw [Option.any_some, broken] at refused
  cases refused

end Evictions

end GpgpuSim.Partition
