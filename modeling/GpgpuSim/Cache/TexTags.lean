import GpgpuSim.Cache.TexCache
import GpgpuSim.Cache.Victims

/-! The tags of a texture cache: a line is filled as soon as it is allocated, so none is ever reserved or modified,
every access hits or finds a line to replace, and nothing is written back. -/
namespace GpgpuSim.Cache
open Memory Transition

/-- The time stamp `(unsigned)-1`, which every candidate for replacement has to be below. -/
def noTimestamp : Nat := unsignedSize - 1

/-- A `NORMAL` line that is either empty or there, last used before `noTimestamp`. -/
def CacheBlock.Settled : CacheBlock → Prop
  | line block => (block.status = .invalid ∨ block.status = .valid) ∧ block.setModifiedOnFill = false ∧
      block.allocTime < noTimestamp ∧ block.lastAccessTime < noTimestamp
  | sector _ => False

theorem CacheBlock.Settled.exists_line {block : CacheBlock} (settled : block.Settled) :
    ∃ line : LineCacheBlock, block = .line line ∧ (line.status = .invalid ∨ line.status = .valid) ∧
      line.setModifiedOnFill = false ∧ line.allocTime < noTimestamp ∧ line.lastAccessTime < noTimestamp := by
  cases block with
  | line line => exact ⟨line, rfl, settled⟩
  | sector line => exact settled.elim

theorem CacheBlock.Settled.stamp_lt {block : CacheBlock} (settled : block.Settled) (cfg : CacheConfig) :
    block.stamp cfg < noTimestamp := by
  obtain ⟨line, rfl, -, -, alloc, last⟩ := settled.exists_line
  unfold CacheBlock.stamp
  cases cfg.replacementPolicy with
  | lru => exact last
  | fifo => exact alloc

/-- The block that a line holds. -/
def CacheBlock.resident (block : CacheBlock) : Option Nat := if block.isValidLine then some block.tag else none

theorem CacheBlock.resident_line {line : LineCacheBlock} {tag : Nat} :
    (CacheBlock.line line).resident = some tag ↔ line.status = .valid ∧ line.tag = tag := by
  simp [resident, isValidLine, CacheBlock.tag]

namespace TagArray

variable {cfg : TexCacheConfig} {tags : TagArray} {addr time : Nat} {mf : MemFetch}

def Settled (tags : TagArray) : Prop := ∀ i, (tags.lines i).Settled

def resident (tags : TagArray) (i : Nat) : Option Nat := (tags.lines i).resident

theorem Settled.create (normal : cfg.cacheType = .normal) : (create cfg.toCacheConfig).Settled := by
  intro i
  simp only [TagArray.create, CacheBlock.create, normal]
  exact ⟨.inl rfl, rfl, by decide, by decide⟩

theorem Settled.setLine (settled : tags.Settled) {i : Nat} {block : CacheBlock} (is_settled : block.Settled) :
    (tags.setLine i block).Settled := by
  intro j
  by_cases here : j = i
  · rw [here]
    simpa [TagArray.setLine] using is_settled
  · simpa [TagArray.setLine, here] using settled j

theorem resident_setLine (tags : TagArray) (i : Nat) (block : CacheBlock) :
    (tags.setLine i block).resident = Function.update tags.resident i block.resident := by
  funext j
  by_cases here : j = i
  · simp [resident, TagArray.setLine, here]
  · simp [resident, TagArray.setLine, here]

theorem Settled.typed (settled : tags.Settled) (normal : cfg.cacheType = .normal) : tags.Typed cfg.toCacheConfig := by
  intro i
  obtain ⟨line, is_line, -⟩ := (settled i).exists_line
  rw [is_line]
  exact normal

/-- A way that holds the block ends the loop, if no earlier one does. -/
theorem scanWays_hit (settled : tags.Settled) {tag i : Nat} (mask : BitVec 4) {ways : List Nat} (inside : i ∈ ways)
    (there : tags.resident i = some tag) (scan : ProbeScan) :
    ∃ j, tags.scanWays cfg.toCacheConfig tag mask ways scan = .ok (.inl (.hit, j)) ∧ tags.resident j = some tag := by
  induction ways generalizing scan with
  | nil => cases inside
  | cons j ways ih =>
    obtain ⟨line, is_line, status, -⟩ := (settled j).exists_line
    rw [scanWays, is_line]
    by_cases at_tag : line.tag = tag
    · rcases status with invalid | valid
      · have later : i ∈ ways := by
          rcases List.mem_cons.mp inside with rfl | later
          · rw [resident, is_line, CacheBlock.resident_line, invalid] at there
            cases there.1
          · exact later
        obtain ⟨k, ran, holds⟩ := ih later _
        refine ⟨k, ?_, holds⟩
        simpa [CacheBlock.tag, at_tag, CacheBlock.getStatus, invalid, CacheBlock.isValidLine, bind,
          Except.bind] using ran
      · refine ⟨j, ?_, ?_⟩
        · simp [CacheBlock.tag, at_tag, CacheBlock.getStatus, valid, bind, Except.bind, pure, Except.pure]
        · rw [resident, is_line, CacheBlock.resident_line]
          exact ⟨valid, at_tag⟩
    · have later : i ∈ ways := by
        rcases List.mem_cons.mp inside with rfl | later
        · rw [resident, is_line, CacheBlock.resident_line] at there
          exact absurd there.2 at_tag
        · exact later
      obtain ⟨k, ran, holds⟩ := ih later _
      refine ⟨k, ?_, holds⟩
      rw [if_neg (by simpa [CacheBlock.tag] using at_tag)]
      exact ran

/-- A request for a block that no way of the set holds finds a line to replace. -/
theorem needsLine_of_absent (accepted : cfg.Accepted) (settled : tags.Settled)
    (absent : ∀ i ∈ ways cfg.toCacheConfig (cfg.setIndex addr), tags.resident i ≠ some (cfg.tag addr)) :
    NeedsLine cfg.toCacheConfig tags addr mf where
  inArray := accepted.sets addr
  sector := ⟨0, by simp [CacheConfig.cell, accepted.normal]⟩
  unmatched i member at_tag := by
    obtain ⟨line, is_line, status, -⟩ := (settled i).exists_line
    rw [is_line] at at_tag ⊢
    rcases status with invalid | valid
    · simp [CacheBlock.isInvalidLine, invalid]
    · refine absurd ?_ (absent i member)
      rw [resident, is_line, CacheBlock.resident_line]
      exact ⟨valid, at_tag⟩
  free := by
    refine ⟨cfg.setIndex addr * cfg.assoc, ?_, ?_⟩
    · exact List.mem_map.mpr ⟨0, List.mem_range.mpr accepted.ways, Nat.add_zero _⟩
    · obtain ⟨line, is_line, status, -⟩ := (settled (cfg.setIndex addr * cfg.assoc)).exists_line
      rw [is_line]
      rcases status with status | status <;> simp [CacheBlock.isReservedLine, status]

/-- The probe finds the block, or a line for it. -/
theorem probe_settled (accepted : cfg.Accepted) (settled : tags.Settled) (addr : Nat) (mf : MemFetch) :
    ∃ i, (tags.probe cfg.toCacheConfig addr mf false = .ok (.hit, some i) ∧ tags.resident i = some (cfg.tag addr)) ∨
      tags.probe cfg.toCacheConfig addr mf false = .ok (.miss, some i) := by
  by_cases present : ∃ i ∈ ways cfg.toCacheConfig (cfg.setIndex addr), tags.resident i = some (cfg.tag addr)
  · obtain ⟨i, inside, there⟩ := present
    have found : ∃ j, scanWays cfg.toCacheConfig tags (cfg.tag addr) mf.sectorMask
          ((List.range cfg.assoc).map fun way => cfg.setIndex addr * cfg.assoc + way) {} = .ok (.inl (.hit, j)) ∧
        tags.resident j = some (cfg.tag addr) := scanWays_hit settled mf.sectorMask inside there {}
    obtain ⟨j, ran, holds⟩ := found
    refine ⟨j, .inl ⟨?_, holds⟩⟩
    unfold probe
    simp only [if_neg (Nat.not_le_of_lt (accepted.sets addr)), ran, bind, Except.bind, pure, Except.pure]
  · have absent : ∀ i ∈ ways cfg.toCacheConfig (cfg.setIndex addr), tags.resident i ≠ some (cfg.tag addr) :=
      fun i inside there => present ⟨i, inside, there⟩
    have needs : NeedsLine cfg.toCacheConfig tags addr mf := needsLine_of_absent accepted settled absent
    obtain ⟨scan, scanned, probes⟩ := needs.scanned (settled.typed accepted.normal)
    obtain ⟨way, inside, free⟩ := needs.free
    have chosen : ∃ i, (scan.invalidLine <|> scan.validLine) = some i := by
      cases invalid : scan.invalidLine with
      | some i => exact ⟨i, rfl⟩
      | none =>
        cases valid : scan.validLine with
        | some i => exact ⟨i, rfl⟩
        | none =>
          have oldest := scanned.least way inside free (scanned.noInvalid invalid way inside)
          rw [scanned.noValid valid] at oldest
          exact absurd ((settled way).stamp_lt cfg.toCacheConfig) (Nat.not_lt_of_le oldest)
    obtain ⟨i, is_chosen⟩ := chosen
    obtain ⟨status, probed, plain⟩ := probes i is_chosen false
    exact ⟨i, .inr (plain rfl ▸ probed)⟩

/-- What an access does to the tags, together with the fill that follows a miss: the block is there, and no other line
changes. -/
theorem access_settled (accepted : cfg.Accepted) (settled : tags.Settled) (early : time < noTimestamp) (addr : Nat)
    (mf : MemFetch) :
    ∃ i next,
      (tags.accessNoWriteBack cfg.toCacheConfig addr time none mf = .ok (.hit, some i, next) ∧
        tags.resident i = some (cfg.tag addr) ∧ next.Settled ∧ next.resident = tags.resident) ∨
      (tags.accessNoWriteBack cfg.toCacheConfig addr time none mf = .ok (.miss, some i, next) ∧
        ∀ mf', ∃ filled, next.fillIndex cfg.toCacheConfig i mf' = .ok filled ∧ filled.Settled ∧
          filled.resident = Function.update tags.resident i (some (cfg.tag addr))) := by
  obtain ⟨i, ⟨probed, there⟩ | probed⟩ := probe_settled accepted settled addr mf
  · obtain ⟨line, is_line, status, clean, alloc, last⟩ := (settled i).exists_line
    have holds := there
    rw [resident, is_line, CacheBlock.resident_line] at holds
    refine ⟨i, tags.setLine i (.line { line with lastAccessTime := time }), .inl ⟨?_, there, ?_, ?_⟩⟩
    · simp [accessNoWriteBack, access, probed, is_line, CacheBlock.setLastAccessTime, bind, Except.bind, pure,
        Except.pure]
    · exact settled.setLine ⟨status, clean, alloc, early⟩
    · have same : (CacheBlock.line { line with lastAccessTime := time }).resident = tags.resident i := by
        rw [there, CacheBlock.resident_line]
        exact holds
      rw [resident_setLine, same, Function.update_eq_self]
  · obtain ⟨line, is_line, status, clean, alloc, last⟩ := (settled i).exists_line
    have unmodified : (CacheBlock.line line).isModifiedLine = false := by
      rcases status with status | status <;> simp [CacheBlock.isModifiedLine, status]
    let allocated : LineCacheBlock := { line with
      tag := cfg.tag addr, blockAddr := cfg.blockAddr addr, allocTime := time, lastAccessTime := time,
      status := .reserved, setModifiedOnFill := false }
    refine ⟨i, tags.setLine i (.line allocated), .inr ⟨?_, fun mf' => ?_⟩⟩
    · simp only [accessNoWriteBack, access, probed, is_line, accepted.onMiss, unmodified, CacheBlock.allocate, bind,
        Except.bind, pure, Except.pure, if_true, Bool.false_eq_true, if_false, Option.isSome_none]
      rfl
    · refine ⟨tags.setLine i (.line { allocated with status := .valid }), ?_, ?_, ?_⟩
      · simp [fillIndex, accepted.onMiss, TagArray.setLine, CacheBlock.fill, bind, Except.bind, pure, Except.pure,
          allocated]
      · exact settled.setLine ⟨.inr rfl, rfl, early, early⟩
      · rw [resident_setLine]
        rfl

end TagArray

end GpgpuSim.Cache
