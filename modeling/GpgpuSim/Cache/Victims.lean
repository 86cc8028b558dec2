import GpgpuSim.Cache.Pinning
import GpgpuSim.Transition.Runs

/-! The line that a probe offers for replacement. Callers pass their cycle numbers
through an `unsigned`, so a line's age is what these bits say of it. -/
namespace GpgpuSim.Cache
open GpgpuSim.Memory Transition

/-- The values of an `unsigned`. -/
def unsignedSize : Nat := 2 ^ 32

def toUnsigned (cycle : Nat) : Nat := cycle % unsignedSize

/-- A tag array and, for each of its lines, the cycles in which it was last accessed and
in which it was allocated. An allocation is an access. -/
structure DatedTags where
  tags : TagArray
  accessed : Nat → Nat
  allocated : Nat → Nat
  now : Nat

namespace DatedTags

def create (cfg : CacheConfig) : DatedTags := ⟨.create cfg, fun _ => 0, fun _ => 0, 0⟩

/-- The array in a later cycle. -/
def advance (s : DatedTags) (tags : TagArray) (cycle : Nat) : DatedTags := { s with tags, now := cycle }

def access (s : DatedTags) (i cycle : Nat) : DatedTags := { s with accessed := Function.update s.accessed i cycle }

def allocate (s : DatedTags) (i cycle : Nat) : DatedTags :=
  { s.access i cycle with allocated := Function.update s.allocated i cycle }

/-- The dates after `access`. -/
def afterAccess (cfg : CacheConfig) (s : DatedTags) (status : CacheRequestStatus) (found : Option Nat) (cycle : Nat) :
    DatedTags :=
  match status, found with
  | .hit, some i | .hitReserved, some i => s.access i cycle
  | .miss, some i => if cfg.allocPolicy = .onMiss then s.allocate i cycle else s
  | .sectorMiss, some i => if cfg.allocPolicy = .onMiss then s.access i cycle else s
  | _, _ => s

/-- The dates after `fill` by address. -/
def afterFill (s : DatedTags) (status : CacheRequestStatus) (i cycle : Nat) : DatedTags :=
  match status with
  | .miss => s.allocate i cycle
  | .sectorMiss => s.access i cycle
  | _ => s

end DatedTags

/-- What the caches do to a block between the calls. -/
inductive StatusChange : (CacheBlock → Except CacheFault CacheBlock) → Prop
  | setStatus (status : CacheBlockState) (mask : BitVec 4) : StatusChange fun block => block.setStatus status mask
  | setModifiedOnFill (modified : Bool) (mask : BitVec 4) :
      StatusChange fun block => block.setModifiedOnFill modified mask
  | setReadable (readable : Bool) (mask : BitVec 4) : StatusChange fun block => block.setReadable readable mask

namespace DatedTags

/-- The calls, with the cycle that the caller passes. -/
inductive Step (cfg : CacheConfig) (s : DatedTags) : List Nat → DatedTags → Prop
  | access {addr cycle : Nat} {index found : Option Nat} {mf : MemFetch} {status : CacheRequestStatus} {tags : TagArray}
      {evicted : Option EvictedBlockInfo} (later : s.now ≤ cycle)
      (done : s.tags.access cfg addr (toUnsigned cycle) index mf = .ok (status, found, tags, evicted)) :
      Step cfg s [cycle] ((s.afterAccess cfg status found cycle).advance tags cycle)
  | fillIndex {i cycle : Nat} {mf : MemFetch} {tags : TagArray} (later : s.now ≤ cycle)
      (done : s.tags.fillIndex cfg i mf = .ok tags) : Step cfg s [cycle] (s.advance tags cycle)
  | fillAddr {addr i cycle : Nat} {mf : MemFetch} {status : CacheRequestStatus} {tags : TagArray}
      (later : s.now ≤ cycle)
      (probed : s.tags.probe cfg addr mf false = .ok (status, some i))
      (done : s.tags.fillAddr cfg addr (toUnsigned cycle) mf = .ok tags) :
      Step cfg s [cycle] ((s.afterFill status i cycle).advance tags cycle)
  | change {index : Option Nat} {f : CacheBlock → Except CacheFault CacheBlock} {tags : TagArray}
      (change : StatusChange f) (done : s.tags.modifyBlock index f = .ok tags) : Step cfg s [] (s.advance tags s.now)
  | pending (pendingLines : Nat → Option Nat) : Step cfg s [] (s.advance { s.tags with pendingLines } s.now)

def Run (cfg : CacheConfig) (cycles : List Nat) (s : DatedTags) : Prop := Reaches (Step cfg) (create cfg) cycles s

end DatedTags

/-! ## The times of a block -/

namespace CacheBlock

/-- The block is of the same kind, and these are its times. -/
structure Redated (block next : CacheBlock) (accessed allocated : Nat) : Prop where
  kind : ∀ {cfg}, block.Typed cfg → next.Typed cfg
  accessed : next.lastAccessTime = accessed
  allocated : next.allocTime = allocated

variable {block next : CacheBlock} {mask : BitVec 4} {time tag blockAddr : Nat}

theorem setLastAccessTime_redated (done : block.setLastAccessTime time mask = .ok next) :
    block.Redated next time block.allocTime := by
  cases block with
  | line block =>
      cases done
      exact ⟨id, rfl, rfl⟩
  | sector block =>
      obtain ⟨_, -, done⟩ := bind_ok.mp done
      cases done
      exact ⟨id, rfl, rfl⟩

theorem allocate_redated (done : block.allocate tag blockAddr time mask = .ok next) : block.Redated next time time := by
  cases block with
  | line block =>
      cases done
      exact ⟨id, rfl, rfl⟩
  | sector block =>
      obtain ⟨_, -, done⟩ := bind_ok.mp done
      cases done
      exact ⟨id, rfl, rfl⟩

theorem allocateSector_redated (done : block.allocateSector time mask = .ok next) :
    block.Redated next time block.allocTime := by
  cases block with
  | line block => cases done
  | sector block =>
      simp only [allocateSector] at done
      split at done
      · simp only [bind_ok, throw_ok, false_and, exists_const] at done
      · obtain ⟨_, -, done⟩ := bind_ok.mp done
        cases done
        exact ⟨id, rfl, rfl⟩

theorem fill_redated (done : block.fill mask = .ok next) :
    block.Redated next block.lastAccessTime block.allocTime := by
  cases block with
  | line block =>
      cases done
      exact ⟨id, rfl, rfl⟩
  | sector block =>
      obtain ⟨_, -, done⟩ := bind_ok.mp done
      cases done
      exact ⟨id, rfl, rfl⟩

theorem statusChange_redated {f : CacheBlock → Except CacheFault CacheBlock} (change : StatusChange f)
    (done : f block = .ok next) : block.Redated next block.lastAccessTime block.allocTime := by
  cases change <;> cases block with
  | line block =>
      cases done
      exact ⟨id, rfl, rfl⟩
  | sector block =>
      obtain ⟨_, -, done⟩ := bind_ok.mp done
      cases done
      exact ⟨id, rfl, rfl⟩

end CacheBlock

/-! ## The dates along a run -/

namespace DatedTags

/-- The lines have kept what an `unsigned` holds of their dates, none of which is beyond `bound`. -/
structure Dated (cfg : CacheConfig) (bound : Nat) (s : DatedTags) : Prop where
  typed : s.tags.Typed cfg
  accessed : ∀ i, (s.tags.lines i).lastAccessTime = toUnsigned (s.accessed i)
  allocated : ∀ i, (s.tags.lines i).allocTime = toUnsigned (s.allocated i)
  accessed_le : ∀ i, s.accessed i ≤ bound
  allocated_le : ∀ i, s.allocated i ≤ bound

variable {cfg : CacheConfig} {bound : Nat} {s t : DatedTags} {cycles events : List Nat} {i cycle : Nat}
  {block : CacheBlock}

theorem Dated.create (cfg : CacheConfig) (bound : Nat) : Dated cfg bound (create cfg) where
  typed := .create cfg
  accessed _ := by
    simp only [DatedTags.create, TagArray.create, CacheBlock.create]
    cases cfg.cacheType <;> rfl
  allocated _ := by
    simp only [DatedTags.create, TagArray.create, CacheBlock.create]
    cases cfg.cacheType <;> rfl
  accessed_le _ := Nat.zero_le _
  allocated_le _ := Nat.zero_le _

/-- The array may be any with the same lines. -/
theorem Dated.advance {tags : TagArray} (dated : Dated cfg bound s) (same : tags.lines = s.tags.lines) (cycle : Nat) :
    Dated cfg bound (s.advance tags cycle) where
  typed i := by
    simp only [DatedTags.advance, same]
    exact dated.typed i
  accessed i := by
    simp only [DatedTags.advance, same]
    exact dated.accessed i
  allocated i := by
    simp only [DatedTags.advance, same]
    exact dated.allocated i
  accessed_le := dated.accessed_le
  allocated_le := dated.allocated_le

/-- One line gets new dates. -/
theorem Dated.setLine {a l : Nat} (dated : Dated cfg bound s)
    (redated : (s.tags.lines i).Redated block (toUnsigned a) (toUnsigned l)) (accessed_le : a ≤ bound)
    (allocated_le : l ≤ bound) (cycle : Nat) :
    Dated cfg bound ⟨s.tags.setLine i block, Function.update s.accessed i a, Function.update s.allocated i l,
      cycle⟩ where
  typed := dated.typed.setLine (redated.kind (dated.typed i))
  accessed j := by
    by_cases same : j = i
    · subst same
      simpa [TagArray.setLine] using redated.accessed
    · simpa [TagArray.setLine, same] using dated.accessed j
  allocated j := by
    by_cases same : j = i
    · subst same
      simpa [TagArray.setLine] using redated.allocated
    · simpa [TagArray.setLine, same] using dated.allocated j
  accessed_le j := by
    by_cases same : j = i
    · subst same
      simpa using accessed_le
    · simpa [same] using dated.accessed_le j
  allocated_le j := by
    by_cases same : j = i
    · subst same
      simpa using allocated_le
    · simpa [same] using dated.allocated_le j

theorem Dated.allocate (dated : Dated cfg bound s)
    (redated : (s.tags.lines i).Redated block (toUnsigned cycle) (toUnsigned cycle)) (le : cycle ≤ bound) :
    Dated cfg bound ((s.allocate i cycle).advance (s.tags.setLine i block) cycle) :=
  dated.setLine redated le le cycle

theorem Dated.access (dated : Dated cfg bound s)
    (redated : (s.tags.lines i).Redated block (toUnsigned cycle) (s.tags.lines i).allocTime) (le : cycle ≤ bound) :
    Dated cfg bound ((s.access i cycle).advance (s.tags.setLine i block) cycle) := by
  rw [dated.allocated i] at redated
  have same := dated.setLine redated le (dated.allocated_le i) cycle
  rw [Function.update_eq_self] at same
  exact same

theorem Dated.keep (dated : Dated cfg bound s)
    (redated : (s.tags.lines i).Redated block (s.tags.lines i).lastAccessTime (s.tags.lines i).allocTime)
    (cycle : Nat) : Dated cfg bound (s.advance (s.tags.setLine i block) cycle) := by
  rw [dated.accessed i, dated.allocated i] at redated
  have same := dated.setLine redated (dated.accessed_le i) (dated.allocated_le i) cycle
  rw [Function.update_eq_self, Function.update_eq_self] at same
  exact same

end DatedTags

theorem CacheBlock.Redated.trans {block middle next : CacheBlock} {accessed allocated : Nat}
    (first : block.Redated middle accessed allocated)
    (second : middle.Redated next middle.lastAccessTime middle.allocTime) : block.Redated next accessed allocated where
  kind typed := second.kind (first.kind typed)
  accessed := second.accessed.trans first.accessed
  allocated := second.allocated.trans first.allocated

namespace DatedTags

variable {cfg : CacheConfig} {bound : Nat} {s t : DatedTags} {cycles events : List Nat} {i cycle : Nat}

theorem Dated.afterAccess {addr : Nat} {index found : Option Nat} {mf : MemFetch} {status : CacheRequestStatus}
    {tags : TagArray} {evicted : Option EvictedBlockInfo} (dated : Dated cfg bound s) (le : cycle ≤ bound)
    (done : s.tags.access cfg addr (toUnsigned cycle) index mf = .ok (status, found, tags, evicted)) :
    Dated cfg bound ((s.afterAccess cfg status found cycle).advance tags cycle) := by
  obtain ⟨⟨probed, line⟩, -, done⟩ := bind_ok.mp done
  dsimp only at done
  split at done
  · obtain ⟨block, touched, done⟩ := bind_ok.mp done
    cases done
    exact dated.access (CacheBlock.setLastAccessTime_redated touched) le
  · obtain ⟨block, touched, done⟩ := bind_ok.mp done
    cases done
    exact dated.access (CacheBlock.setLastAccessTime_redated touched) le
  · split at done
    next onMiss =>
      obtain ⟨block, made, done⟩ := bind_ok.mp done
      cases done
      simp only [DatedTags.afterAccess, if_pos onMiss]
      exact dated.allocate (CacheBlock.allocate_redated made) le
    next onFill =>
      cases done
      simp only [DatedTags.afterAccess, if_neg onFill]
      exact dated.advance rfl cycle
  · split at done
    next onMiss =>
      obtain ⟨block, made, done⟩ := bind_ok.mp done
      cases done
      simp only [DatedTags.afterAccess, if_pos onMiss]
      exact dated.access (CacheBlock.allocateSector_redated made) le
    next onFill =>
      cases done
      simp only [DatedTags.afterAccess, if_neg onFill]
      exact dated.advance rfl cycle
  · cases done
    exact dated.advance rfl cycle
  · cases done

theorem Dated.afterFill {addr : Nat} {mf : MemFetch} {status : CacheRequestStatus} {tags : TagArray}
    (dated : Dated cfg bound s) (le : cycle ≤ bound) (probed : s.tags.probe cfg addr mf false = .ok (status, some i))
    (done : s.tags.fillAddr cfg addr (toUnsigned cycle) mf = .ok tags) :
    Dated cfg bound ((s.afterFill status i cycle).advance tags cycle) := by
  obtain ⟨⟨status', found⟩, again, done⟩ := bind_ok.mp done
  cases again.symm.trans probed
  obtain ⟨allocated, made, done⟩ := bind_ok.mp done
  obtain ⟨filled, filling, done⟩ := bind_ok.mp done
  cases done
  have filled := CacheBlock.fill_redated filling
  unfold TagArray.allocateMissing at made
  split at made
  · exact dated.allocate ((CacheBlock.allocate_redated made).trans filled) le
  · exact dated.access ((CacheBlock.allocateSector_redated made).trans filled) le
  next no_miss no_sector =>
    cases made
    have kept : s.afterFill status i cycle = s := by
      unfold DatedTags.afterFill
      split
      · contradiction
      · contradiction
      · rfl
    rw [kept]
    exact dated.keep filled cycle

theorem Dated.step (dated : Dated cfg bound s) (step : Step cfg s events t) (le : ∀ cycle ∈ events, cycle ≤ bound) :
    Dated cfg bound t := by
  cases step with
  | access later done => exact dated.afterAccess (le _ (by simp)) done
  | fillIndex later done =>
      simp only [TagArray.fillIndex] at done
      split at done
      · simp only [bind_ok, throw_ok, false_and, exists_const] at done
      · obtain ⟨block, filling, done⟩ := bind_ok.mp done
        cases done
        exact dated.keep (CacheBlock.fill_redated filling) _
  | fillAddr later probed done => exact dated.afterFill (le _ (by simp)) probed done
  | @change index f tags change done =>
      cases index with
      | none => cases done
      | some i =>
          obtain ⟨block, changed, done⟩ := bind_ok.mp done
          cases done
          exact dated.keep (CacheBlock.statusChange_redated change changed) _
  | pending pendingLines =>
      refine dated.advance ?_ _
      rfl

theorem dated_of_run (run : Run cfg cycles s) (le : ∀ cycle ∈ cycles, cycle ≤ bound) : Dated cfg bound s := by
  induction run with
  | refl => exact .create cfg bound
  | next _ stepped ih =>
      have early := ih fun cycle member => le cycle (List.mem_append_left _ member)
      exact early.step stepped fun cycle member => le cycle (List.mem_append_right _ member)

end DatedTags

/-! ## The scan for a victim -/

namespace CacheBlock

variable {block : CacheBlock} {cfg : CacheConfig} {mask : BitVec 4} {c : Nat}

/-- What the replacement policy compares. -/
def stamp (cfg : CacheConfig) (block : CacheBlock) : Nat :=
  match cfg.replacementPolicy with
  | .lru => block.lastAccessTime
  | .fifo => block.allocTime

theorem status_of_isInvalidLine (invalid : block.isInvalidLine = true) (small : c < sectorChunckSize) :
    block.view.status c = .invalid := by
  cases block with
  | line block =>
      have invalid : block.status = .invalid := by simpa [isInvalidLine] using invalid
      by_cases zero : c = 0 <;> simp [view, zero, invalid]
  | sector block =>
      simp only [isInvalidLine, List.all_eq_true, beq_iff_eq] at invalid
      exact invalid c (List.mem_range.mpr small)

theorem isValidLine_of_isInvalidLine (invalid : block.isInvalidLine = true) : block.isValidLine = false := by
  cases block with
  | line block =>
      have invalid : block.status = .invalid := by simpa [isInvalidLine] using invalid
      simp [isValidLine, invalid]
  | sector block => simpa [isValidLine, isInvalidLine] using invalid

theorem isReservedLine_of_isInvalidLine (invalid : block.isInvalidLine = true) : block.isReservedLine = false := by
  rw [← Bool.not_eq_true, isReservedLine_iff]
  rintro ⟨c, small, reserved⟩
  rw [status_of_isInvalidLine invalid small] at reserved
  contradiction

end CacheBlock

namespace TagArray

variable {cfg : CacheConfig} {tags : TagArray} {mask : BitVec 4} {c tag : Nat} {seen ways : List Nat}
  {scan : ProbeScan}

/-- No line matches the tag. -/
def Unmatched (tags : TagArray) (tag : Nat) (ways : List Nat) : Prop :=
  ∀ i ∈ ways, (tags.lines i).tag = tag → (tags.lines i).isInvalidLine = true

def seeAll (cfg : CacheConfig) (tags : TagArray) (ways : List Nat) (scan : ProbeScan) : ProbeScan :=
  ways.foldl (fun scan i => scan.see cfg i (tags.lines i)) scan

theorem scanWays_unmatched (typed : tags.Typed cfg) (cell : cfg.cell mask = .ok c) (unmatched : tags.Unmatched tag ways)
    (scan : ProbeScan) : tags.scanWays cfg tag mask ways scan = .ok (.inr (tags.seeAll cfg ways scan)) := by
  induction ways generalizing scan with
  | nil => rfl
  | cons i rest ih =>
      have later := ih fun j member => unmatched j (List.mem_cons_of_mem _ member)
      rw [scanWays]
      by_cases at_tag : (tags.lines i).tag = tag
      · have invalid := unmatched i List.mem_cons_self at_tag
        have status := CacheBlock.status_of_isInvalidLine invalid (CacheConfig.cell_lt cell)
        rw [if_pos at_tag, CacheBlock.getStatus_ok (typed i) cell, status]
        simp only [bind, Except.bind, CacheBlock.isValidLine_of_isInvalidLine invalid, Bool.false_eq_true, if_false]
        exact later _
      · rw [if_neg at_tag]
        exact later _

/-- What the loop has found out about the lines it has seen. -/
structure Scanned (cfg : CacheConfig) (tags : TagArray) (seen : List Nat) (scan : ProbeScan) : Prop where
  allReserved : scan.allReserved = true → ∀ i ∈ seen, (tags.lines i).isReservedLine = true
  invalid : ∀ i, scan.invalidLine = some i → i ∈ seen ∧ (tags.lines i).isInvalidLine = true
  noInvalid : scan.invalidLine = none → ∀ i ∈ seen, (tags.lines i).isInvalidLine = false
  valid : ∀ i, scan.validLine = some i →
    i ∈ seen ∧ (tags.lines i).isReservedLine = false ∧ (tags.lines i).stamp cfg = scan.validTimestamp
  noValid : scan.validLine = none → scan.validTimestamp = unsignedSize - 1
  least : ∀ i ∈ seen, (tags.lines i).isReservedLine = false → (tags.lines i).isInvalidLine = false →
    scan.validTimestamp ≤ (tags.lines i).stamp cfg

theorem Scanned.nil : Scanned cfg tags [] {} where
  allReserved := by simp
  invalid := by simp
  noInvalid := by simp
  valid := by simp
  noValid _ := rfl
  least := by simp

theorem see_reserved {line : CacheBlock} (i : Nat) (reserved : line.isReservedLine = true) :
    scan.see cfg i line = scan := if_pos reserved

theorem see_invalid {line : CacheBlock} (i : Nat) (unreserved : ¬line.isReservedLine = true)
    (invalid : line.isInvalidLine = true) :
    scan.see cfg i line = { scan with allReserved := false, invalidLine := some i } := by
  rw [ProbeScan.see, if_neg unreserved, if_pos invalid]

theorem see_candidate {line : CacheBlock} (i : Nat) (unreserved : ¬line.isReservedLine = true)
    (visible : ¬line.isInvalidLine = true) :
    scan.see cfg i line =
      if line.stamp cfg < scan.validTimestamp then
        { scan with allReserved := false, validTimestamp := line.stamp cfg, validLine := some i }
      else { scan with allReserved := false } := by
  rw [ProbeScan.see, if_neg unreserved, if_neg visible]
  rfl

/-- One more line. -/
theorem Scanned.see (scanned : Scanned cfg tags seen scan) (i : Nat) :
    Scanned cfg tags (seen ++ [i]) (scan.see cfg i (tags.lines i)) := by
  have early : ∀ {j}, j ∈ seen → j ∈ seen ++ [i] := fun member => List.mem_append_left _ member
  have here : i ∈ seen ++ [i] := List.mem_append_right _ (List.mem_singleton_self i)
  have all : ∀ {P : Nat → Prop}, (∀ j ∈ seen, P j) → P i → ∀ j ∈ seen ++ [i], P j := by
    intro P old new j member
    rcases List.mem_append.mp member with member | last
    · exact old j member
    · exact List.mem_singleton.mp last ▸ new
  by_cases reserved : (tags.lines i).isReservedLine = true
  · rw [see_reserved i reserved]
    have visible : (tags.lines i).isInvalidLine = false := by
      by_contra invalid
      rw [CacheBlock.isReservedLine_of_isInvalidLine (Bool.not_eq_false _ ▸ invalid)] at reserved
      contradiction
    refine ⟨fun flag => all (scanned.allReserved flag) reserved, ?_, fun none => all (scanned.noInvalid none) visible,
      ?_, scanned.noValid, ?_⟩
    · exact fun j chosen => ⟨early (scanned.invalid j chosen).1, (scanned.invalid j chosen).2⟩
    · exact fun j chosen => ⟨early (scanned.valid j chosen).1, (scanned.valid j chosen).2⟩
    · exact all scanned.least fun free => absurd reserved (by simp [free])
  have unreserved := (Bool.not_eq_true _).mp reserved
  by_cases invalid : (tags.lines i).isInvalidLine = true
  · rw [see_invalid i reserved invalid]
    refine ⟨nofun, ?_, nofun, ?_, scanned.noValid, ?_⟩
    · rintro j ⟨⟩
      exact ⟨here, invalid⟩
    · exact fun j chosen => ⟨early (scanned.valid j chosen).1, (scanned.valid j chosen).2⟩
    · exact all scanned.least fun _ visible => absurd invalid (by simp [visible])
  · rw [see_candidate i reserved invalid]
    have visible := (Bool.not_eq_true _).mp invalid
    split
    next older =>
      refine ⟨nofun, ?_, fun none => all (scanned.noInvalid none) visible, ?_, nofun, ?_⟩
      · exact fun j chosen => ⟨early (scanned.invalid j chosen).1, (scanned.invalid j chosen).2⟩
      · rintro j ⟨⟩
        exact ⟨here, unreserved, rfl⟩
      · refine all (fun j member free visible => ?_) fun _ _ => Nat.le_refl _
        exact Nat.le_trans (Nat.le_of_lt older) (scanned.least j member free visible)
    next younger =>
      refine ⟨nofun, ?_, fun none => all (scanned.noInvalid none) visible, ?_, scanned.noValid, ?_⟩
      · exact fun j chosen => ⟨early (scanned.invalid j chosen).1, (scanned.invalid j chosen).2⟩
      · exact fun j chosen => ⟨early (scanned.valid j chosen).1, (scanned.valid j chosen).2⟩
      · exact all scanned.least fun _ _ => Nat.le_of_not_lt younger

theorem Scanned.seeAll (scanned : Scanned cfg tags seen scan) (ways : List Nat) :
    Scanned cfg tags (seen ++ ways) (tags.seeAll cfg ways scan) := by
  induction ways generalizing seen scan with
  | nil => rwa [List.append_nil]
  | cons i rest ih =>
      rw [← List.singleton_append, ← List.append_assoc]
      exact ih (scanned.see i)

end TagArray

/-! ## The choice -/

namespace TagArray

variable {cfg : CacheConfig} {tags : TagArray} {addr i : Nat} {mf : MemFetch}

/-- The lines of a set. -/
def ways (cfg : CacheConfig) (set : Nat) : List Nat := (List.range cfg.assoc).map fun way => set * cfg.assoc + way

/-- A request that matches no line of its set, where one may be replaced. -/
structure NeedsLine (cfg : CacheConfig) (tags : TagArray) (addr : Nat) (mf : MemFetch) : Prop where
  inArray : cfg.setIndex addr < cfg.nset
  sector : ∃ c, cfg.cell mf.sectorMask = .ok c
  unmatched : tags.Unmatched (cfg.tag addr) (ways cfg (cfg.setIndex addr))
  free : ∃ i ∈ ways cfg (cfg.setIndex addr), (tags.lines i).isReservedLine = false

/-- The scan of such a request, and what the probe makes of it. -/
theorem NeedsLine.scanned (needs : NeedsLine cfg tags addr mf) (typed : tags.Typed cfg) :
    ∃ scan, Scanned cfg tags (ways cfg (cfg.setIndex addr)) scan ∧
      ∀ i, (scan.invalidLine <|> scan.validLine) = some i → ∀ probeMode,
        ∃ status, tags.probe cfg addr mf probeMode = .ok (status, some i) ∧ (probeMode = false → status = .miss) := by
  obtain ⟨c, cell⟩ := needs.sector
  obtain ⟨i, inside, free⟩ := needs.free
  have scanned : Scanned cfg tags (ways cfg (cfg.setIndex addr)) _ :=
    Scanned.nil.seeAll (ways cfg (cfg.setIndex addr))
  refine ⟨_, scanned, ?_⟩
  intro i chosen probeMode
  have open_set : ¬(tags.seeAll cfg (ways cfg (cfg.setIndex addr)) {}).allReserved = true := by
    intro full
    rw [scanned.allReserved full _ inside] at free
    contradiction
  have ran : scanWays cfg tags (cfg.tag addr) mf.sectorMask
      ((List.range cfg.assoc).map fun way => cfg.setIndex addr * cfg.assoc + way) {} =
        .ok (.inr (tags.seeAll cfg (ways cfg (cfg.setIndex addr)) {})) :=
    scanWays_unmatched typed cell needs.unmatched {}
  unfold probe
  simp only [if_neg (Nat.not_le_of_lt needs.inArray), ran, bind, Except.bind, if_neg open_set]
  rw [chosen]
  dsimp only
  split
  next mode =>
    simp only [Bool.and_eq_true] at mode
    split
    · exact ⟨_, rfl, fun plain => absurd mode.1.1 (by simp [plain])⟩
    · exact ⟨_, rfl, fun _ => rfl⟩
  next => exact ⟨_, rfl, fun _ => rfl⟩

end TagArray

namespace DatedTags

variable {cfg : CacheConfig} {bound : Nat} {s : DatedTags} {addr : Nat} {mf : MemFetch}

/-- The cycle that the replacement policy goes by. -/
def date (cfg : CacheConfig) (s : DatedTags) : Nat → Nat :=
  match cfg.replacementPolicy with
  | .lru => s.accessed
  | .fifo => s.allocated

/-- The line to give up: an invalid one, or else the one of the earliest date that is not reserved. -/
structure Victim (cfg : CacheConfig) (s : DatedTags) (ways : List Nat) (i : Nat) : Prop where
  inSet : i ∈ ways
  unreserved : (s.tags.lines i).isReservedLine = false
  invalid : ∀ j ∈ ways, (s.tags.lines j).isInvalidLine = true → (s.tags.lines i).isInvalidLine = true
  oldest : (s.tags.lines i).isInvalidLine = false →
    ∀ j ∈ ways, (s.tags.lines j).isReservedLine = false → s.date cfg i ≤ s.date cfg j

/-- The probe does not abort, and it offers the line to give up. -/
def Chooses (cfg : CacheConfig) (s : DatedTags) (addr : Nat) (mf : MemFetch) (probeMode : Bool) : Prop :=
  ∃ status i, s.tags.probe cfg addr mf probeMode = .ok (status, some i) ∧
    Victim cfg s (TagArray.ways cfg (cfg.setIndex addr)) i

theorem Dated.stamp (dated : Dated cfg bound s) (i : Nat) :
    (s.tags.lines i).stamp cfg = toUnsigned (s.date cfg i) ∧ s.date cfg i ≤ bound := by
  unfold CacheBlock.stamp date
  cases cfg.replacementPolicy with
  | lru => exact ⟨dated.accessed i, dated.accessed_le i⟩
  | fifo => exact ⟨dated.allocated i, dated.allocated_le i⟩

/-- Dates that fit are what is compared. -/
theorem toUnsigned_of_lt {cycle : Nat} (small : cycle < unsignedSize - 1) : toUnsigned cycle = cycle :=
  Nat.mod_eq_of_lt (Nat.lt_of_lt_of_le small (Nat.sub_le _ _))

theorem Dated.chooses (dated : Dated cfg bound s) (small : bound < unsignedSize - 1)
    (needs : TagArray.NeedsLine cfg s.tags addr mf) (probeMode : Bool) : Chooses cfg s addr mf probeMode := by
  obtain ⟨scan, scanned, offers⟩ := needs.scanned dated.typed
  have stamp : ∀ i, (s.tags.lines i).stamp cfg = s.date cfg i := fun i =>
    (dated.stamp i).1.trans (toUnsigned_of_lt (Nat.lt_of_le_of_lt (dated.stamp i).2 small))
  cases invalid : scan.invalidLine with
  | some i =>
      obtain ⟨status, probed, -⟩ := offers i (by rw [invalid]; rfl) probeMode
      obtain ⟨inSet, is_invalid⟩ := scanned.invalid i invalid
      refine ⟨status, i, probed, inSet, CacheBlock.isReservedLine_of_isInvalidLine is_invalid, ?_, ?_⟩
      · exact fun _ _ _ => is_invalid
      · intro visible
        rw [is_invalid] at visible
        contradiction
  | none =>
      have visible := scanned.noInvalid invalid
      obtain ⟨j, inside, free⟩ := needs.free
      -- no date is as late as the first mark of the scan
      have found : scan.validLine ≠ none := by
        intro none
        have least := scanned.least j inside free (visible j inside)
        rw [scanned.noValid none, stamp] at least
        exact Nat.lt_irrefl _ (Nat.lt_of_le_of_lt (Nat.le_trans least (dated.stamp j).2) small)
      obtain ⟨i, valid⟩ := Option.ne_none_iff_exists'.mp found
      obtain ⟨status, probed, -⟩ := offers i (by rw [invalid, valid]; rfl) probeMode
      obtain ⟨inSet, unreserved, time⟩ := scanned.valid i valid
      refine ⟨status, i, probed, inSet, unreserved, ?_, ?_⟩
      · intro j inside is_invalid
        rw [visible j inside] at is_invalid
        contradiction
      · intro _ j inside free
        have least := scanned.least j inside free (visible j inside)
        rwa [← time, stamp, stamp] at least

end DatedTags

namespace DatedTags

/-- The last value of an `unsigned`, which is also the first mark of the scan. -/
def lastCycle : Nat := unsignedSize - 1

/-- A cache of one line, filled in the last cycle, and a read of another block. -/
def lastCycleTest (cfg : CacheConfig) (first second : MemFetch) : Bool :=
  match (TagArray.create cfg).access cfg first.addr (toUnsigned lastCycle) none first with
  | .ok (_, _, tags, _) =>
      match tags.fillIndex cfg 0 first with
      | .ok filled =>
          (filled.lines 0).tag != cfg.tag second.addr && !(filled.lines 0).isReservedLine &&
            match filled.probe cfg second.addr second false with
            | .error fault => fault == .abort
            | .ok _ => false
      | .error _ => false
  | .error _ => false

/-- The line is not reserved, but its time is not below the first mark of the scan. -/
theorem aborts_at_lastCycle :
    ∃ s, Run (oneLine .writeBack .lazyFetchOnRead).toCacheConfig [lastCycle, lastCycle] s ∧
      TagArray.NeedsLine (oneLine .writeBack .lazyFetchOnRead).toCacheConfig s.tags 128 (requestTo .globalAccR 128) ∧
      s.tags.probe (oneLine .writeBack .lazyFetchOnRead).toCacheConfig 128 (requestTo .globalAccR 128) false =
        .error .abort := by
  have passed : lastCycleTest (oneLine .writeBack .lazyFetchOnRead).toCacheConfig (requestTo .globalAccR 0)
      (requestTo .globalAccR 128) = true := rfl
  unfold lastCycleTest at passed
  split at passed
  next status found tags evicted accessed =>
    split at passed
    next filled filling =>
      simp only [Bool.and_eq_true, bne_iff_ne, Bool.not_eq_true'] at passed
      obtain ⟨⟨other, free⟩, passed⟩ := passed
      have start : Run (oneLine .writeBack .lazyFetchOnRead).toCacheConfig [] (create _) := .refl
      have allocated := start.next (.access (Nat.zero_le lastCycle) accessed)
      have run := allocated.next (.fillIndex (Nat.le_refl lastCycle) filling)
      refine ⟨_, run, ⟨by decide, ⟨0, rfl⟩, ?_, 0, by decide, free⟩, ?_⟩
      · intro i member same
        obtain rfl : i = 0 := by simpa [TagArray.ways, oneLine] using member
        exact absurd same other
      · split at passed
        next fault aborted => exact aborted.trans (congrArg Except.error (eq_of_beq passed))
        next => contradiction
    next => contradiction
  next => contradiction

/-- As long as no cycle is later, in every run, a probe that has to replace a line takes an invalid one or the one of
the earliest date, exactly when this bound is below the last value of an `unsigned`. -/
theorem probe_takes_oldest_iff (bound : Nat) :
    (∀ (cfg : CacheConfig) (cycles : List Nat) (s : DatedTags) (addr : Nat) (mf : MemFetch) (probeMode : Bool),
      Run cfg cycles s → (∀ cycle ∈ cycles, cycle ≤ bound) → TagArray.NeedsLine cfg s.tags addr mf →
      Chooses cfg s addr mf probeMode) ↔ bound < unsignedSize - 1 := by
  constructor
  · intro chooses
    by_contra large
    obtain ⟨s, run, needs, aborts⟩ := aborts_at_lastCycle
    have within : ∀ cycle ∈ [lastCycle, lastCycle], cycle ≤ bound := by
      intro cycle member
      obtain rfl : cycle = lastCycle := by simpa using member
      exact Nat.le_of_not_lt large
    obtain ⟨status, i, probed, -⟩ := chooses _ _ s 128 _ false run within needs
    have clash := aborts.symm.trans probed
    contradiction
  · exact fun small cfg cycles s addr mf probeMode run within needs =>
      (dated_of_run run within).chooses small needs probeMode

/-- In the last cycle before the numbers of an `unsigned` are used up a probe aborts. -/
theorem lastCycle_aborts :
    ¬ ∀ (cfg : CacheConfig) (cycles : List Nat) (s : DatedTags) (addr : Nat) (mf : MemFetch),
      Run cfg cycles s → (∀ cycle ∈ cycles, cycle < 2 ^ 64) → TagArray.NeedsLine cfg s.tags addr mf →
      Chooses cfg s addr mf false := by
  intro claim
  obtain ⟨s, run, needs, aborts⟩ := aborts_at_lastCycle
  have word : ∀ cycle ∈ [lastCycle, lastCycle], cycle < 2 ^ 64 := by decide
  obtain ⟨status, i, probed, -⟩ := claim _ _ s 128 _ run word needs
  have clash := aborts.symm.trans probed
  contradiction

end DatedTags

end GpgpuSim.Cache
