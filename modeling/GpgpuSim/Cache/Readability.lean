import GpgpuSim.Cache.Cells
import GpgpuSim.Cache.DirtyData

/-! Which reads hit in a cache that fetches lazily. A ledger, kept from the history alone,
says for each line which block it was last taken for and which sectors have all their
bytes since; the readable flags are to say the same. -/
namespace GpgpuSim.Cache
open GpgpuSim.Memory Transition

/-! ## Fills -/

namespace DataCache

/-- The parts of a request that are still to come after one more, as `unsigned`. -/
def partsLeft (extra : ExtraMfFields) : Nat := (extra.pendingRead + 2 ^ 32 - 1) % 2 ^ 32

/-- The request that an answer completes. With sector registers only the last part of a request does. -/
def completing (cfg : CacheConfig) (cache : DataCache) (pool : MfPool) (mf : MfId) : Option
    (MfId × ExtraMfFields) :=
  match cfg.mshrType with
  | .assoc => (cache.extraMfFields mf).map fun extra => (mf, extra)
  | .sectorAssoc =>
      match (pool.get mf).originalMf with
      | none => none
      | some original =>
          match cache.extraMfFields (.original original) with
          | none => none
          | some extra => if partsLeft extra > 0 then none else some (.original original, extra)

/-- The entry of the block says that an atomic operation waits for it. -/
def hasAtomic (cache : DataCache) (extra : ExtraMfFields) : Bool :=
    (cache.mshrs.entry extra.blockAddr).hasAtomic

variable {cfg : CacheConfig} {cache next : DataCache} {pool pool' : MfPool} {mf r : MfId} {time c : Nat}
  {extra : ExtraMfFields}

/-- The lines after the completion of a request. -/
def FillsTags (cfg : CacheConfig) (cache : DataCache) (pool : MfPool) (r : MfId) (extra : ExtraMfFields) (time : Nat)
    (tagArray : TagArray) : Prop :=
  ∃ request filled, request.sectorMask = (pool.get r).sectorMask ∧
    fillTags cfg cache.tagArray extra request time = .ok filled ∧
    markAtomic cfg filled extra request (cache.hasAtomic extra) = .ok tagArray

theorem completeFill_fillsTags (pending : cache.extraMfFields r = some extra)
    (done : cache.completeFill cfg pool r time = .ok (next, pool')) :
    FillsTags cfg cache pool r extra time next.tagArray := by
  simp only [completeFill, pending] at done
  obtain ⟨filled, filling, done⟩ := bind_ok.mp done
  obtain ⟨⟨hasAtomic, mshrs⟩, marking, done⟩ := bind_ok.mp done
  obtain ⟨tags, dirtying, done⟩ := bind_ok.mp done
  obtain ⟨-, -, rfl⟩ := MshrTable.markReady_ok marking
  cases done
  refine ⟨_, filled, ?_, filling, dirtying⟩
  rw [MfPool.get_modify_self]
  rfl

/-- A part is credited to its request, which is complete with the last one. -/
theorem fill_part {original : Nat} (sectored : cfg.mshrType = .sectorAssoc)
    (is_part : (pool.get mf).originalMf = some original)
    (pending : cache.extraMfFields (.original original) = some extra) :
    cache.fill cfg pool mf time =
      let counted := { cache with
        extraMfFields := Function.update cache.extraMfFields (.original original)
          (some { extra with pendingRead := partsLeft extra }) }
      if partsLeft extra > 0 then .ok (counted, pool) else counted.completeFill cfg pool
        (.original original) time := by
  unfold fill partsLeft
  simp only [sectored, is_part, pending]

/-- The count of the parts does not matter to the lines. -/
theorem FillsTags.of_counted {counted : DataCache} {pendingRead : Nat} {tagArray : TagArray}
    (tags : counted.tagArray = cache.tagArray) (mshrs : counted.mshrs = cache.mshrs)
    (fills : FillsTags cfg counted pool r { extra with pendingRead } time tagArray) :
    FillsTags cfg cache pool r extra time tagArray := by
  obtain ⟨request, filled, mask, filling, marking⟩ := fills
  refine ⟨request, filled, mask, ?_, ?_⟩
  · rw [← tags]
    exact filling
  · unfold hasAtomic at marking ⊢
    rw [← mshrs]
    exact marking

/-- An answer that completes nothing leaves the lines alone. -/
theorem fill_completes (done : cache.fill cfg pool mf time = .ok (next, pool')) :
    completing cfg cache pool mf = none ∧ next.tagArray = cache.tagArray ∨
      ∃ r extra, completing cfg cache pool mf = some (r, extra) ∧ cache.extraMfFields r = some extra ∧
        FillsTags cfg cache pool r extra time next.tagArray := by
  cases kind : cfg.mshrType with
  | assoc =>
      simp only [fill, kind] at done
      cases pending : cache.extraMfFields mf with
      | none =>
          simp only [completeFill, pending] at done
          contradiction
      | some extra =>
          refine .inr ⟨mf, extra, ?_, pending, completeFill_fillsTags pending done⟩
          simp only [completing, kind, pending, Option.map_some]
  | sectorAssoc =>
      cases is_part : (pool.get mf).originalMf with
      | none =>
          simp only [fill, kind, is_part] at done
          contradiction
      | some original =>
          cases pending : cache.extraMfFields (.original original) with
          | none =>
              simp only [fill, kind, is_part, pending] at done
              contradiction
          | some extra =>
              rw [fill_part kind is_part pending] at done
              dsimp only at done
              simp only [completing, kind, is_part, pending]
              split at done
              next more =>
                cases done
                exact .inl ⟨if_pos more, rfl⟩
              next last =>
                have counted := completeFill_fillsTags (Function.update_self ..) done
                refine .inr ⟨_, extra, if_neg last, pending, ?_⟩
                exact FillsTags.of_counted rfl rfl counted

/-- A fill by index changes the remembered line. -/
theorem FillsTags.cells {tagArray : TagArray} (fills : FillsTags cfg cache pool r extra time tagArray)
    (onMiss : cfg.allocPolicy = .onMiss) (typed : cache.tagArray.Typed cfg)
    (cell : cfg.cell (pool.get r).sectorMask = .ok c) :
    ∃ i, extra.cacheIndex = some i ∧ tagArray.cells = Function.update cache.tagArray.cells i
      (if cache.hasAtomic extra then ((cache.tagArray.cells i).fill c).setStatus c .modified
        else (cache.tagArray.cells i).fill c) := by
  obtain ⟨request, filled, mask, filling, marking⟩ := fills
  rw [← mask] at cell
  unfold fillTags at filling
  rw [onMiss] at filling
  split at filling
  next _ i _ index =>
    unfold TagArray.fillIndex at filling
    dsimp only at filling
    split at filling
    · simp only [bind_ok, throw_ok, false_and, exists_const] at filling
    obtain ⟨block, made, filling⟩ := bind_ok.mp filling
    cases filling
    obtain ⟨filled_typed, filled_cells⟩ := TagArray.setLine_cells (CacheBlock.fill_acts cell) typed made
    refine ⟨i, index, ?_⟩
    unfold markAtomic at marking
    split at marking
    next atomic =>
      rw [onMiss, index] at marking
      obtain ⟨block, made, marking⟩ := bind_ok.mp marking
      cases marking
      obtain ⟨-, marked⟩ := TagArray.setLine_cells
        (CacheBlock.setStatus_acts cell .modified) filled_typed made
      rw [marked, filled_cells, Function.update_self, Function.update_idem, if_pos atomic]
    next plain =>
      cases marking
      rw [filled_cells, if_neg plain]
  · contradiction
  next onFill => cases onFill

end DataCache

/-! ## The ledger -/

/-- The block that a line was last taken for, and the sectors that have had all of their bytes
since they were last allocated to it. -/
structure LineRecord where
  block : Option Nat := none
  supplied : Nat → Bool := fun _ => false

namespace LineRecord

def setSupplied (c : Nat) (supplied : Bool) (record : LineRecord) : LineRecord :=
  { record with supplied := Function.update record.supplied c supplied }

/-- An access that is taken. A write supplies a sector when it covers all of it. -/
def access (cfg : DataCacheConfig) (status : CacheRequestStatus) (request : MemFetch) (c : Nat)
    (record : LineRecord) :
    LineRecord :=
  let start :=
    match status with
    | .miss => { block := some (cfg.blockAddr request.addr) }
    | .sectorMiss => record.setSupplied c false
    | _ => record
  if request.isWrite then
    if status = .hit ∧ cfg.evictsOnHit request then start.setSupplied c false
    else start.setSupplied c (start.supplied c || DataCache.isFullWrite cfg.toCacheConfig request)
  else start

/-- The data of block `b` arrives. -/
def fill (b c : Nat) (record : LineRecord) : LineRecord :=
  if record.block = some b then record.setSupplied c true else record

end LineRecord

/-- One more entry of the history. -/
def record (cfg : DataCacheConfig) (ledger : Nat → LineRecord) (move : CacheMove) : Nat → LineRecord :=
  let cache := move.before.cache
  match move.action with
  | .access mf _ result =>
      let request := move.before.pool.get mf
      if result.status = .reservationFail then ledger
      else
        match cache.tagArray.probe cfg.toCacheConfig (cfg.blockAddr request.addr) request false,
            cfg.cell request.sectorMask with
        | .ok (status, some i), .ok c => Function.update ledger i ((ledger i).access cfg status request c)
        | _, _ => ledger
  | .fill mf _ =>
      match cache.completing cfg.toCacheConfig move.before.pool mf with
      | none => ledger
      | some (r, extra) =>
          match extra.cacheIndex, cfg.cell (move.before.pool.get r).sectorMask with
          | some i, .ok c => Function.update ledger i ((ledger i).fill (cfg.blockAddr extra.addr) c)
          | _, _ => ledger
  | .nextAccess _ | .cycle _ | .elsewhere => ledger

def ledgerOf (cfg : DataCacheConfig) (history : List CacheMove) : Nat → LineRecord :=
  history.foldl (record cfg) fun _ => {}

/-- Since sector `c` was last allocated to block `b`, a fill or one write has supplied all of its bytes. -/
def Supplied (cfg : DataCacheConfig) (history : List CacheMove) (b c : Nat) : Prop :=
  ∃ i ∈ TagArray.ways cfg.toCacheConfig (cfg.setIndex b),
    (ledgerOf cfg history i).block = some b ∧ (ledgerOf cfg history i).supplied c = true

/-! ## The steps that keep the flags right -/

/-- A hit after which its sector is modified. -/
def DataCacheConfig.marksHit (cfg : DataCacheConfig) (request : MemFetch) : Bool :=
  if request.isWrite then !cfg.evictsOnHit request else request.isAtomic

/-- A hit that marks its sector modified finds the readable flag set. -/
def carefulHit (cfg : DataCacheConfig) (cache : DataCache) (request : MemFetch) : Bool :=
  match cache.tagArray.probe cfg.toCacheConfig (cfg.blockAddr request.addr) request false,
      cfg.cell request.sectorMask with
  | .ok (.hit, some i), .ok c => !cfg.marksHit request || (cache.tagArray.cells i).readable c
  | _, _ => true

/-- A fill finds its block in the line that the request remembers, and where it marks the sector modified it finds the
readable flag set. -/
def carefulFill (cfg : DataCacheConfig) (s : CacheSystem) (mf : MfId) : Bool :=
  match s.cache.completing cfg.toCacheConfig s.pool mf with
  | none => true
  | some (r, extra) =>
      match extra.cacheIndex, cfg.cell (s.pool.get r).sectorMask with
      | some i, .ok c =>
          let cells := s.cache.tagArray.cells i
          cells.tag == cfg.blockAddr extra.addr && !(s.cache.tagArray.lines i).isInvalidLine &&
            (!(cells.onFill c || s.cache.hasAtomic extra) || cells.readable c)
      | _, _ => true

/-- The steps that the readable flags can stand. -/
def careful (cfg : DataCacheConfig) (move : CacheMove) : Bool :=
  match move.action with
  | .access mf _ result =>
      result.status == .reservationFail || carefulHit cfg move.before.cache (move.before.pool.get mf)
  | .fill mf _ => carefulFill cfg move.before mf
  | .nextAccess _ | .cycle _ | .elsewhere => true

/-! ## One line -/

namespace Cells

variable {cells : Cells} {c d : Nat}

/-- Whether a sector can be read depends on its status and its flag only. -/
theorem readable_congr {other : Cells} (status : other.status d = cells.status d)
    (flag : other.readable d = cells.readable d) : other.Readable d ↔ cells.Readable d := by
  unfold Readable
  rw [status, flag]

theorem readable_setStatus_self (status : CacheBlockState) :
    (cells.setStatus c status).Readable c ↔ status = .valid ∨ status = .modified ∧
        cells.readable c = true := by
  simp [Readable, setStatus, Sectors.setStatus]

theorem readable_setStatus_ne (status : CacheBlockState) (apart : d ≠ c) :
    (cells.setStatus c status).Readable d ↔ cells.Readable d := by
  refine readable_congr ?_ rfl
  simp [setStatus, Sectors.setStatus, apart]

theorem not_readable_allocated (cfg : CacheConfig) (tag blockAddr : Nat) :
    ¬(cells.allocated cfg tag blockAddr c).Readable d := by
  by_cases same : d = c
  · simp [Readable, allocated, Sectors.allocated, same]
  · simp [Readable, allocated, Sectors.allocated, same]

theorem not_readable_addSector : ¬(cells.addSector c).Readable c := by
  simp [Readable, addSector, Sectors.addSector]

theorem readable_addSector_ne (apart : d ≠ c) : (cells.addSector c).Readable d ↔ cells.Readable d := by
  refine readable_congr ?_ ?_
  · simp [addSector, Sectors.addSector, apart]
  · simp [addSector, apart]

/-- After a lazy write the sector is readable when the write covers it. -/
theorem readable_store_self (cfg : CacheConfig) (status : CacheRequestStatus) (request : MemFetch) :
    (cells.store cfg status request c).Readable c ↔ DataCache.isFullWrite cfg request = true := by
  unfold store
  dsimp only
  split <;> simp [Readable, setReadable, setOnFill, setStatus, Sectors.setOnFill, Sectors.setStatus]

theorem readable_store_ne (cfg : CacheConfig) (status : CacheRequestStatus) (request : MemFetch) (apart : d ≠ c) :
    (cells.store cfg status request c).Readable d ↔ cells.Readable d := by
  refine readable_congr ?_ ?_
  · unfold store
    dsimp only
    split <;> simp [setReadable, setOnFill, setStatus, Sectors.setOnFill, Sectors.setStatus, apart]
  · unfold store
    dsimp only
    split <;> simp [setReadable, setOnFill, setStatus, apart]

/-- The flags of a line say what its record says. -/
def Agrees (cells : Cells) (record : LineRecord) : Prop :=
  ∀ d < sectorChunckSize, cells.Readable d ↔ record.supplied d = true

variable {record : LineRecord}

theorem Agrees.change {next : Cells} {supplied : Bool} (agrees : cells.Agrees record)
    (here : next.Readable c ↔ supplied = true) (elsewhere : ∀ d, d ≠ c → (next.Readable d ↔ cells.Readable d)) :
    next.Agrees (record.setSupplied c supplied) := by
  intro d small
  by_cases same : d = c
  · subst same
    rw [here]
    simp [LineRecord.setSupplied]
  · rw [elsewhere d same, agrees d small]
    simp [LineRecord.setSupplied, same]

theorem Agrees.allocated (cfg : CacheConfig) (tag blockAddr c : Nat) (cells : Cells) (b : Option Nat) :
    (cells.allocated cfg tag blockAddr c).Agrees { block := b } := by
  intro d _
  simpa using not_readable_allocated cfg tag blockAddr

variable {cfg : DataCacheConfig} {status : CacheRequestStatus} {request : MemFetch}

/-- A lazy write to a line whose sector could not be read. -/
theorem Agrees.store (agrees : cells.Agrees record) (small : c < sectorChunckSize) (absent : ¬cells.Readable c) :
    (cells.store cfg.toCacheConfig status request c).Agrees
      (record.setSupplied c (record.supplied c || DataCache.isFullWrite cfg.toCacheConfig request)) := by
  have none : record.supplied c = false := by
    rw [← Bool.not_eq_true, ← agrees c small]
    exact absent
  rw [none, Bool.false_or]
  exact agrees.change (readable_store_self _ _ _) fun d apart => readable_store_ne _ _ _ apart

/-- The sector stays readable, so nothing changes. -/
theorem Agrees.marked (agrees : cells.Agrees record) (hit : cells.Readable c) (flag : cells.readable c = true) :
    (cells.setStatus c .modified).Agrees record := by
  intro d small
  rw [← agrees d small]
  by_cases same : d = c
  · subst same
    rw [readable_setStatus_self]
    simp [flag, hit]
  · exact readable_setStatus_ne _ same

/-- An access keeps the flags right. -/
theorem Agrees.after (agrees : cells.Agrees record) (small : c < sectorChunckSize) (room : status ≠ .reservationFail)
    (hit : status = .hit → cells.Readable c) (pending : status = .hitReserved → ¬cells.Readable c)
    (careful : status = .hit → cfg.marksHit request = true → cells.readable c = true) :
    (cells.after cfg status request c).Agrees (record.access cfg status request c) := by
  cases status with
  | reservationFail => exact absurd rfl room
  | hit =>
      have hit := hit rfl
      have careful := careful rfl
      have supplied := (agrees c small).mp hit
      unfold Cells.after LineRecord.access
      dsimp only [Cells.readied]
      cases write : request.isWrite with
      | true =>
          simp only [if_true, true_and]
          cases evicts : cfg.evictsOnHit request with
          | true =>
              simp only [if_true]
              refine agrees.change ?_ fun d apart => readable_setStatus_ne _ apart
              simp [readable_setStatus_self]
          | false =>
              have flag := careful (by simp [DataCacheConfig.marksHit, write, evicts])
              simp only [Bool.false_eq_true, if_false, supplied, Bool.true_or]
              refine agrees.change ?_ fun d apart => readable_setStatus_ne _ apart
              simp [readable_setStatus_self, flag]
      | false =>
          simp only [Bool.false_eq_true, if_false, true_and]
          split
          next atomic =>
            have flag := careful (by simp [DataCacheConfig.marksHit, write, atomic])
            exact agrees.marked hit flag
          next => exact agrees
  | hitReserved =>
      unfold Cells.after LineRecord.access
      dsimp only [Cells.readied]
      cases request.isWrite with
      | true =>
          simp only [if_true, reduceCtorEq, false_and, if_false]
          exact agrees.store small (pending rfl)
      | false =>
          simp only [Bool.false_eq_true, reduceCtorEq, false_and, if_false]
          exact agrees
  | miss =>
      have fresh := Agrees.allocated cfg.toCacheConfig (cfg.tag (cfg.blockAddr request.addr))
        (cfg.blockAddr (cfg.blockAddr request.addr)) c cells (some (cfg.blockAddr request.addr))
      unfold Cells.after LineRecord.access
      dsimp only [Cells.readied]
      cases request.isWrite with
      | true =>
          simp only [if_true, reduceCtorEq, false_and, if_false]
          exact fresh.store small (not_readable_allocated _ _ _)
      | false =>
          simp only [Bool.false_eq_true, reduceCtorEq, false_and, if_false]
          exact fresh
  | sectorMiss =>
      have added : (cells.addSector c).Agrees (record.setSupplied c false) := by
        refine agrees.change ?_ fun d apart => readable_addSector_ne apart
        simpa using not_readable_addSector
      unfold Cells.after LineRecord.access
      dsimp only [Cells.readied]
      cases request.isWrite with
      | true =>
          simp only [if_true, reduceCtorEq, false_and, if_false]
          exact added.store small not_readable_addSector
      | false =>
          simp only [Bool.false_eq_true, reduceCtorEq, false_and, if_false]
          exact added

/-- So does the arrival of the data. -/
theorem Agrees.filled {b : Nat} (agrees : cells.Agrees record) (block : record.block = some b) (atomic : Bool)
    (careful : cells.onFill c = true ∨ atomic = true → cells.readable c = true) :
    (if atomic then (cells.fill c).setStatus c .modified else cells.fill c).Agrees (record.fill b c) := by
  have elsewhere : ∀ d, d ≠ c → ((cells.fill c).Readable d ↔ cells.Readable d) := fun d apart =>
    readable_setStatus_ne _ apart
  unfold LineRecord.fill
  rw [if_pos block]
  cases atomic with
  | true =>
      have flag := careful (.inr rfl)
      refine agrees.change ?_ fun d apart => (readable_setStatus_ne _ apart).trans (elsewhere d apart)
      exact iff_of_true ((readable_setStatus_self _).mpr (.inr ⟨rfl, flag⟩)) rfl
  | false =>
      refine agrees.change ?_ elsewhere
      have filled : cells.fill c = cells.setStatus c (if cells.onFill c then .modified else .valid) := rfl
      rw [if_neg Bool.false_ne_true, filled, readable_setStatus_self]
      cases onFill : cells.onFill c with
      | true => simpa using careful (.inl onFill)
      | false => simp

theorem tag_after (cells : Cells) (c : Nat)
    (at_tag : status = .miss ∨ cells.tag = cfg.tag (cfg.blockAddr request.addr)) :
    (cells.after cfg status request c).tag = cfg.tag (cfg.blockAddr request.addr) := by
  have stored : ∀ cells : Cells, (cells.store cfg.toCacheConfig status request c).tag = cells.tag := by
    intro cells
    unfold Cells.store
    dsimp only
    split <;> rfl
  have readied : (cells.readied cfg.toCacheConfig status (cfg.blockAddr request.addr) c).tag =
      cfg.tag (cfg.blockAddr request.addr) := by
    rcases at_tag with rfl | at_tag
    · rfl
    · cases status with
      | miss => rfl
      | hit => exact at_tag
      | hitReserved => exact at_tag
      | reservationFail => exact at_tag
      | sectorMiss => exact at_tag
  have kept : status = .hit → cells.tag = cfg.tag (cfg.blockAddr request.addr) := by
    rintro rfl
    exact at_tag.resolve_left nofun
  unfold Cells.after
  dsimp only
  split
  · split
    next hit => exact kept hit
    next => rw [stored, readied]
  · split
    next hit => exact kept hit.1
    next => exact readied

end Cells

/-! ## Runs -/

/-- A line is in its set. -/
theorem TagArray.mem_ways {cfg : CacheConfig} {set i : Nat} :
    i ∈ ways cfg set ↔ 0 < cfg.assoc ∧ i / cfg.assoc = set := by
  simp only [ways, List.mem_map, List.mem_range]
  constructor
  · rintro ⟨way, small, rfl⟩
    have positive : 0 < cfg.assoc := Nat.zero_lt_of_lt small
    refine ⟨positive, ?_⟩
    rw [Nat.mul_comm, Nat.mul_add_div positive, Nat.div_eq_of_lt small, Nat.add_zero]
  · rintro ⟨positive, rfl⟩
    exact ⟨i % cfg.assoc, Nat.mod_lt _ positive, Nat.div_add_mod' i cfg.assoc⟩

/-- The ledger describes the lines, and no two lines of a set hold one block. -/
structure Recorded (cfg : DataCacheConfig) (tags : TagArray) (ledger : Nat → LineRecord) : Prop where
  block : ∀ i, (tags.cells i).Held → (ledger i).block = some (tags.cells i).tag
  supplied : ∀ i, (tags.cells i).Agrees (ledger i)
  inArray : ∀ i, (tags.cells i).Held → i / cfg.assoc < cfg.nset
  sole : ∀ i j, i / cfg.assoc = j / cfg.assoc → (tags.cells i).Held → (tags.cells j).Held →
    (tags.cells i).tag = (tags.cells j).tag → i = j

namespace Recorded

variable {cfg : DataCacheConfig} {tags next : TagArray} {ledger : Nat → LineRecord} {i : Nat} {cells : Cells}
  {line : LineRecord}

theorem create (cfg : DataCacheConfig) : Recorded cfg (.create cfg.toCacheConfig) fun _ => {} := by
  have invalid : ∀ i c, ((TagArray.create cfg.toCacheConfig).cells i).status c = .invalid :=
    fun i c => ReservedAwaited.view_create cfg.toCacheConfig i c
  have free : ∀ i, ¬((TagArray.create cfg.toCacheConfig).cells i).Held := by
    rintro i ⟨c, -, present⟩
    exact present (invalid i c)
  refine ⟨fun i held => absurd held (free i), ?_, fun i held => absurd held (free i),
    fun i _ _ held => absurd held (free i)⟩
  intro i d _
  simp [Cells.Readable, invalid]

/-- One line and its record change. -/
theorem update (recorded : Recorded cfg tags ledger) (changed : next.cells = Function.update tags.cells i cells)
    (block : line.block = some cells.tag) (agrees : cells.Agrees line) (inArray : i / cfg.assoc < cfg.nset)
    (sole : ∀ j, j ≠ i → i / cfg.assoc = j / cfg.assoc → (tags.cells j).Held →
        (tags.cells j).tag ≠ cells.tag) :
    Recorded cfg next (Function.update ledger i line) := by
  have here : next.cells i = cells := by rw [changed, Function.update_self]
  have elsewhere : ∀ j, j ≠ i → next.cells j = tags.cells j := by
    intro j apart
    rw [changed, Function.update_of_ne apart]
  refine ⟨?_, ?_, ?_, ?_⟩
  · intro j held
    by_cases same : j = i
    · subst same
      rw [Function.update_self, here]
      exact block
    · rw [elsewhere j same] at held
      rw [Function.update_of_ne same, elsewhere j same]
      exact recorded.block j held
  · intro j
    by_cases same : j = i
    · subst same
      rwa [Function.update_self, here]
    · rw [Function.update_of_ne same, elsewhere j same]
      exact recorded.supplied j
  · intro j held
    by_cases same : j = i
    · exact same ▸ inArray
    · rw [elsewhere j same] at held
      exact recorded.inArray j held
  · intro j k set held held' tag
    by_cases first : j = i <;> by_cases second : k = i
    · rw [first, second]
    · rw [elsewhere k second] at held' tag
      rw [first, here] at tag
      rw [first] at set
      exact absurd tag.symm (sole k second set held')
    · rw [elsewhere j first] at held tag
      rw [second, here] at tag
      rw [second] at set
      exact absurd tag (sole j first set.symm held)
    · rw [elsewhere j first] at held tag
      rw [elsewhere k second] at held' tag
      exact recorded.sole j k set held held' tag

end Recorded

theorem TagArray.outcome_hitReserved {cfg : CacheConfig} {cells : Cells} {c : Nat}
    (pending : outcome cfg cells c = .hitReserved) : ¬cells.Readable c := by
  rw [← outcome_hit cfg, pending]
  decide

theorem LineRecord.block_access (cfg : DataCacheConfig) (status : CacheRequestStatus) (request : MemFetch) (c : Nat)
    (line : LineRecord) :
    (line.access cfg status request c).block = if status = .miss then some
        (cfg.blockAddr request.addr) else line.block := by
  have kept : ∀ (supplied : Bool) (line : LineRecord), (line.setSupplied c supplied).block = line.block :=
    fun _ _ => rfl
  unfold LineRecord.access
  cases status <;> simp only [apply_ite LineRecord.block, kept, ite_self, reduceCtorEq, if_true, if_false]

theorem LineRecord.block_fill (b c : Nat) (line : LineRecord) : (line.fill b c).block = line.block := by
  unfold LineRecord.fill
  split <;> rfl

namespace Recorded

open CacheSystem

variable {cfg : DataCacheConfig} {s t : CacheSystem} {action : CacheAction} {ledger : Nat → LineRecord}

theorem access {mf : MfId} {time : Nat} {result : AccessResult} (recorded : Recorded cfg s.cache.tagArray ledger)
    (outstanding : Outstanding cfg s) (lazily : cfg.writeAllocPolicy = .lazyFetchOnRead)
    (onMiss : cfg.allocPolicy = .onMiss) (presented : Presented cfg s mf)
    (done : CacheKind.access .data cfg s.cache s.pool mf time = .ok result)
    (careful : (result.status == .reservationFail || carefulHit cfg s.cache (s.pool.get mf)) = true) :
    Recorded cfg result.cache.tagArray
      (record cfg ledger ⟨s, .access mf time result, ⟨result.cache, result.pool⟩⟩) := by
  obtain ⟨c, cell, -⟩ := Outstanding.cell_of_presented presented
  by_cases refused : result.status = .reservationFail
  · have orderly := (CacheKind.access_handles .data cfg s.cache s.pool mf time).result result done
    have kept : result.cache = s.cache := by rw [orderly.refused refused]
    simp only [record, if_pos refused]
    rwa [kept]
  · have typed := outstanding.typed
    obtain ⟨status, line, probed, room, i, rfl, cells⟩ :=
      DataCache.access_changes lazily onMiss typed cell refused done
    simp only [record, if_neg refused, probed, cell]
    obtain ⟨inside, located⟩ := TagArray.probe_located typed cell probed
    have small := CacheConfig.cell_lt cell
    have careful : status = .hit → cfg.marksHit (s.pool.get mf) = true →
        (s.cache.tagArray.cells i).readable c = true := by
      rintro rfl
      simpa [refused, carefulHit, probed, cell, imp_iff_not_or] using careful
    have tag_of := @Cells.tag_after cfg status (s.pool.get mf) (s.cache.tagArray.cells i) c
    cases located with
    | matched member matched =>
        have set := (TagArray.mem_ways.mp member).2
        have tag := tag_of (.inr matched.at_tag)
        refine recorded.update cells ?_ ?_ ?_ ?_
        · rw [tag, LineRecord.block_access, CacheConfig.tag_blockAddr]
          split
          · rfl
          · rw [recorded.block i matched.held, matched.at_tag, CacheConfig.tag_blockAddr]
        · exact (recorded.supplied i).after small room
            (TagArray.outcome_hit ..).mp TagArray.outcome_hitReserved careful
        · rw [set]
          exact inside
        · intro j apart same held at_tag
          rw [tag, ← matched.at_tag] at at_tag
          exact apart (recorded.sole j i same.symm held matched.held at_tag)
    | replaced member unmatched =>
        have set := TagArray.mem_ways.mp member
        have tag := tag_of (.inl rfl)
        refine recorded.update cells ?_ ?_ ?_ ?_
        · rw [tag, LineRecord.block_access, if_pos rfl, CacheConfig.tag_blockAddr]
        · exact (recorded.supplied i).after small room nofun nofun nofun
        · rw [set.2]
          exact inside
        · intro j apart same held at_tag
          have member' := TagArray.mem_ways.mpr ⟨set.1, same.symm.trans set.2⟩
          have invalid := unmatched j member' (CacheBlock.view_tag.symm.trans (at_tag.trans tag))
          exact CacheBlock.isInvalidLine_iff.mp invalid held

theorem fill {mf : MfId} {time : Nat} {cache : DataCache} {pool : MfPool}
    (recorded : Recorded cfg s.cache.tagArray ledger) (outstanding : Outstanding cfg s)
    (onMiss : cfg.allocPolicy = .onMiss) (done : s.cache.fill cfg.toCacheConfig s.pool mf time = .ok (cache, pool))
    (careful : carefulFill cfg s mf = true) :
    Recorded cfg cache.tagArray (record cfg ledger ⟨s, .fill mf time, ⟨cache, pool⟩⟩) := by
  rcases DataCache.fill_completes done with ⟨nothing, same⟩ | ⟨r, extra, completes, pending, fills⟩
  · simp only [record, nothing]
    rwa [same]
  · obtain ⟨c, cell, -⟩ := outstanding.named pending
    obtain ⟨i, index, cells⟩ := fills.cells onMiss outstanding.typed cell
    simp only [carefulFill, completes, index, cell, Bool.and_eq_true, beq_iff_eq, Bool.not_eq_true',
      Bool.or_eq_true]
      at careful
    obtain ⟨⟨at_tag, visible⟩, flag⟩ := careful
    have matched : s.cache.tagArray.Matches (cfg.blockAddr extra.addr) i := by
      refine ⟨at_tag, ?_⟩
      by_contra free
      rw [CacheBlock.isInvalidLine_iff.mpr free] at visible
      contradiction
    have flag : (s.cache.tagArray.cells i).onFill c = true ∨ s.cache.hasAtomic extra = true →
        (s.cache.tagArray.cells i).readable c = true := by
      intro marks
      refine flag.resolve_left ?_
      rcases marks with marks | marks <;> simp [marks]
    simp only [record, completes, index, cell]
    have block := recorded.block i matched.held
    rw [matched.at_tag] at block
    have tag : (if s.cache.hasAtomic extra then ((s.cache.tagArray.cells i).fill c).setStatus c .modified
        else (s.cache.tagArray.cells i).fill c).tag = (s.cache.tagArray.cells i).tag := by
      split <;> rfl
    refine recorded.update cells ?_ ?_ ?_ ?_
    · rw [LineRecord.block_fill, tag, matched.at_tag, block]
    · exact (recorded.supplied i).filled block _ flag
    · exact recorded.inArray i matched.held
    · intro j apart same held at_tag
      exact apart (recorded.sole j i same.symm held matched.held (at_tag.trans tag))

/-- A careful step keeps the ledger right. -/
theorem step (recorded : Recorded cfg s.cache.tagArray ledger) (outstanding : Outstanding cfg s)
    (lazily : cfg.writeAllocPolicy = .lazyFetchOnRead) (onMiss : cfg.allocPolicy = .onMiss)
    (step : Step .data cfg s action t) (is_careful : careful cfg ⟨s, action, t⟩ = true) :
    Recorded cfg t.cache.tagArray (record cfg ledger ⟨s, action, t⟩) := by
  cases step with
  | access presented done => exact recorded.access outstanding lazily onMiss presented done is_careful
  | fill done => exact recorded.fill outstanding onMiss done is_careful
  | nextAccess done =>
      obtain ⟨⟨first, mshrs⟩, -, done⟩ := bind_ok.mp done
      cases done
      exact recorded
  | cycle memportFull =>
      dsimp only
      rw [(Outstanding.cycle_same memportFull s.cache).2]
      exact recorded
  | elsewhere serial kept => exact recorded

theorem run {pool : MfPool} {history : List CacheMove} (lazily : cfg.writeAllocPolicy = .lazyFetchOnRead)
    (onMiss : cfg.allocPolicy = .onMiss) (run : Run .data cfg pool history s)
    (all_careful : ∀ move ∈ history, careful cfg move = true) : Recorded cfg s.cache.tagArray
        (ledgerOf cfg history) := by
  induction run with
  | refl => exact create cfg
  | next earlier stepped ih =>
      obtain ⟨action, rfl, step⟩ := stepped
      have before := ih fun move member => all_careful move (List.mem_append_left _ member)
      rw [ledgerOf, List.foldl_append]
      exact before.step (Outstanding.run earlier) lazily onMiss step (all_careful _ (by simp))

end Recorded

namespace CacheSystem

variable {cfg : DataCacheConfig} {s : CacheSystem} {pool : MfPool} {history : List CacheMove} {mf : MemFetch}
  {addr c : Nat}

/-- A probe of the block's sector returns `HIT`. -/
def ProbeHits (cfg : DataCacheConfig) (s : CacheSystem) (addr : Nat) (mf : MemFetch) (probeMode : Bool) : Prop :=
  ∃ line, s.cache.tagArray.probe cfg.toCacheConfig (cfg.blockAddr addr) mf probeMode = .ok (.hit, line)

/-- In every run of careful steps a probe of a sector hits exactly when all of its bytes have been supplied since it
was last allocated to its block. -/
theorem hit_iff_supplied (accepted : cfg.Accepted) (lazily : cfg.writeAllocPolicy = .lazyFetchOnRead)
    (run : Run .data cfg pool history s) (all_careful : ∀ move ∈ history, careful cfg move = true)
    (cell : cfg.cell mf.sectorMask = .ok c) (probeMode : Bool) :
    ProbeHits cfg s addr mf probeMode ↔ Supplied cfg history (cfg.blockAddr addr) c := by
  have onMiss := accepted.fetch (.inr lazily)
  have typed := (Outstanding.run run).typed
  have recorded := Recorded.run lazily onMiss run all_careful
  have small := CacheConfig.cell_lt cell
  constructor
  · rintro ⟨line, probed⟩
    have plain : s.cache.tagArray.probe cfg.toCacheConfig (cfg.blockAddr addr) mf false = .ok
      (.hit, line) := by
      cases probeMode with
      | false => exact probed
      | true =>
          obtain ⟨plain, found, rfl | ⟨-, miss, -⟩⟩ := TagArray.probe_mode probed
          · exact found
          · exact absurd miss.symm (DataCache.presentMiss_ne cfg.toCacheConfig).1
    obtain ⟨inside, located⟩ := TagArray.probe_located typed cell plain
    generalize outcome : CacheRequestStatus.hit = status at located
    cases located with
    | @matched i member matched =>
        have readable := (TagArray.outcome_hit ..).mp outcome.symm
        refine ⟨i, member, ?_, (recorded.supplied i c small).mp readable⟩
        rw [recorded.block i matched.held, matched.at_tag, CacheConfig.tag_blockAddr]
    | replaced => contradiction
    | full => contradiction
  · rintro ⟨i, member, block, supplied⟩
    have readable := (recorded.supplied i c small).mpr supplied
    have held := readable.held small
    have tag : (s.cache.tagArray.cells i).tag = cfg.tag (cfg.blockAddr addr) := by
      rw [recorded.block i held] at block
      rw [Option.some.inj block, CacheConfig.tag_blockAddr]
    have set := TagArray.mem_ways.mp member
    have inside : cfg.setIndex (cfg.blockAddr addr) < cfg.nset := set.2 ▸ recorded.inArray i held
    refine ⟨some i, ?_⟩
    rw [TagArray.probe_matched typed cell inside member ⟨tag, held⟩,
      (TagArray.outcome_hit ..).mpr readable]
    intro j member' matched
    exact recorded.sole j i ((TagArray.mem_ways.mp member').2.trans set.2.symm) matched.held held
      (matched.at_tag.trans tag.symm)

/-- A read and the fill that answers it. -/
theorem hit_iff_supplied_after_fill :
    ∃ history s, Run .data (oneLine .writeBack .lazyFetchOnRead)
      (poolOf [requestTo .globalAccR 0]) history s ∧
      ProbeHits (oneLine .writeBack .lazyFetchOnRead) s 0 (requestTo .globalAccR 0) false ∧
      Supplied (oneLine .writeBack .lazyFetchOnRead) history 0 0 := by
  have passed : testRun .data (oneLine .writeBack .lazyFetchOnRead) (poolOf [requestTo .globalAccR 0])
      [.access (.request 0) 0, .fill (.request 0) 1] (fun history s =>
        history.all (careful (oneLine .writeBack .lazyFetchOnRead)) &&
          succeedsWith (s.cache.tagArray.probe (oneLine .writeBack .lazyFetchOnRead).toCacheConfig 0
            (requestTo .globalAccR 0) false) fun probed => probed.1 == .hit) = true := rfl
  obtain ⟨history, s, run, test⟩ := exists_run passed
  simp only [Bool.and_eq_true, List.all_eq_true] at test
  obtain ⟨all_careful, hits⟩ := test
  obtain ⟨⟨status, line⟩, probed, hits⟩ := exists_of_succeedsWith hits
  have probe_hits : ProbeHits (oneLine .writeBack .lazyFetchOnRead) s 0
    (requestTo .globalAccR 0) false := by
    obtain rfl : status = .hit := eq_of_beq hits
    exact ⟨line, probed⟩
  exact ⟨history, s, run, probe_hits,
    (hit_iff_supplied (oneLine_accepted _ _) rfl run all_careful rfl false).mp probe_hits⟩

/-- A read, a write of a part of its line while it is under way, and the fill: the line has all of its bytes and
reads of it miss. -/
theorem filled_line_misses :
    ¬ ∀ (cfg : DataCacheConfig) (pool : MfPool) (history : List CacheMove) (s : CacheSystem)
      (addr : Nat) (mf : MemFetch)
      (c : Nat) (probeMode : Bool), cfg.Accepted → cfg.writeAllocPolicy = .lazyFetchOnRead →
      Run .data cfg pool history s → cfg.cell mf.sectorMask = .ok c →
      (ProbeHits cfg s addr mf probeMode ↔ Supplied cfg history (cfg.blockAddr addr) c) := by
  intro claim
  have passed : testRun .data (oneLine .writeBack .lazyFetchOnRead)
      (poolOf [requestTo .globalAccR 0, requestTo .globalAccW 0])
      [.access (.request 0) 0, .access (.request 1) 1, .fill (.request 0) 2] (fun history s =>
        (ledgerOf (oneLine .writeBack .lazyFetchOnRead) history 0).block == some 0 &&
          (ledgerOf (oneLine .writeBack .lazyFetchOnRead) history 0).supplied 0 &&
          succeedsWith (s.cache.tagArray.probe (oneLine .writeBack .lazyFetchOnRead).toCacheConfig 0
            (requestTo .globalAccR 0) false) fun probed => probed.1 != .hit) = true := rfl
  obtain ⟨history, s, run, test⟩ := exists_run passed
  simp only [Bool.and_eq_true, beq_iff_eq] at test
  obtain ⟨⟨block, supplied⟩, misses⟩ := test
  have member : 0 ∈ TagArray.ways (oneLine .writeBack .lazyFetchOnRead).toCacheConfig 0 := by decide
  obtain ⟨line, probed⟩ :=
    (claim _ _ history s 0 (requestTo .globalAccR 0) 0 false (oneLine_accepted _ _) rfl run
    rfl).mpr ⟨0, member, block, supplied⟩
  have at_zero : (oneLine .writeBack .lazyFetchOnRead).blockAddr 0 = 0 := by decide
  rw [at_zero] at probed
  rw [probed] at misses
  cases misses

end CacheSystem

end GpgpuSim.Cache
