import GpgpuSim.Cache.CacheStats

/-! Aggregating the counters of caches, before and after they are summarised. The `+=` of two tables adds the total
counts to the counts of the window as well, and the summaries of a window lose their hits. -/
namespace GpgpuSim.Cache
open Containers Memory

namespace CacheSubStats

theorem add_eq_addAssign (a b : CacheSubStats) : a.add b = a.addAssign b := rfl

theorem tally_addAssign (a b : CacheSubStats) (status : CacheRequestStatus) (m n : BitVec 64) :
    (a.addAssign b).tally status (m + n) = (a.tally status m).addAssign (b.tally status n) := by
  cases status <;> simp [tally, addAssign, add_add_add_comm]

end CacheSubStats

theorem CacheStats.getSubStats_addAssign (a b : CacheStats) :
    (a.addAssign b).getSubStats = a.getSubStats.addAssign b.getSubStats := by
  have tallies := @foldl_tally_add _ (MemAccessType × CacheRequestStatus) _ _ CacheSubStats.addAssign
    (fun css key => css.tally key.2) (fun css css' key => css.tally_addAssign css' key.2)
    (fun key => a.stats key.1 key.2) (fun key => b.stats key.1 key.2) counterKeys {} {}
  have start : CacheSubStats.addAssign {} {} = {} := by decide
  rw [start] at tallies
  simp only [getSubStats, addAssign, count, tallies, CacheSubStats.addAssign]

/-- The fields of the summary of a window. -/
inductive PwField
  | accesses
  | writeMisses
  | writeHits
  | writePendingHits
  | writeResFails
  | readMisses
  | readHits
  | readPendingHits
  | readResFails
  deriving DecidableEq, Repr

namespace PwField

def get : PwField → CacheSubStatsPw → BitVec 32
  | accesses, css => css.accesses
  | writeMisses, css => css.writeMisses
  | writeHits, css => css.writeHits
  | writePendingHits, css => css.writePendingHits
  | writeResFails, css => css.writeResFails
  | readMisses, css => css.readMisses
  | readHits, css => css.readHits
  | readPendingHits, css => css.readPendingHits
  | readResFails, css => css.readResFails

/-- The counters that a field counts. -/
def counts : PwField → MemAccessType × CacheRequestStatus → Bool
  | accesses, (_, status) => status ≠ .reservationFail
  | writeMisses, (type, status) => type = .globalAccW ∧ (status = .miss ∨ status = .sectorMiss)
  | writeHits, (type, status) => type = .globalAccW ∧ status = .hit
  | writePendingHits, (type, status) => type = .globalAccW ∧ status = .hitReserved
  | writeResFails, (type, status) => type = .globalAccW ∧ status = .reservationFail
  | readMisses, (type, status) => isWindowRead type ∧ (status = .miss ∨ status = .sectorMiss)
  | readHits, (type, status) => isWindowRead type ∧ status = .hit
  | readPendingHits, (type, status) => isWindowRead type ∧ status = .hitReserved
  | readResFails, (type, status) => isWindowRead type ∧ status = .reservationFail

/-- The hits are the two fields that the operators of the summaries leave out. -/
def isHits : PwField → Bool
  | writeHits | readHits => true
  | _ => false

/-- What a field counts in a table, as an `unsigned`. -/
def totalOf (field : PwField) (table : MemAccessType → CacheRequestStatus → BitVec 64) : BitVec 32 :=
  total counterKeys field.counts fun key => (table key.1 key.2).setWidth 32

variable {field : PwField}

theorem get_tally (css : CacheSubStatsPw) (key : MemAccessType × CacheRequestStatus) (count : BitVec 64) :
    field.get (css.tally key.1 key.2 count) =
      if field.counts key then field.get css + count.setWidth 32 else field.get css := by
  obtain ⟨type, status⟩ := key
  cases type <;> cases status <;> cases field <;> simp [CacheSubStatsPw.tally, get, counts, isWindowRead, addCount_eq]

theorem get_getSubStatsPw (s : CacheStats) : field.get s.getSubStatsPw = field.totalOf s.statsPw := by
  have tallies : field.get s.getSubStatsPw = counterKeys.foldl (fun sum key =>
      if field.counts key then sum + (s.statsPw key.1 key.2).setWidth 32 else sum) (field.get {}) :=
    (List.foldl_hom field.get fun css key => (get_tally css key _).symm).symm
  have start : field.get {} = 0 := by cases field <;> rfl
  rw [tallies, start, foldl_total, zero_add, totalOf]

theorem get_addAssign (a b : CacheSubStatsPw) :
    field.get (a.addAssign b) = field.get a + if field.isHits then 0 else field.get b := by
  cases field <;> simp [get, isHits, CacheSubStatsPw.addAssign]

theorem totalOf_sum (tables : CacheStats → MemAccessType → CacheRequestStatus → BitVec 64) (l : List CacheStats) :
    field.totalOf (fun type status => (l.map fun s => tables s type status).sum) =
      (l.map fun s => field.totalOf (tables s)).sum := by
  have narrowed (key : MemAccessType × CacheRequestStatus) :
      ((l.map fun s => tables s key.1 key.2).sum).setWidth 32 =
        (l.map fun s => (tables s key.1 key.2).setWidth 32).sum := by
    induction l with
    | nil => rfl
    | cons s l ih =>
      rw [List.map_cons, List.sum_cons, BitVec.setWidth_add _ _ (by decide), ih, List.map_cons, List.sum_cons]
  simp only [totalOf, narrowed]
  exact total_sum _ l

/-- The window of the aggregate counts the totals of the caches. -/
theorem get_getSubStatsPw_foldl (l : List CacheStats) :
    field.get (l.foldl CacheStats.addAssign {}).getSubStatsPw =
      field.totalOf fun type status => (l.map fun s => s.stats type status).sum := by
  rw [get_getSubStatsPw]
  congr 1
  funext type status
  have entry := @foldl_sum _ _ _ (fun s : CacheStats => s.statsPw type status) CacheStats.addAssign
    (fun s => s.stats type status) (fun _ _ => rfl) l {}
  exact entry.trans (zero_add _)

/-- The aggregate of the summaries counts the windows, but no hits. -/
theorem get_foldl_getSubStatsPw (l : List CacheStats) :
    field.get ((l.map CacheStats.getSubStatsPw).foldl CacheSubStatsPw.addAssign {}) =
      if field.isHits then 0 else field.totalOf fun type status => (l.map fun s => s.statsPw type status).sum := by
  have entry := @foldl_sum _ _ _ field.get CacheSubStatsPw.addAssign
    (fun css => if field.isHits then 0 else field.get css) get_addAssign (l.map CacheStats.getSubStatsPw) {}
  have start : field.get {} = 0 := by cases field <;> rfl
  rw [entry, start, zero_add, List.map_map, totalOf_sum]
  cases field.isHits with
  | true => simp [Function.comp_def, -BitVec.ofNat_eq_ofNat]
  | false => simp [Function.comp_def, get_getSubStatsPw]

theorem ext_get {a b : CacheSubStatsPw} : a = b ↔ ∀ field : PwField, field.get a = field.get b := by
  constructor
  · rintro rfl field
    rfl
  · intro same
    cases a
    cases b
    rw [CacheSubStatsPw.mk.injEq]
    exact ⟨same .accesses, same .writeMisses, same .writeHits, same .writePendingHits, same .writeResFails,
      same .readMisses, same .readHits, same .readPendingHits, same .readResFails⟩

end PwField

theorem CacheStats.add_eq_addAssign_iff (a b : CacheStats) :
    a.add b = a.addAssign b ↔ ∀ type status, a.statsPw type status + b.stats type status = 0 := by
  constructor
  · intro same type status
    exact (congrFun (congrFun (congrArg statsPw same) type) status).symm
  · intro empty
    exact CacheStats.ext rfl (funext fun type => funext fun status => (empty type status).symm) rfl rfl rfl rfl

theorem CacheSubStatsPw.add_eq_addAssign_iff (a b : CacheSubStatsPw) :
    a.add b = a.addAssign b ↔ a.writeHits = 0 ∧ a.readHits = 0 := by
  constructor
  · intro same
    exact ⟨(congrArg writeHits same).symm, (congrArg readHits same).symm⟩
  · rintro ⟨writes, reads⟩
    simp only [add, addAssign, writes, reads]

/-- A field of the window, before and after the summaries: the counts that it takes of the totals add up to those of the
window, or to nothing for the hits. -/
theorem PwField.get_aggregate_iff (l : List CacheStats) (field : PwField) :
    field.get (l.foldl CacheStats.addAssign {}).getSubStatsPw =
        field.get ((l.map CacheStats.getSubStatsPw).foldl CacheSubStatsPw.addAssign {}) ↔
      field.totalOf (fun type status => (l.map fun s => s.stats type status).sum) =
        if field.isHits then 0 else field.totalOf fun type status => (l.map fun s => s.statsPw type status).sum := by
  rw [PwField.get_getSubStatsPw_foldl, PwField.get_foldl_getSubStatsPw]

/-- When aggregation and summaries commute and `+` agrees with `+=`: the total counts always do, the counts of a window
and the operators that lose some of them under their conditions. -/
theorem aggregation_iff (l : List CacheStats) (a b : CacheStats) (css cs : CacheSubStats) (pw cspw : CacheSubStatsPw) :
    ((l.foldl CacheStats.addAssign {}).getSubStats =
          (l.map CacheStats.getSubStats).foldl CacheSubStats.addAssign {} ∧
        (l.foldl CacheStats.addAssign {}).getSubStatsPw =
          (l.map CacheStats.getSubStatsPw).foldl CacheSubStatsPw.addAssign {} ∧
        a.add b = a.addAssign b ∧ css.add cs = css.addAssign cs ∧ pw.add cspw = pw.addAssign cspw) ↔
      (∀ field : PwField, field.totalOf (fun type status => (l.map fun s => s.stats type status).sum) =
          if field.isHits then 0 else field.totalOf fun type status => (l.map fun s => s.statsPw type status).sum) ∧
        (∀ type status, a.statsPw type status + b.stats type status = 0) ∧ pw.writeHits = 0 ∧ pw.readHits = 0 := by
  have totals := summary_foldl CacheStats.getSubStats_addAssign l {}
  have window := PwField.ext_get.trans (forall_congr' (PwField.get_aggregate_iff l))
  constructor
  · rintro ⟨-, summaries, tables, -, windows⟩
    exact ⟨window.mp summaries, (CacheStats.add_eq_addAssign_iff a b).mp tables,
      (CacheSubStatsPw.add_eq_addAssign_iff pw cspw).mp windows⟩
  · rintro ⟨counts, empty, hits⟩
    exact ⟨totals, window.mpr counts, (CacheStats.add_eq_addAssign_iff a b).mpr empty,
      CacheSubStats.add_eq_addAssign css cs, (CacheSubStatsPw.add_eq_addAssign_iff pw cspw).mpr hits⟩

/-- One read that hit, counted in both tables. -/
def oneReadHit : CacheStats := (({} : CacheStats).incStats .globalAccR .hit).incStatsPw .globalAccR .hit

theorem read_hit_not_aggregated :
    ([oneReadHit].foldl CacheStats.addAssign {}).getSubStatsPw ≠
      ([oneReadHit].map CacheStats.getSubStatsPw).foldl CacheSubStatsPw.addAssign {} ∧
    oneReadHit.add oneReadHit ≠ oneReadHit.addAssign oneReadHit ∧
    oneReadHit.getSubStatsPw.add oneReadHit.getSubStatsPw ≠
      oneReadHit.getSubStatsPw.addAssign oneReadHit.getSubStatsPw := by
  refine ⟨by decide +kernel, fun same => ?_, by decide +kernel⟩
  have entry := congrFun (congrFun (congrArg CacheStats.statsPw same) .globalAccR) .hit
  exact absurd entry (by decide)

end GpgpuSim.Cache
