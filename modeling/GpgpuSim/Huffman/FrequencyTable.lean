import GpgpuSim.Containers.Sorting
import GpgpuSim.Containers.UnorderedMap
import Mathlib.Algebra.Group.Nat.Defs

/-! The frequency value table. Symbols and counts are 64-bit words; only the
addition in `updateFrequency` can wrap. The order in which equal counts leave
`std::sort`, and the iteration order of the map, are unspecified: every operation
that sorts takes the sorter it uses. -/
namespace GpgpuSim.Huffman
open Containers

/-- Ascending comparator on `(symbol, frequency)` pairs. -/
def lessFrequent (a b : Nat × Nat) : Bool := decide (a.2 < b.2)

/-- Descending comparator on `(symbol, frequency)` pairs. -/
def moreFrequent (a b : Nat × Nat) : Bool := decide (a.2 > b.2)

theorem lessFrequent_order : WeakOrder lessFrequent := WeakOrder.of_key Prod.snd

theorem moreFrequent_order : WeakOrder moreFrequent :=
  WeakOrder.of_key fun p : Nat × Nat => OrderDual.toDual p.2

theorem sixteen_bits : 16 ≤ 64 := by decide

structure FrequencyValueTable where
  frequencyMap : AList fun _ : Nat => Nat
  checkingTableSize : Nat
  finalTableSize : Nat
  symbolLength : Nat
  symbolLength_le : symbolLength ≤ 64

namespace FrequencyValueTable

/-- The constructor; a final size that is not below the checking size only prints a warning. -/
def create (checkingTableSize finalTableSize symbolLength : Nat) : Except String FrequencyValueTable :=
  if h : symbolLength > 64 then .error "symbol_length too large"
  else .ok ⟨∅, checkingTableSize, finalTableSize, symbolLength, not_lt.mp h⟩

def size (table : FrequencyValueTable) : Nat := table.frequencyMap.size

/-- The stored `(symbol, frequency)` pairs in iteration order. -/
def pairs (table : FrequencyValueTable) : List (Nat × Nat) := table.frequencyMap.pairs

def getFrequency (table : FrequencyValueTable) (symbol : Nat) : Nat :=
  (table.frequencyMap.lookup symbol).getD 0

def contains (table : FrequencyValueTable) (symbol : Nat) : Bool :=
  (table.frequencyMap.lookup symbol).isSome

def evictEntries (ascending : Sorter lessFrequent) (table : FrequencyValueTable) : FrequencyValueTable :=
  if table.size ≤ table.finalTableSize then table
  else
    let freqPairs := ascending.sort table.pairs
    let kept := freqPairs.drop (freqPairs.length - table.finalTableSize)
    { table with frequencyMap := AList.insertAll ∅ kept }

/-- The map after `m_frequency_map[symbol] += increment`. -/
def count (table : FrequencyValueTable) (symbol increment : Nat) : FrequencyValueTable :=
  { table with
    frequencyMap := table.frequencyMap.insert symbol ((table.getFrequency symbol + increment) % 2 ^ 64) }

/-- Reading through `operator[]` stores a zero for an absent symbol. -/
def index (table : FrequencyValueTable) (symbol : Nat) : FrequencyValueTable × Nat :=
  match table.frequencyMap.lookup symbol with
  | some frequency => (table, frequency)
  | none => ({ table with frequencyMap := table.frequencyMap.insert symbol 0 }, 0)

def updateFrequency (ascending : Sorter lessFrequent) (table : FrequencyValueTable)
    (symbol : Nat) (increment : Nat := 1) : FrequencyValueTable × Nat :=
  let counted := table.count symbol increment
  let checked :=
    if counted.size ≥ counted.checkingTableSize then counted.evictEntries ascending else counted
  -- the return statement indexes the map again, after a possible eviction
  checked.index symbol

/-- The most frequent entries in descending order, at most `finalTableSize` of them. -/
def getTopFrequencies (descending : Sorter moreFrequent) (table : FrequencyValueTable) : List (Nat × Nat) :=
  (descending.sort table.pairs).take table.finalTableSize

def getTotalFrequency (table : FrequencyValueTable) : Nat :=
  table.pairs.foldl (fun total entry => (total + entry.2) % 2 ^ 64) 0

def clear (table : FrequencyValueTable) : FrequencyValueTable := { table with frequencyMap := ∅ }

def scaleDown (divisor : Nat) (table : FrequencyValueTable) : FrequencyValueTable :=
  if divisor ≤ 1 then table
  else
    let scaled (frequency : Nat) : Option Nat :=
      if frequency / divisor = 0 then none else some (frequency / divisor)
    { table with frequencyMap := table.frequencyMap.filterMapValues scaled }

/-! What each operation leaves in `pairs`. -/

variable {table : FrequencyValueTable} (ascending : Sorter lessFrequent)
  (descending : Sorter moreFrequent) (symbol increment divisor : Nat)

@[simp] theorem length_pairs : table.pairs.length = table.size := AList.length_pairs _

theorem nodup_symbols (table : FrequencyValueTable) : (table.pairs.map Prod.fst).Nodup := AList.nodup_pairs_keys _

theorem nodup_pairs (table : FrequencyValueTable) : table.pairs.Nodup := AList.nodup_pairs _

@[simp] theorem checkingTableSize_count :
    (table.count symbol increment).checkingTableSize = table.checkingTableSize := rfl

@[simp] theorem finalTableSize_count :
    (table.count symbol increment).finalTableSize = table.finalTableSize := rfl

theorem pairs_count (table : FrequencyValueTable) :
    (table.count symbol increment).pairs.Perm
      ((symbol, (table.getFrequency symbol + increment) % 2 ^ 64) ::
        table.pairs.filter fun p => p.1 ≠ symbol) :=
  AList.pairs_insert_perm _ _ _

/-- An eviction changes nothing but the map. -/
theorem evictEntries_frame (ascending : Sorter lessFrequent) (table : FrequencyValueTable) :
    ∃ frequencyMap, table.evictEntries ascending = { table with frequencyMap } := by
  by_cases small : table.size ≤ table.finalTableSize
  · exact ⟨table.frequencyMap, if_pos small⟩
  · exact ⟨_, if_neg small⟩

@[simp] theorem checkingTableSize_evict :
    (table.evictEntries ascending).checkingTableSize = table.checkingTableSize := by
  obtain ⟨frequencyMap, same⟩ := table.evictEntries_frame ascending
  rw [same]

@[simp] theorem finalTableSize_evict :
    (table.evictEntries ascending).finalTableSize = table.finalTableSize := by
  obtain ⟨frequencyMap, same⟩ := table.evictEntries_frame ascending
  rw [same]

theorem evictEntries_of_le (small : table.size ≤ table.finalTableSize) :
    table.evictEntries ascending = table := if_pos small

theorem pairs_evict (large : table.finalTableSize < table.size) :
    (table.evictEntries ascending).pairs.Perm
      ((ascending.sort table.pairs).drop (table.size - table.finalTableSize)) := by
  have total : (ascending.sort table.pairs).length = table.size := by simp
  have distinct : (((ascending.sort table.pairs).drop
      (table.size - table.finalTableSize)).map Prod.fst).Nodup := by
    have := ((ascending.perm table.pairs).map Prod.fst).nodup_iff.mpr table.nodup_symbols
    exact this.sublist ((List.drop_sublist _ _).map _)
  simp only [evictEntries, if_neg (not_le.mpr large), total]
  exact AList.pairs_insertAll_empty distinct

/-- An eviction splits the pairs into those dropped and those kept, which are at
least as frequent. -/
theorem evict_spec (table : FrequencyValueTable) (large : table.finalTableSize < table.size) :
    ∃ dropped kept, (dropped ++ kept).Perm table.pairs ∧ kept.length = table.finalTableSize ∧
      (table.evictEntries ascending).pairs.Perm kept ∧
      ∀ p ∈ dropped, ∀ q ∈ kept, p.2 ≤ q.2 := by
  have parts := List.take_append_drop (table.size - table.finalTableSize) (ascending.sort table.pairs)
  refine ⟨_, _, by rw [parts]; exact ascending.perm _, ?_, pairs_evict ascending large, ?_⟩
  · rw [List.length_drop, ascending.length_sort, length_pairs]
    omega
  · have ordered := ascending.sorted table.pairs
    rw [← parts, List.pairwise_append] at ordered
    intro p hp q hq
    simpa [lessFrequent] using ordered.2.2 p hp q hq

theorem size_evict (table : FrequencyValueTable) (large : table.finalTableSize < table.size) :
    (table.evictEntries ascending).size = table.finalTableSize := by
  obtain ⟨dropped, kept, -, count, perm, -⟩ := table.evict_spec ascending large
  rw [← length_pairs, perm.length_eq, count]

/-- Eviction only removes entries. -/
theorem mem_of_mem_evict {p : Nat × Nat} (member : p ∈ (table.evictEntries ascending).pairs) :
    p ∈ table.pairs := by
  rcases le_or_gt table.size table.finalTableSize with small | large
  · rwa [evictEntries_of_le ascending small] at member
  · obtain ⟨dropped, kept, parts, -, perm, -⟩ := table.evict_spec ascending large
    exact parts.mem_iff.mp (List.mem_append_right _ (perm.mem_iff.mp member))

theorem size_evict_le_size : (table.evictEntries ascending).size ≤ table.size := by
  rcases le_or_gt table.size table.finalTableSize with small | large
  · rw [evictEntries_of_le ascending small]
  · rw [table.size_evict ascending large]
    exact large.le

theorem index_of_mem {p : Nat × Nat} (member : p ∈ table.pairs) : table.index p.1 = (table, p.2) := by
  simp [index, AList.mem_pairs.mp member]

theorem pairs_index_of_absent (absent : ∀ p ∈ table.pairs, p.1 ≠ symbol) :
    (table.index symbol).1.pairs = (symbol, 0) :: table.pairs := by
  have fresh : symbol ∉ table.frequencyMap := by
    rw [AList.mem_keys, ← AList.map_fst_pairs]
    intro member
    obtain ⟨p, inside, same⟩ := List.mem_map.mp member
    exact absent p inside same
  simp only [index, AList.lookup_eq_none.mpr fresh]
  exact AList.pairs_insert_of_notMem fresh 0

theorem index_frame (symbol : Nat) (table : FrequencyValueTable) :
    ∃ frequencyMap, (table.index symbol).1 = { table with frequencyMap } := by
  rw [index]
  cases table.frequencyMap.lookup symbol with
  | some frequency => exact ⟨table.frequencyMap, rfl⟩
  | none => exact ⟨_, rfl⟩

@[simp] theorem finalTableSize_index : (table.index symbol).1.finalTableSize = table.finalTableSize := by
  obtain ⟨frequencyMap, same⟩ := table.index_frame symbol
  rw [same]

/-- An update changes nothing but the map. -/
theorem updateFrequency_frame (ascending : Sorter lessFrequent) (symbol increment : Nat) (table : FrequencyValueTable) :
    ∃ frequencyMap, (table.updateFrequency ascending symbol increment).1 = { table with frequencyMap } := by
  rw [updateFrequency]
  split
  · obtain ⟨evicted, same⟩ := (table.count symbol increment).evictEntries_frame ascending
    rw [same]
    exact index_frame symbol _
  · exact index_frame symbol _

@[simp] theorem finalTableSize_update :
    (table.updateFrequency ascending symbol increment).1.finalTableSize = table.finalTableSize := by
  obtain ⟨frequencyMap, same⟩ := table.updateFrequency_frame ascending symbol increment
  rw [same]

@[simp] theorem checkingTableSize_update :
    (table.updateFrequency ascending symbol increment).1.checkingTableSize = table.checkingTableSize := by
  obtain ⟨frequencyMap, same⟩ := table.updateFrequency_frame ascending symbol increment
  rw [same]

@[simp] theorem symbolLength_update :
    (table.updateFrequency ascending symbol increment).1.symbolLength = table.symbolLength := by
  obtain ⟨frequencyMap, same⟩ := table.updateFrequency_frame ascending symbol increment
  rw [same]

theorem pairs_index_ne_nil (table : FrequencyValueTable) : (table.index symbol).1.pairs ≠ [] := by
  cases found : table.frequencyMap.lookup symbol with
  | some frequency =>
      have member : (symbol, frequency) ∈ table.pairs := AList.mem_pairs.mpr found
      rw [index_of_mem member]
      exact List.ne_nil_of_mem member
  | none =>
      rw [pairs_index_of_absent symbol]
      · exact List.cons_ne_nil _ _
      · rintro ⟨other, count⟩ member rfl
        rw [AList.mem_pairs.mp member] at found
        contradiction

/-- The updated symbol is stored afterwards, whatever was evicted. -/
theorem pairs_update_ne_nil : (table.updateFrequency ascending symbol increment).1.pairs ≠ [] :=
  pairs_index_ne_nil symbol _

theorem top_sublist : (table.getTopFrequencies descending).Sublist (descending.sort table.pairs) :=
  List.take_sublist _ _

theorem mem_of_mem_top {p : Nat × Nat} (member : p ∈ table.getTopFrequencies descending) :
    p ∈ table.pairs :=
  (descending.mem_sort).mp ((top_sublist descending).mem member)

/-- No symbol appears twice among the top entries. -/
theorem nodup_top_symbols : ((table.getTopFrequencies descending).map Prod.fst).Nodup := by
  have := ((descending.perm table.pairs).map Prod.fst).nodup_iff.mpr table.nodup_symbols
  exact this.sublist ((top_sublist descending).map _)

theorem pairs_scaleDown (halving : 1 < divisor) :
    (table.scaleDown divisor).pairs = table.pairs.filterMap fun p =>
      if p.2 / divisor = 0 then none else some (p.1, p.2 / divisor) := by
  simp only [scaleDown, if_neg (not_le.mpr halving), pairs, AList.pairs_filterMapValues]
  congr 1
  funext p
  split <;> simp

theorem mem_scaleDown (halving : 1 < divisor) {p : Nat × Nat} :
    p ∈ (table.scaleDown divisor).pairs ↔
      ∃ q ∈ table.pairs, q.1 = p.1 ∧ q.2 / divisor = p.2 ∧ p.2 ≠ 0 := by
  rw [pairs_scaleDown divisor halving, List.mem_filterMap]
  constructor
  · rintro ⟨q, member, scaled⟩
    split at scaled
    · contradiction
    · obtain rfl := Option.some.inj scaled
      exact ⟨q, member, rfl, rfl, ‹_›⟩
  · rintro ⟨q, member, same, scaled, positive⟩
    refine ⟨q, member, ?_⟩
    rw [if_neg (scaled ▸ positive), same, scaled]

@[simp] theorem scaleDown_one (small : divisor ≤ 1) : table.scaleDown divisor = table := if_pos small

theorem scaleDown_frame (divisor : Nat) (table : FrequencyValueTable) :
    ∃ frequencyMap, table.scaleDown divisor = { table with frequencyMap } := by
  by_cases small : divisor ≤ 1
  · exact ⟨table.frequencyMap, if_pos small⟩
  · exact ⟨_, if_neg small⟩

@[simp] theorem finalTableSize_scaleDown :
    (table.scaleDown divisor).finalTableSize = table.finalTableSize := by
  obtain ⟨frequencyMap, same⟩ := table.scaleDown_frame divisor
  rw [same]

@[simp] theorem checkingTableSize_scaleDown :
    (table.scaleDown divisor).checkingTableSize = table.checkingTableSize := by
  obtain ⟨frequencyMap, same⟩ := table.scaleDown_frame divisor
  rw [same]

@[simp] theorem symbolLength_scaleDown : (table.scaleDown divisor).symbolLength = table.symbolLength := by
  obtain ⟨frequencyMap, same⟩ := table.scaleDown_frame divisor
  rw [same]

theorem size_scaleDown_le : (table.scaleDown divisor).size ≤ table.size := by
  rcases le_or_gt divisor 1 with small | halving
  · rw [scaleDown_one divisor small]
  · rw [← length_pairs, pairs_scaleDown divisor halving, ← length_pairs]
    exact List.length_filterMap_le _ _

@[simp] theorem pairs_clear : table.clear.pairs = [] := rfl

end FrequencyValueTable

end GpgpuSim.Huffman
