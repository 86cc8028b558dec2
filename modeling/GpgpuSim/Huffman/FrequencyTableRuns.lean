import GpgpuSim.Huffman.FrequencyTable
import GpgpuSim.Transition.Runs
import Mathlib.Algebra.GroupWithZero.Nat
import Mathlib.Data.Prod.Lex

/-! Runs of the frequency table. `updateFrequency` indexes the map again after a
possible eviction, so an update can leave the evicted symbol behind with a zero
count; what survives that is proved here for all histories of operations. -/
namespace GpgpuSim.Huffman
open Containers Transition

inductive TableOperation
  | update (symbol increment : Nat)
  | evict
  | scaleDown (divisor : Nat)
  | clear
  deriving DecidableEq, Repr

/-- One call with a positive increment that does not overflow the count. The
sorter is the one this call happens to meet. -/
inductive TableStep : FrequencyValueTable → List TableOperation → FrequencyValueTable → Prop
  | update {table : FrequencyValueTable} {symbol increment : Nat} (ascending : Sorter lessFrequent)
      (positive : 1 ≤ increment) (fits : table.getFrequency symbol + increment < 2 ^ 64) :
      TableStep table [.update symbol increment] (table.updateFrequency ascending symbol increment).1
  | evict {table : FrequencyValueTable} (ascending : Sorter lessFrequent) :
      TableStep table [.evict] (table.evictEntries ascending)
  | scaleDown {table : FrequencyValueTable} (divisor : Nat) :
      TableStep table [.scaleDown divisor] (table.scaleDown divisor)
  | clear {table : FrequencyValueTable} : TableStep table [.clear] table.clear

/-- The sum of the increments passed for a symbol. -/
def incrementsFor (symbol : Nat) (history : List TableOperation) : Nat :=
  (history.map fun
    | .update s increment => if s = symbol then increment else 0
    | _ => 0).sum

@[simp] theorem incrementsFor_append (symbol : Nat) (history later : List TableOperation) :
    incrementsFor symbol (history ++ later) =
      incrementsFor symbol history + incrementsFor symbol later := by
  simp [incrementsFor]

@[simp] theorem incrementsFor_update (symbol s increment : Nat) :
    incrementsFor symbol [.update s increment] = if s = symbol then increment else 0 := by
  simp [incrementsFor]

namespace FrequencyValueTable

variable {table : FrequencyValueTable} {symbol increment : Nat}

/-- The update leaves the map at or above the checking size. -/
def TriggersEviction (table : FrequencyValueTable) (symbol increment : Nat) : Prop :=
  table.checkingTableSize ≤ (table.count symbol increment).size

/-- Fewer than `finalTableSize` other entries are at least as frequent as the
updated symbol will be. -/
def RanksWithinFinal (table : FrequencyValueTable) (symbol increment : Nat) : Prop :=
  (table.pairs.filter fun p =>
    p.1 ≠ symbol ∧ table.getFrequency symbol + increment ≤ p.2).length < table.finalTableSize

instance : Decidable (table.TriggersEviction symbol increment) := Nat.decLe _ _

instance : Decidable (table.RanksWithinFinal symbol increment) := Nat.decLt _ _

/-- What an update should leave behind. -/
structure UpdateBounds (history : List TableOperation) (evicted : Prop) (table : FrequencyValueTable) : Prop where
  small : table.size < table.checkingTableSize
  positive : ∀ p ∈ table.pairs, 1 ≤ p.2
  credited : ∀ p ∈ table.pairs, p.2 ≤ incrementsFor p.1 history
  final : evicted → table.size ≤ table.finalTableSize

/-- The pairs after counting, when the count does not wrap. -/
theorem pairs_count_of_fits (fits : table.getFrequency symbol + increment < 2 ^ 64) :
    (table.count symbol increment).pairs.Perm
      ((symbol, table.getFrequency symbol + increment) :: table.pairs.filter fun p => p.1 ≠ symbol) := by
  have counted := table.pairs_count symbol increment
  rwa [Nat.mod_eq_of_lt fits] at counted

theorem mem_count (fits : table.getFrequency symbol + increment < 2 ^ 64) :
    (symbol, table.getFrequency symbol + increment) ∈ (table.count symbol increment).pairs :=
  (pairs_count_of_fits fits).mem_iff.mpr (by simp)

theorem update_without_eviction (ascending : Sorter lessFrequent)
    (fits : table.getFrequency symbol + increment < 2 ^ 64) (quiet : ¬ table.TriggersEviction symbol increment) :
    (table.updateFrequency ascending symbol increment).1 = table.count symbol increment := by
  have below : ¬ (table.count symbol increment).size ≥ (table.count symbol increment).checkingTableSize :=
    quiet
  simp only [updateFrequency, if_neg below]
  rw [index_of_mem (mem_count fits)]

theorem update_with_eviction (ascending : Sorter lessFrequent) (trigger : table.TriggersEviction symbol increment) :
    (table.updateFrequency ascending symbol increment).1 =
      (((table.count symbol increment).evictEntries ascending).index symbol).1 := by
  have reached : (table.count symbol increment).size ≥ (table.count symbol increment).checkingTableSize :=
    trigger
  simp only [updateFrequency, if_pos reached]

/-- An updated symbol that ranks within the final size survives every eviction. -/
theorem survives_evict (ascending : Sorter lessFrequent) (fits : table.getFrequency symbol + increment < 2 ^ 64)
    (large : table.finalTableSize < (table.count symbol increment).size)
    (ranked : table.RanksWithinFinal symbol increment) :
    (symbol, table.getFrequency symbol + increment) ∈
      ((table.count symbol increment).evictEntries ascending).pairs := by
  obtain ⟨dropped, kept, parts, size, perm, ordered⟩ :=
    (table.count symbol increment).evict_spec ascending large
  rw [perm.mem_iff]
  have present := parts.mem_iff.mpr (mem_count fits)
  rcases List.mem_append.mp present with lost | stays
  · -- otherwise the kept entries all outrank it, and there are too many of them
    exfalso
    have distinct : (dropped ++ kept).Nodup := parts.nodup_iff.mpr (nodup_pairs _)
    have outrank : kept ⊆ table.pairs.filter fun p =>
        p.1 ≠ symbol ∧ table.getFrequency symbol + increment ≤ p.2 := by
      intro q member
      have other : q ≠ (symbol, table.getFrequency symbol + increment) := by
        rintro rfl
        exact (List.nodup_append.mp distinct).2.2 _ lost _ member rfl
      have counted := (pairs_count_of_fits fits).mem_iff.mp
        (parts.mem_iff.mp (List.mem_append_right dropped member))
      have old : q ∈ table.pairs ∧ q.1 ≠ symbol := by
        simpa using (List.mem_cons.mp counted).resolve_left other
      simpa using ⟨old.1, old.2, ordered _ lost q member⟩
    have few := (List.subperm_of_subset (List.nodup_append.mp distinct).2.1 outrank).length_le
    simp only [finalTableSize_count] at size
    unfold RanksWithinFinal at ranked
    omega
  · exact stays

/-- Entries after counting, credited with the increments of the longer history. -/
theorem count_credited {history : List TableOperation} (fits : table.getFrequency symbol + increment < 2 ^ 64)
    (credited : ∀ p ∈ table.pairs, p.2 ≤ incrementsFor p.1 history) :
    ∀ p ∈ (table.count symbol increment).pairs,
      p.2 ≤ incrementsFor p.1 (history ++ [.update symbol increment]) := by
  intro p member
  have old : table.getFrequency symbol ≤ incrementsFor symbol history := by
    unfold getFrequency
    cases found : table.frequencyMap.lookup symbol with
    | none => exact Nat.zero_le _
    | some frequency => exact credited (symbol, frequency) (AList.mem_pairs.mpr found)
  rcases List.mem_cons.mp ((pairs_count_of_fits fits).mem_iff.mp member) with rfl | other
  · simp only [incrementsFor_append, incrementsFor_update, if_true]
    omega
  · have := credited p (List.mem_filter.mp other).1
    rw [incrementsFor_append]
    omega

theorem count_positive (positive : 1 ≤ increment) (fits : table.getFrequency symbol + increment < 2 ^ 64)
    (counts : ∀ p ∈ table.pairs, 1 ≤ p.2) : ∀ p ∈ (table.count symbol increment).pairs, 1 ≤ p.2 := by
  intro p member
  rcases List.mem_cons.mp ((pairs_count_of_fits fits).mem_iff.mp member) with rfl | other
  · exact positive.trans (Nat.le_add_left _ _)
  · exact counts p (List.mem_filter.mp other).1

/-- What holds between the steps of a run in which updated symbols survive. -/
structure TableBounds (history : List TableOperation) (table : FrequencyValueTable) : Prop where
  ordered : table.finalTableSize < table.checkingTableSize
  small : table.size < table.checkingTableSize
  positive : ∀ p ∈ table.pairs, 1 ≤ p.2
  credited : ∀ p ∈ table.pairs, p.2 ≤ incrementsFor p.1 history

theorem TableBounds.update {history : List TableOperation} (bounds : TableBounds history table)
    (ascending : Sorter lessFrequent) (positive : 1 ≤ increment)
    (fits : table.getFrequency symbol + increment < 2 ^ 64)
    (ranked : table.TriggersEviction symbol increment → table.RanksWithinFinal symbol increment) :
    UpdateBounds (history ++ [.update symbol increment]) (table.TriggersEviction symbol increment)
      (table.updateFrequency ascending symbol increment).1 := by
  have counts := count_positive positive fits bounds.positive
  have credits := count_credited fits bounds.credited
  by_cases trigger : table.TriggersEviction symbol increment
  · have large : table.finalTableSize < (table.count symbol increment).size :=
      bounds.ordered.trans_le trigger
    have survivor := survives_evict ascending fits large (ranked trigger)
    have size := (table.count symbol increment).size_evict ascending large
    rw [update_with_eviction ascending trigger, index_of_mem survivor]
    refine ⟨?_, ?_, ?_, ?_⟩
    · rw [size, checkingTableSize_evict]
      exact bounds.ordered
    · exact fun p member => counts p (mem_of_mem_evict ascending member)
    · exact fun p member => credits p (mem_of_mem_evict ascending member)
    · exact fun _ => by rw [size, finalTableSize_evict]
  · rw [update_without_eviction ascending fits trigger]
    exact ⟨not_le.mp trigger, counts, credits, fun evicted => absurd evicted trigger⟩

/-- Sorts by count, the given symbol first among equals. -/
def disfavouring (symbol : Nat) : Sorter lessFrequent :=
  (Sorter.insertion _ (WeakOrder.of_key fun p : Nat × Nat =>
    toLex (p.2, if p.1 = symbol then 0 else 1))).coarsen fun a b lower => by
      simp only [lessFrequent, decide_eq_true_eq] at lower
      simpa only [decide_eq_true_eq] using Prod.Lex.toLex_lt_toLex.mpr (.inl lower)

/-- In the disfavouring order only rarer entries precede the symbol. -/
theorem disfavouring_sorted (symbol : Nat) (l : List (Nat × Nat)) :
    ((disfavouring symbol).sort l).Pairwise fun a b => b.1 = symbol → a.1 ≠ symbol → a.2 < b.2 := by
  have sorted := (Sorter.insertion _ (WeakOrder.of_key fun p : Nat × Nat =>
    toLex (p.2, if p.1 = symbol then 0 else 1))).sorted l
  refine sorted.imp ?_
  intro a b ordered atB notA
  simp only [decide_eq_false_iff_not, Prod.Lex.toLex_lt_toLex, atB, if_true, if_neg notA] at ordered
  omega

/-- An updated symbol that ranks beyond the final size is lost in some order of ties. -/
theorem lost_of_not_ranked (fits : table.getFrequency symbol + increment < 2 ^ 64)
    (large : table.finalTableSize < (table.count symbol increment).size)
    (unranked : ¬ table.RanksWithinFinal symbol increment) :
    ∀ p ∈ ((table.count symbol increment).evictEntries (disfavouring symbol)).pairs, p.1 ≠ symbol := by
  set counted := table.count symbol increment with counted_def
  set sorted := (disfavouring symbol).sort counted.pairs with sorted_def
  have perm : sorted.Perm counted.pairs := (disfavouring symbol).perm _
  have present : (symbol, table.getFrequency symbol + increment) ∈ sorted :=
    perm.mem_iff.mpr (mem_count fits)
  obtain ⟨before, after, parts⟩ := List.append_of_mem present
  have split : (before ++ (symbol, table.getFrequency symbol + increment) :: after).Perm counted.pairs :=
    parts ▸ perm
  have symbols : ((before ++ (symbol, table.getFrequency symbol + increment) :: after).map Prod.fst).Nodup :=
    (split.map Prod.fst).nodup_iff.mpr counted.nodup_symbols
  simp only [List.map_append, List.map_cons] at symbols
  obtain ⟨-, symbolsAfter, apart⟩ := List.nodup_append.mp symbols
  have earlier : ∀ p ∈ before, p.2 < table.getFrequency symbol + increment := by
    intro p member
    have ordered := disfavouring_sorted symbol counted.pairs
    rw [← sorted_def, parts] at ordered
    refine (List.pairwise_append.mp ordered).2.2 p member _ List.mem_cons_self rfl ?_
    exact apart p.1 (List.mem_map_of_mem member) symbol (by simp)
  -- the entries that outrank it all stand behind it and fill the table
  have outrank : (table.pairs.filter fun p =>
      p.1 ≠ symbol ∧ table.getFrequency symbol + increment ≤ p.2) ⊆ after := by
    intro p member
    obtain ⟨old, other, high⟩ : p ∈ table.pairs ∧ p.1 ≠ symbol ∧
        table.getFrequency symbol + increment ≤ p.2 := by simpa using member
    have inCounted : p ∈ counted.pairs :=
      (pairs_count_of_fits fits).mem_iff.mpr (List.mem_cons_of_mem _ (by simpa using ⟨old, other⟩))
    rcases List.mem_append.mp (split.mem_iff.mpr inCounted) with inBefore | later
    · have := earlier p inBefore
      omega
    · rcases List.mem_cons.mp later with rfl | inAfter
      · exact absurd rfl other
      · exact inAfter
  have full : table.finalTableSize ≤ after.length := by
    have := (List.subperm_of_subset (table.nodup_pairs.filter _) outrank).length_le
    unfold RanksWithinFinal at unranked
    omega
  intro p member
  have kept := (pairs_evict (disfavouring symbol) large).mem_iff.mp member
  rw [← sorted_def, parts] at kept
  have size : before.length + (after.length + 1) = counted.size := by
    simpa using split.length_eq
  have inAfter : p ∈ after := by
    have cut : counted.size - counted.finalTableSize =
        (before ++ [(symbol, table.getFrequency symbol + increment)]).length +
          (after.length - table.finalTableSize) := by
      simp only [counted_def, finalTableSize_count, List.length_append, List.length_singleton] at size ⊢
      omega
    rw [List.append_cons, cut, List.drop_append, List.drop_eq_nil_of_le (Nat.le_add_right _ _),
      List.nil_append] at kept
    exact List.mem_of_mem_drop kept
  rintro rfl
  exact (List.nodup_cons.mp symbolsAfter).1 (List.mem_map_of_mem inAfter)

theorem create_ok {checking final symbolLength : Nat} {start : FrequencyValueTable}
    (built : create checking final symbolLength = .ok start) :
    start.pairs = [] ∧ start.checkingTableSize = checking ∧ start.finalTableSize = final ∧
      start.symbolLength = symbolLength := by
  unfold create at built
  split at built
  · contradiction
  · obtain rfl := Except.ok.inj built
    exact ⟨rfl, rfl, rfl, rfl⟩

/-- Steps in which every update that evicts ranks its symbol within the final size. -/
def RankedStep (table : FrequencyValueTable) (events : List TableOperation) (table' : FrequencyValueTable) : Prop :=
  TableStep table events table' ∧ ∀ symbol increment, events = [.update symbol increment] →
    table.TriggersEviction symbol increment → table.RanksWithinFinal symbol increment

theorem TableBounds.create {checking final symbolLength : Nat} {start : FrequencyValueTable}
    (built : create checking final symbolLength = .ok start) (smaller : final < checking) :
    TableBounds [] start := by
  obtain ⟨none, checks, finals, -⟩ := create_ok built
  refine ⟨by omega, ?_, by simp [none], by simp [none]⟩
  rw [← length_pairs, none, checks, List.length_nil]
  omega

/-- Entries that only shrink keep their credit. -/
theorem TableBounds.shrink {history later : List TableOperation} {table' : FrequencyValueTable}
    (bounds : TableBounds history table) (checks : table'.checkingTableSize = table.checkingTableSize)
    (finals : table'.finalTableSize = table.finalTableSize) (size : table'.size ≤ table.size)
    (entries : ∀ p ∈ table'.pairs, 1 ≤ p.2 ∧ ∃ q ∈ table.pairs, q.1 = p.1 ∧ p.2 ≤ q.2) :
    TableBounds (history ++ later) table' := by
  refine ⟨?_, ?_, fun p member => (entries p member).1, ?_⟩
  · rw [checks, finals]
    exact bounds.ordered
  · rw [checks]
    exact size.trans_lt bounds.small
  · intro p member
    obtain ⟨-, q, old, same, smaller⟩ := entries p member
    have credit := bounds.credited q old
    rw [same] at credit
    rw [incrementsFor_append]
    omega

theorem TableBounds.step {history events : List TableOperation} {table' : FrequencyValueTable}
    (bounds : TableBounds history table) (stepped : RankedStep table events table') :
    TableBounds (history ++ events) table' := by
  obtain ⟨stepped, ranked⟩ := stepped
  cases stepped with
  | @update symbol increment ascending positive fits =>
      have after := bounds.update ascending positive fits (ranked symbol increment rfl)
      refine ⟨?_, after.small, after.positive, after.credited⟩
      simpa using bounds.ordered
  | evict ascending =>
      refine bounds.shrink (by simp) (by simp) (size_evict_le_size ascending) ?_
      intro p member
      have old := mem_of_mem_evict ascending member
      exact ⟨bounds.positive p old, p, old, rfl, le_rfl⟩
  | scaleDown divisor =>
      refine bounds.shrink (by simp) (by simp) (size_scaleDown_le divisor) ?_
      intro p member
      rcases le_or_gt divisor 1 with small | halving
      · rw [scaleDown_one divisor small] at member
        exact ⟨bounds.positive p member, p, member, rfl, le_rfl⟩
      · obtain ⟨q, old, same, scaled, positive⟩ := (mem_scaleDown divisor halving).mp member
        exact ⟨Nat.one_le_iff_ne_zero.mpr positive, q, old, same, scaled ▸ Nat.div_le_self _ _⟩
  | clear =>
      refine bounds.shrink rfl rfl (Nat.zero_le _) ?_
      simp

theorem ranked_run_bounds {start : FrequencyValueTable} (initial : TableBounds [] start)
    {history : List TableOperation} (run : Reaches RankedStep start history table) :
    TableBounds history table :=
  run.invariant initial fun _ bounds stepped => bounds.step stepped

/-- Along every run whose evicting updates rank their symbol within the final
size, an update keeps the table small, positive and within the credited counts,
whatever the order of ties; it does so exactly when it ranks its own symbol. -/
theorem update_bounds_iff {checking final symbolLength : Nat} {start : FrequencyValueTable}
    (built : create checking final symbolLength = .ok start) (smaller : final < checking)
    {history : List TableOperation} (run : Reaches RankedStep start history table)
    (positive : 1 ≤ increment) (fits : table.getFrequency symbol + increment < 2 ^ 64) :
    (∀ ascending, UpdateBounds (history ++ [.update symbol increment])
      (table.TriggersEviction symbol increment)
      (table.updateFrequency ascending symbol increment).1) ↔
    (table.TriggersEviction symbol increment → table.RanksWithinFinal symbol increment) := by
  have bounds := ranked_run_bounds (TableBounds.create built smaller) run
  constructor
  · intro kept trigger
    by_contra unranked
    have large : table.finalTableSize < (table.count symbol increment).size :=
      bounds.ordered.trans_le trigger
    have after := (kept (disfavouring symbol)).positive (symbol, 0)
    rw [update_with_eviction _ trigger,
      pairs_index_of_absent symbol (lost_of_not_ranked fits large unranked)] at after
    exact absurd (after List.mem_cons_self) (by simp)
  · intro ranked ascending
    exact bounds.update ascending positive fits ranked

/-- A second symbol evicts the first one, and ranks above it. -/
theorem update_bounds_iff_second_symbol : ∃ start table : FrequencyValueTable, create 2 1 16 = .ok start ∧
    Reaches RankedStep start [.update 0 1] table ∧ table.TriggersEviction 1 5 ∧
    ∀ ascending, UpdateBounds [.update 0 1, .update 1 5] (table.TriggersEviction 1 5)
      (table.updateFrequency ascending 1 5).1 := by
  let start : FrequencyValueTable := ⟨∅, 2, 1, 16, sixteen_bits⟩
  let stable := Sorter.insertion lessFrequent lessFrequent_order
  have first : TableStep start [.update 0 1] (start.updateFrequency stable 0 1).1 :=
    .update stable (by decide) (by decide)
  have ranked : RankedStep start [.update 0 1] (start.updateFrequency stable 0 1).1 := by
    refine ⟨first, ?_⟩
    rintro symbol increment ⟨⟩
    decide
  have run : Reaches RankedStep start [.update 0 1] (start.updateFrequency stable 0 1).1 := Reaches.refl.next ranked
  have built : create 2 1 16 = .ok start := rfl
  refine ⟨start, _, built, run, by decide, ?_⟩
  exact (update_bounds_iff built (by decide) run (by decide) (by decide)).mpr (by decide)

/-- A second symbol arriving at a table of checking size two is evicted at once
and comes back with a zero count. -/
theorem evicted_update_leaves_zero :
    ∃ start table table' : FrequencyValueTable, create 2 1 16 = .ok start ∧
      Reaches TableStep start [.update 0 2] table ∧ TableStep table [.update 1 1] table' ∧
      table.TriggersEviction 1 1 ∧ table'.pairs = [(1, 0), (0, 2)] ∧
      ¬ table'.size < table'.checkingTableSize ∧ ¬ (∀ p ∈ table'.pairs, 1 ≤ p.2) ∧
      ¬ table'.size ≤ table'.finalTableSize := by
  let start : FrequencyValueTable := ⟨∅, 2, 1, 16, sixteen_bits⟩
  let stable := Sorter.insertion lessFrequent lessFrequent_order
  have first : TableStep start [.update 0 2] (start.updateFrequency stable 0 2).1 :=
    .update stable (by decide) (by decide)
  refine ⟨start, _, _, rfl, Reaches.refl.next first, .update stable (by decide) (by decide), ?_, ?_, ?_, ?_, ?_⟩
  all_goals decide

/-! Zero entries never reach the top frequencies: a table that holds one also
holds enough positive entries to fill them. -/

/-- The number of entries with a positive count. -/
def positives (table : FrequencyValueTable) : Nat := table.pairs.countP fun p => 0 < p.2

def ZerosCovered (table : FrequencyValueTable) : Prop :=
  ∀ p ∈ table.pairs, p.2 = 0 → table.finalTableSize ≤ table.positives

theorem ZerosCovered.of_positive (counts : ∀ p ∈ table.pairs, 1 ≤ p.2) : ZerosCovered table := by
  intro p member zero
  have := counts p member
  omega

/-- Counting an occurrence never loses a positive entry. -/
theorem positives_count_le (positive : 1 ≤ increment) (fits : table.getFrequency symbol + increment < 2 ^ 64) :
    table.positives ≤ (table.count symbol increment).positives := by
  have present : 0 < table.getFrequency symbol + increment := by omega
  unfold positives
  rw [(pairs_count_of_fits fits).countP_eq, List.countP_cons_of_pos (by simpa using present)]
  cases found : table.frequencyMap.lookup symbol with
  | none =>
      have others : table.pairs.filter (fun p => p.1 ≠ symbol) = table.pairs := by
        refine List.filter_eq_self.mpr fun p member => ?_
        have stored := AList.mem_pairs.mp member
        have : p.1 ≠ symbol := by
          rintro rfl
          rw [found] at stored
          contradiction
        simpa using this
      rw [others]
      exact Nat.le_succ _
  | some frequency =>
      rw [(show table.pairs.Perm _ from AList.pairs_perm_of_lookup found).countP_eq,
        List.countP_cons]
      simp only [pairs]
      split <;> omega

theorem ZerosCovered.count (covered : ZerosCovered table) (positive : 1 ≤ increment)
    (fits : table.getFrequency symbol + increment < 2 ^ 64) :
    ZerosCovered (table.count symbol increment) := by
  intro p member zero
  rcases List.mem_cons.mp ((pairs_count_of_fits fits).mem_iff.mp member) with rfl | other
  · simp only at zero
    omega
  · exact (covered p (List.mem_filter.mp other).1 zero).trans (positives_count_le positive fits)

/-- What a real eviction keeps is positive: the dropped entries are no more
frequent, and the positive ones are enough to fill the table. -/
theorem ZerosCovered.evict_positive (covered : ZerosCovered table) (ascending : Sorter lessFrequent)
    (large : table.finalTableSize < table.size) :
    ∀ p ∈ (table.evictEntries ascending).pairs, 1 ≤ p.2 := by
  obtain ⟨dropped, kept, parts, size, perm, ordered⟩ := table.evict_spec ascending large
  intro p member
  by_contra zero
  have none : p.2 = 0 := by omega
  have inKept := perm.mem_iff.mp member
  have enough := covered p (parts.mem_iff.mp (List.mem_append_right dropped inKept)) none
  have droppedZero : dropped.countP (fun q => 0 < q.2) = 0 := by
    rw [List.countP_eq_zero]
    intro q lost
    have := ordered q lost p inKept
    simp only [decide_eq_true_eq]
    omega
  have fewer : kept.countP (fun q => 0 < q.2) < kept.length := by
    refine lt_of_le_of_ne List.countP_le_length fun all => ?_
    have := List.countP_eq_length.mp all p inKept
    simp only [decide_eq_true_eq] at this
    omega
  rw [positives, ← parts.countP_eq, List.countP_append, droppedZero] at enough
  omega

theorem ZerosCovered.evict (covered : ZerosCovered table) (ascending : Sorter lessFrequent) :
    ZerosCovered (table.evictEntries ascending) := by
  rcases le_or_gt table.size table.finalTableSize with small | large
  · rwa [evictEntries_of_le ascending small]
  · exact .of_positive (covered.evict_positive ascending large)

theorem ZerosCovered.update (covered : ZerosCovered table) (ascending : Sorter lessFrequent)
    (positive : 1 ≤ increment) (fits : table.getFrequency symbol + increment < 2 ^ 64) :
    ZerosCovered (table.updateFrequency ascending symbol increment).1 := by
  have counted := covered.count positive fits
  by_cases trigger : table.TriggersEviction symbol increment
  swap
  · rwa [update_without_eviction ascending fits trigger]
  rw [update_with_eviction ascending trigger]
  by_cases present : ∃ p ∈ ((table.count symbol increment).evictEntries ascending).pairs, p.1 = symbol
  · obtain ⟨p, member, rfl⟩ := present
    rw [index_of_mem member]
    exact counted.evict ascending
  · -- the updated symbol was evicted, so the eviction was a real one
    have absent : ∀ p ∈ ((table.count symbol increment).evictEntries ascending).pairs, p.1 ≠ symbol :=
      fun p member same => present ⟨p, member, same⟩
    have large : (table.count symbol increment).finalTableSize < (table.count symbol increment).size := by
      by_contra small
      rw [evictEntries_of_le ascending (not_lt.mp small)] at absent
      exact absent _ (mem_count fits) rfl
    have kept := counted.evict_positive ascending large
    have filled : ((table.count symbol increment).evictEntries ascending).positives =
        (table.count symbol increment).finalTableSize := by
      rw [← size_evict ascending _ large, ← length_pairs, positives, List.countP_eq_length]
      intro p member
      exact decide_eq_true (kept p member)
    intro p member zero
    rw [positives, pairs_index_of_absent symbol absent, finalTableSize_index,
      List.countP_cons_of_neg (by simp), finalTableSize_evict, ← filled]
    exact le_rfl

theorem ZerosCovered.step {events : List TableOperation} {table' : FrequencyValueTable}
    (covered : ZerosCovered table) (stepped : TableStep table events table') : ZerosCovered table' := by
  cases stepped with
  | update ascending positive fits => exact covered.update ascending positive fits
  | evict ascending => exact covered.evict ascending
  | scaleDown divisor =>
      rcases le_or_gt divisor 1 with small | halving
      · rwa [scaleDown_one divisor small]
      · refine .of_positive fun p member => ?_
        obtain ⟨-, -, -, -, positive⟩ := (mem_scaleDown divisor halving).mp member
        exact Nat.one_le_iff_ne_zero.mpr positive
  | clear => exact .of_positive (by simp)

theorem run_zerosCovered {checking final symbolLength : Nat} {start : FrequencyValueTable}
    (built : create checking final symbolLength = .ok start) {history : List TableOperation}
    (run : Reaches TableStep start history table) : ZerosCovered table := by
  refine run.invariant (P := fun _ t => ZerosCovered t) (.of_positive ?_)
    fun _ covered stepped => covered.step stepped
  rw [(create_ok built).1]
  simp

/-- The top entries of a covered table are positive. -/
theorem ZerosCovered.top_positive (covered : ZerosCovered table) (descending : Sorter moreFrequent) :
    ∀ p ∈ table.getTopFrequencies descending, 1 ≤ p.2 := by
  intro p member
  by_contra zero
  have none : p.2 = 0 := by omega
  have enough := covered p (mem_of_mem_top descending member) none
  obtain ⟨before, after, parts⟩ := List.append_of_mem member
  set rest := (descending.sort table.pairs).drop table.finalTableSize
  have whole : before ++ p :: (after ++ rest) = descending.sort table.pairs := by
    have joined : table.getTopFrequencies descending ++ rest = descending.sort table.pairs :=
      List.take_append_drop _ _
    rw [← joined, parts]
    simp
  have short : before.length < table.finalTableSize := by
    have := congrArg List.length parts
    simp only [getTopFrequencies, List.length_take, List.length_append, List.length_cons] at this
    omega
  have later : (p :: (after ++ rest)).countP (fun q => 0 < q.2) = 0 := by
    have sorted := descending.sorted table.pairs
    rw [← whole, List.pairwise_append, List.pairwise_cons] at sorted
    rw [List.countP_eq_zero]
    intro q inside
    rcases List.mem_cons.mp inside with rfl | behind
    · simp [none]
    · have := sorted.2.1.1 q behind
      simpa [moreFrequent, none] using this
  have bound : before.countP (fun q => 0 < q.2) ≤ before.length := List.countP_le_length
  rw [positives, ← (descending.perm table.pairs).countP_eq, ← whole, List.countP_append, later] at enough
  omega

end FrequencyValueTable

end GpgpuSim.Huffman
