import GpgpuSim.Cache.TagArray
import GpgpuSim.Containers.UnorderedMap

/-! The miss status holding registers: requests waiting for a block, and the
blocks whose data has come back. -/
namespace GpgpuSim.Cache
open GpgpuSim.Memory Transition

structure MshrEntry where
  list : List MfId := []
  hasAtomic : Bool := false

structure MshrTable where
  data : AList fun _ : Nat => MshrEntry
  currentResponse : List Nat

namespace MshrTable

def empty : MshrTable := ⟨∅, []⟩

/-- `m_data[block_addr]`, without the insertion of an absent entry. -/
def entry (table : MshrTable) (blockAddr : Nat) : MshrEntry := (table.data.lookup blockAddr).getD {}

def list (table : MshrTable) (blockAddr : Nat) : List MfId := (table.entry blockAddr).list

def probe (table : MshrTable) (blockAddr : Nat) : Bool := (table.data.lookup blockAddr).isSome

def full (cfg : CacheConfig) (table : MshrTable) (blockAddr : Nat) : Bool :=
  match table.data.lookup blockAddr with
  | some entry => decide (entry.list.length ≥ cfg.mshrMaxMerge)
  | none => decide (table.data.size ≥ cfg.mshrEntries)

def add (cfg : CacheConfig) (table : MshrTable) (blockAddr : Nat) (mf : MfId) (isAtomic : Bool) :
    Except CacheFault MshrTable :=
  let entry := table.entry blockAddr
  let data := table.data.insert blockAddr ⟨entry.list ++ [mf], entry.hasAtomic || isAtomic⟩
  if data.size ≤ cfg.mshrEntries ∧ entry.list.length + 1 ≤ cfg.mshrMaxMerge then
    .ok { table with data }
  else .error .assertion

/-- Whether the entry holds an atomic operation, and the table with the entry ready. -/
def markReady (table : MshrTable) (blockAddr : Nat) : Except CacheFault (Bool × MshrTable) :=
  match table.data.lookup blockAddr with
  | none => .error .assertion
  | some entry =>
      if (table.currentResponse ++ [blockAddr]).length ≤ table.data.size then
        .ok (entry.hasAtomic, { table with currentResponse := table.currentResponse ++ [blockAddr] })
      else .error .assertion

def accessReady (table : MshrTable) : Bool := !table.currentResponse.isEmpty

def nextAccess (table : MshrTable) : Except CacheFault (MfId × MshrTable) :=
  match table.currentResponse with
  | [] => .error .assertion
  | blockAddr :: rest =>
      match table.list blockAddr with
      | [] => .error .assertion
      | [mf] => .ok (mf, ⟨table.data.erase blockAddr, rest⟩)
      | mf :: more =>
          .ok (mf, { table with
            data := table.data.insert blockAddr { table.entry blockAddr with list := more } })

variable {cfg : CacheConfig} {table next : MshrTable} {b c : Nat} {mf : MfId} {isAtomic : Bool}

@[simp] theorem list_empty (b : Nat) : empty.list b = [] := rfl

/-- Entries hold at least one request. -/
def Occupied (table : MshrTable) : Prop := ∀ b, table.probe b = true ↔ table.list b ≠ []

theorem Occupied.empty : Occupied empty := by
  intro b
  simp [probe, MshrTable.empty, list, entry]

theorem list_of_insert (data : AList fun _ : Nat => MshrEntry) (entry : MshrEntry)
    (response response' : List Nat) (b c : Nat) :
    (MshrTable.mk (data.insert b entry) response).list c =
      Function.update (MshrTable.mk data response').list b entry.list c := by
  by_cases same : c = b
  · subst same
    simp [list, MshrTable.entry]
  · rw [Function.update_of_ne same]
    simp [list, MshrTable.entry, AList.lookup_insert_ne same]

theorem list_of_erase (data : AList fun _ : Nat => MshrEntry) (response response' : List Nat) (b c : Nat) :
    (MshrTable.mk (data.erase b) response).list c =
      Function.update (MshrTable.mk data response').list b [] c := by
  by_cases same : c = b
  · subst same
    simp [list, MshrTable.entry]
  · rw [Function.update_of_ne same]
    simp [list, MshrTable.entry, AList.lookup_erase_ne same]

theorem add_ok (added : table.add cfg b mf isAtomic = .ok next) :
    next.list = Function.update table.list b (table.list b ++ [mf]) ∧
      next.currentResponse = table.currentResponse ∧
      ∀ c, (next.entry c).hasAtomic = ((table.entry c).hasAtomic || (decide (c = b) && isAtomic)) := by
  simp only [add] at added
  split at added
  · cases added
    refine ⟨?_, rfl, ?_⟩
    · funext c
      exact list_of_insert table.data _ _ table.currentResponse b c
    · intro c
      by_cases same : c = b
      · subst same
        simp [entry]
      · simp [entry, AList.lookup_insert_ne same, same]
  · contradiction

theorem Occupied.add (occupied : table.Occupied) (added : table.add cfg b mf isAtomic = .ok next) :
    next.Occupied := by
  have lists := (add_ok added).1
  simp only [MshrTable.add] at added
  split at added
  · cases added
    intro c
    rw [lists]
    by_cases same : c = b
    · subst same
      simp [probe]
    · have before := occupied c
      simp only [probe] at before ⊢
      rw [AList.lookup_insert_ne same, before, Function.update_of_ne same]
  · contradiction

theorem markReady_ok {hasAtomic : Bool} (marked : table.markReady b = .ok (hasAtomic, next)) :
    next.data = table.data ∧ next.currentResponse = table.currentResponse ++ [b] ∧
      hasAtomic = (table.entry b).hasAtomic := by
  simp only [markReady] at marked
  split at marked
  · contradiction
  · rename_i found
    split at marked
    · cases marked
      exact ⟨rfl, rfl, by simp [entry, found]⟩
    · contradiction

theorem list_of_data (same : next.data = table.data) : next.list = table.list := by
  funext c
  simp only [list, entry, same]

theorem Occupied.of_data (occupied : table.Occupied) (same : next.data = table.data) :
    next.Occupied := by
  intro c
  rw [list_of_data same]
  simpa only [probe, same] using occupied c

/-- The front request of the front block leaves; the block goes with its last request. -/
theorem nextAccess_ok (popped : table.nextAccess = .ok (mf, next)) :
    ∃ b rest more, table.currentResponse = b :: rest ∧ table.list b = mf :: more ∧
      next.list = Function.update table.list b more ∧
      next.currentResponse = (if more = [] then rest else b :: rest) := by
  simp only [nextAccess] at popped
  split at popped
  · contradiction
  · rename_i b rest front
    split at popped
    · contradiction
    · rename_i only
      cases popped
      refine ⟨b, rest, [], front, only, ?_, by simp⟩
      funext c
      exact list_of_erase table.data _ table.currentResponse b c
    · rename_i first more several shape
      cases popped
      refine ⟨b, rest, more, front, shape, ?_, ?_⟩
      · funext c
        exact list_of_insert table.data _ _ table.currentResponse b c
      · rw [if_neg (by simpa using several), front]

theorem hasAtomic_of_nextAccess (popped : table.nextAccess = .ok (mf, next)) (b : Nat)
    (clear : ∀ c, (table.entry c).hasAtomic = false) : (next.entry b).hasAtomic = false := by
  simp only [nextAccess] at popped
  split at popped
  · contradiction
  · rename_i front rest _
    split at popped
    · contradiction
    · cases popped
      by_cases same : b = front
      · subst same
        simp [entry]
      · simpa [entry, AList.lookup_erase_ne same] using clear b
    · cases popped
      by_cases same : b = front
      · subst same
        simpa [entry] using clear b
      · simpa [entry, AList.lookup_insert_ne same] using clear b

theorem Occupied.nextAccess (occupied : table.Occupied) (popped : table.nextAccess = .ok (mf, next)) :
    next.Occupied := by
  obtain ⟨b, rest, more, front, shape, lists, -⟩ := nextAccess_ok popped
  intro c
  rw [lists]
  by_cases same : c = b
  · subst same
    rw [Function.update_self]
    simp only [MshrTable.nextAccess, front, shape] at popped
    split at popped
    · contradiction
    · rename_i only
      cases popped
      cases only
      simp [probe]
    · rename_i first later several shape'
      cases popped
      cases shape'
      simpa [probe] using several
  · rw [Function.update_of_ne same, ← occupied c]
    simp only [MshrTable.nextAccess, front, shape] at popped
    split at popped
    · contradiction
    · cases popped
      simp [probe, AList.lookup_erase_ne same]
    · cases popped
      simp [probe, AList.lookup_insert_ne same]

end MshrTable

end GpgpuSim.Cache
