import GpgpuSim.Cache.MshrTable
import GpgpuSim.Transition.Runs
import Mathlib.Data.List.Perm.Subperm

/-! Runs of the miss status holding registers, called as their callers call them.
Requests may join an entry while it is being drained. -/
namespace GpgpuSim.Cache
open GpgpuSim.Memory Transition

inductive MshrEvent
  | added (blockAddr : Nat) (mf : MfId)
  | marked (blockAddr : Nat)
  | returned (blockAddr : Nat) (mf : MfId)
  | released (blockAddr : Nat)

namespace MshrEvent

def addition : MshrEvent → Option (Nat × MfId)
  | added blockAddr mf => some (blockAddr, mf)
  | _ => none

def return? : MshrEvent → Option (Nat × MfId)
  | returned blockAddr mf => some (blockAddr, mf)
  | _ => none

def mark : MshrEvent → Option Nat
  | marked blockAddr => some blockAddr
  | _ => none

def release : MshrEvent → Option Nat
  | released blockAddr => some blockAddr
  | _ => none

end MshrEvent

/-- The requests of a run with their blocks, in the order they were added. -/
def additions (trace : List MshrEvent) : List (Nat × MfId) := trace.filterMap MshrEvent.addition

def returns (trace : List MshrEvent) : List (Nat × MfId) := trace.filterMap MshrEvent.return?

def marks (trace : List MshrEvent) : List Nat := trace.filterMap MshrEvent.mark

def releases (trace : List MshrEvent) : List Nat := trace.filterMap MshrEvent.release

/-- The requests of one block. -/
def requestsOf (b : Nat) (requests : List (Nat × MfId)) : List MfId :=
  requests.filterMap fun request => if request.1 = b then some request.2 else none

namespace MshrTable

/-- `m_data[block_addr]`, which inserts an absent entry. -/
def subscript (table : MshrTable) (blockAddr : Nat) : MshrTable :=
  if table.probe blockAddr then table else { table with data := table.data.insert blockAddr {} }

/-- The calls, each under the condition that its callers check. -/
inductive Step (cfg : CacheConfig) : MshrTable → List MshrEvent → MshrTable → Prop
  | add {table next : MshrTable} {b : Nat} {mf : MfId} {isAtomic : Bool} (room : table.full cfg b = false)
      (done : table.add cfg b mf isAtomic = .ok next) : Step cfg table [.added b mf] next
  | isReadAfterWritePending {table : MshrTable} {b : Nat} (present : table.probe b = true) :
      Step cfg table [] (table.subscript b)
  | markReady {table next : MshrTable} {b : Nat} {hasAtomic : Bool} (present : table.probe b = true)
      (unqueued : b ∉ table.currentResponse) (done : table.markReady b = .ok (hasAtomic, next)) :
      Step cfg table [.marked b] next
  | nextAccess {table next : MshrTable} {b : Nat} {mf : MfId} (ready : table.accessReady = true)
      (front : table.currentResponse.head? = some b) (done : table.nextAccess = .ok (mf, next)) :
      Step cfg table (.returned b mf :: if next.probe b then [] else [.released b]) next

def Run (cfg : CacheConfig) (trace : List MshrEvent) (table : MshrTable) : Prop :=
  Reaches (Step cfg) empty trace table

/-- A request comes back from the block whose mark is the first one that is not used up. -/
def FromFirstMark (before : List MshrEvent) (event : MshrEvent) : Prop :=
  ∀ b mf, event = .returned b mf → (marks before)[(releases before).length]? = some b

/-- What the calls so far have made of the table. -/
structure Tracks (cfg : CacheConfig) (trace : List MshrEvent) (table : MshrTable) : Prop where
  lists : ∀ b, requestsOf b (additions trace) = requestsOf b (returns trace) ++ table.list b
  queue : marks trace = releases trace ++ table.currentResponse
  order : Along FromFirstMark trace
  occupied : table.Occupied
  entries : table.data.size ≤ cfg.mshrEntries
  merged : ∀ b, (table.list b).length ≤ cfg.mshrMaxMerge
  ready : ∀ b ∈ table.currentResponse, table.probe b = true
  distinct : table.currentResponse.Nodup

/-- None of the calls that are allowed now runs into an assertion. -/
structure Responsive (cfg : CacheConfig) (table : MshrTable) : Prop where
  add : ∀ b mf isAtomic, table.full cfg b = false → ∃ next, table.add cfg b mf isAtomic = .ok next
  markReady : ∀ b, table.probe b = true → b ∉ table.currentResponse →
    ∃ hasAtomic next, table.markReady b = .ok (hasAtomic, next)
  nextAccess : table.accessReady = true → ∃ mf next, table.nextAccess = .ok (mf, next)

variable {cfg : CacheConfig} {table next : MshrTable} {b : Nat} {mf : MfId} {isAtomic : Bool}
  {trace events : List MshrEvent}

theorem subscript_of_present (present : table.probe b = true) : table.subscript b = table := if_pos present

theorem add_bounds (added : table.add cfg b mf isAtomic = .ok next) :
    next.data.size ≤ cfg.mshrEntries ∧ (table.list b).length + 1 ≤ cfg.mshrMaxMerge := by
  simp only [add] at added
  split at added
  next bounds =>
    cases added
    exact bounds
  next => contradiction

theorem probe_eq_false_of_list (occupied : table.Occupied) : table.probe b = false ↔ table.list b = [] := by
  rw [← Bool.not_eq_true, occupied b, not_not]

/-- No call but `add` makes the table larger. -/
theorem size_nextAccess (occupied : table.Occupied) (popped : table.nextAccess = .ok (mf, next)) :
    next.data.size ≤ table.data.size := by
  obtain ⟨b, rest, more, front, shape, -, -⟩ := nextAccess_ok popped
  have present : table.probe b = true := (occupied b).mpr (by simp [shape])
  simp only [MshrTable.nextAccess, front, shape] at popped
  split at popped
  · contradiction
  · cases popped
    exact AList.size_erase_le _ _
  · cases popped
    exact Nat.le_of_eq (AList.size_insert_of_mem _ (AList.lookup_isSome.mp present))

theorem Tracks.empty (cfg : CacheConfig) : Tracks cfg [] empty where
  lists _ := rfl
  queue := rfl
  order := .nil
  occupied := .empty
  entries := Nat.zero_le _
  merged _ := Nat.zero_le _
  ready := by simp [MshrTable.empty]
  distinct := .nil

end MshrTable

@[simp] theorem requestsOf_append (b : Nat) (early late : List (Nat × MfId)) :
    requestsOf b (early ++ late) = requestsOf b early ++ requestsOf b late := List.filterMap_append ..

@[simp] theorem requestsOf_nil (b : Nat) : requestsOf b [] = [] := rfl

theorem requestsOf_singleton (b c : Nat) (mf : MfId) : requestsOf b [(c, mf)] = if c = b then [mf] else [] := by
  by_cases same : c = b <;> simp [requestsOf, same]

namespace MshrTable

variable {cfg : CacheConfig} {table next : MshrTable} {b : Nat} {mf : MfId} {isAtomic : Bool}
  {trace events : List MshrEvent}

/-! ## What the calls keep -/

theorem Tracks.add (tracks : Tracks cfg trace table) (done : table.add cfg b mf isAtomic = .ok next) :
    Tracks cfg (trace ++ [.added b mf]) next := by
  obtain ⟨lists, response, -⟩ := add_ok done
  obtain ⟨entries, room⟩ := add_bounds done
  refine ⟨?_, ?_, tracks.order.append nofun, tracks.occupied.add done, entries, ?_, ?_, ?_⟩
  · intro c
    simp only [additions, returns, List.filterMap_append, requestsOf_append]
    change requestsOf c (additions trace) ++ requestsOf c [(b, mf)] = requestsOf c (returns trace) ++ [] ++ _
    rw [tracks.lists c, lists, requestsOf_singleton, List.append_nil, List.append_assoc]
    by_cases same : b = c
    · subst same
      simp
    · simp [same, Function.update_of_ne (Ne.symm same)]
  · simp only [marks, releases, List.filterMap_append]
    change marks trace ++ [] = releases trace ++ [] ++ _
    rw [tracks.queue, response, List.append_nil, List.append_nil]
  · intro c
    rw [lists]
    by_cases same : c = b
    · subst same
      simpa using room
    · rw [Function.update_of_ne same]
      exact tracks.merged c
  · intro c member
    rw [response] at member
    have present := (tracks.occupied c).mp (tracks.ready c member)
    refine (tracks.occupied.add done c).mpr ?_
    rw [lists]
    by_cases same : c = b
    · subst same
      simp
    · rwa [Function.update_of_ne same]
  · rw [response]
    exact tracks.distinct

theorem Tracks.markReady {hasAtomic : Bool} (tracks : Tracks cfg trace table) (present : table.probe b = true)
    (unqueued : b ∉ table.currentResponse) (done : table.markReady b = .ok (hasAtomic, next)) :
    Tracks cfg (trace ++ [.marked b]) next := by
  obtain ⟨data, response, -⟩ := markReady_ok done
  have lists := list_of_data data
  have probes : ∀ c, next.probe c = table.probe c := fun c => by simp only [probe, data]
  refine ⟨?_, ?_, tracks.order.append (by rintro _ _ ⟨⟩), tracks.occupied.of_data data,
    data ▸ tracks.entries, ?_, ?_, ?_⟩
  · intro c
    simp only [additions, returns, List.filterMap_append, requestsOf_append]
    change requestsOf c (additions trace) ++ [] = requestsOf c (returns trace) ++ [] ++ _
    rw [tracks.lists c, lists, List.append_nil, List.append_nil]
  · simp only [marks, releases, List.filterMap_append]
    change marks trace ++ [b] = releases trace ++ [] ++ _
    rw [tracks.queue, response, List.append_nil, List.append_assoc]
  · intro c
    rw [lists]
    exact tracks.merged c
  · intro c member
    rw [probes]
    rw [response, List.mem_append, List.mem_singleton] at member
    rcases member with early | rfl
    · exact tracks.ready c early
    · exact present
  · rw [response]
    exact List.nodup_append_comm.mp (List.nodup_cons.mpr ⟨unqueued, tracks.distinct⟩)

theorem Tracks.nextAccess (tracks : Tracks cfg trace table) (front : table.currentResponse.head? = some b)
    (done : table.nextAccess = .ok (mf, next)) :
    Tracks cfg (trace ++ .returned b mf :: if next.probe b then [] else [.released b]) next := by
  have occupied := tracks.occupied.nextAccess done
  have entries := Nat.le_trans (size_nextAccess tracks.occupied done) tracks.entries
  obtain ⟨b', rest, more, queue, shape, lists, response⟩ := nextAccess_ok done
  obtain rfl : b' = b := by simpa [queue] using front
  have here : next.list b' = more := by rw [lists, Function.update_self]
  have returned : Along FromFirstMark (trace ++ [.returned b' mf]) := by
    refine tracks.order.append ?_
    rintro c other ⟨⟩
    rw [tracks.queue, queue, List.getElem?_append_right (Nat.le_refl _), Nat.sub_self]
    rfl
  have distinct := tracks.distinct
  rw [queue, List.nodup_cons] at distinct
  have shorter : ∀ c, (next.list c).length ≤ (table.list c).length := by
    intro c
    rw [lists]
    by_cases same : c = b'
    · subst same
      simp [shape]
    · rw [Function.update_of_ne same]
  have merged := fun c => Nat.le_trans (shorter c) (tracks.merged c)
  have requests : ∀ c, requestsOf c (additions trace) =
      requestsOf c (returns trace) ++ requestsOf c [(b', mf)] ++ next.list c := by
    intro c
    rw [tracks.lists c, lists, requestsOf_singleton]
    by_cases same : b' = c
    · subst same
      simp [shape]
    · simp [same, Function.update_of_ne (Ne.symm same)]
  by_cases last : more = []
  · have gone : next.probe b' = false := (probe_eq_false_of_list occupied).mpr (here.trans last)
    rw [if_pos last] at response
    rw [gone, if_neg (by decide)]
    refine ⟨?_, ?_, ?_, occupied, entries, merged, ?_, ?_⟩
    · intro c
      simp only [additions, returns, List.filterMap_append, requestsOf_append]
      change requestsOf c (additions trace) ++ [] = requestsOf c (returns trace) ++ requestsOf c [(b', mf)] ++ _
      rw [requests c, List.append_nil]
    · simp only [marks, releases, List.filterMap_append]
      change marks trace ++ [] = releases trace ++ [b'] ++ _
      rw [tracks.queue, queue, response, List.append_nil, List.append_assoc, List.singleton_append]
    · rw [← List.singleton_append, ← List.append_assoc]
      exact returned.append nofun
    · intro c member
      rw [response] at member
      have apart : c ≠ b' := fun same => distinct.1 (same ▸ member)
      refine (occupied c).mpr ?_
      rw [lists, Function.update_of_ne apart]
      exact (tracks.occupied c).mp (tracks.ready c (queue ▸ List.mem_cons_of_mem _ member))
    · rw [response]
      exact distinct.2
  · have still : next.probe b' = true := (occupied b').mpr (here ▸ last)
    rw [if_neg last, ← queue] at response
    rw [still, if_pos rfl]
    refine ⟨?_, ?_, returned, occupied, entries, merged, ?_, ?_⟩
    · intro c
      simp only [additions, returns, List.filterMap_append, requestsOf_append]
      change requestsOf c (additions trace) ++ [] = requestsOf c (returns trace) ++ requestsOf c [(b', mf)] ++ _
      rw [requests c, List.append_nil]
    · simp only [marks, releases, List.filterMap_append]
      change marks trace ++ [] = releases trace ++ [] ++ _
      rw [tracks.queue, response, List.append_nil, List.append_nil]
    · intro c member
      rw [response] at member
      by_cases same : c = b'
      · rw [same]
        exact still
      · refine (occupied c).mpr ?_
        rw [lists, Function.update_of_ne same]
        exact (tracks.occupied c).mp (tracks.ready c member)
    · rw [response]
      exact tracks.distinct

theorem Tracks.step (tracks : Tracks cfg trace table) (step : Step cfg table events next) :
    Tracks cfg (trace ++ events) next := by
  cases step with
  | add room done => exact tracks.add done
  | isReadAfterWritePending present =>
      rw [subscript_of_present present, List.append_nil]
      exact tracks
  | markReady present unqueued done => exact tracks.markReady present unqueued done
  | nextAccess ready front done => exact tracks.nextAccess front done

theorem tracks_of_run (run : Run cfg trace table) : Tracks cfg trace table := by
  induction run with
  | refl => exact .empty cfg
  | next _ stepped ih => exact ih.step stepped

end MshrTable

theorem count_requestsOf (b : Nat) (mf : MfId) (requests : List (Nat × MfId)) :
    (requestsOf b requests).count mf = requests.count (b, mf) := by
  induction requests with
  | nil => rfl
  | cons request rest ih =>
      obtain ⟨c, other⟩ := request
      rw [requestsOf, List.filterMap_cons, List.count_cons, ← ih]
      by_cases same : c = b
      · simp [requestsOf, same, List.count_cons]
      · simp [requestsOf, same]

namespace MshrTable

variable {cfg : CacheConfig} {table : MshrTable} {b : Nat} {trace : List MshrEvent}

/-! ## Calls that are allowed succeed -/

/-- What is asked of the registers: requests come back once and in order, their blocks in the order of
their marks, nothing is lost, the table keeps its bounds and no assertion fires. -/
structure Serves (cfg : CacheConfig) (trace : List MshrEvent) (table : MshrTable) : Prop where
  once : ((returns trace).map Prod.snd).Subperm ((additions trace).map Prod.snd)
  lists : ∀ b, requestsOf b (additions trace) = requestsOf b (returns trace) ++ table.list b
  queue : marks trace = releases trace ++ table.currentResponse
  order : Along FromFirstMark trace
  entries : table.data.size ≤ cfg.mshrEntries
  merged : ∀ b, (table.list b).length ≤ cfg.mshrMaxMerge
  nonempty : ∀ b, table.probe b = true → table.list b ≠ []
  responsive : Responsive cfg table

/-- A table with an entry has room for a request in it. -/
def HoldsRequests (cfg : CacheConfig) : Prop := cfg.mshrEntries = 0 ∨ 1 ≤ cfg.mshrMaxMerge

theorem Tracks.once (tracks : Tracks cfg trace table) :
    ((returns trace).map Prod.snd).Subperm ((additions trace).map Prod.snd) := by
  have pairs : (returns trace).Subperm (additions trace) := by
    refine List.subperm_ext_iff.mpr ?_
    rintro ⟨b, mf⟩ -
    rw [← count_requestsOf, ← count_requestsOf, tracks.lists b, List.count_append]
    exact Nat.le_add_right _ _
  obtain ⟨same, perm, sub⟩ := pairs
  exact ⟨same.map Prod.snd, perm.map _, sub.map _⟩

theorem Tracks.add_ok (tracks : Tracks cfg trace table) (holds : HoldsRequests cfg) (mf : MfId) (isAtomic : Bool)
    (room : table.full cfg b = false) : ∃ next, table.add cfg b mf isAtomic = .ok next := by
  suffices bounds : (table.data.insert b ⟨(table.entry b).list ++ [mf], (table.entry b).hasAtomic || isAtomic⟩).size ≤
      cfg.mshrEntries ∧ (table.entry b).list.length + 1 ≤ cfg.mshrMaxMerge from
    ⟨_, by simp only [MshrTable.add]; rw [if_pos bounds]⟩
  unfold full at room
  split at room
  next entry found =>
    have present : b ∈ table.data := AList.lookup_isSome.mp (by simp [found])
    rw [AList.size_insert_of_mem _ present]
    refine ⟨tracks.entries, ?_⟩
    have same : table.entry b = entry := by
      rw [MshrTable.entry, found]
      rfl
    rw [same]
    exact Nat.lt_of_not_le (of_decide_eq_false room)
  next absent =>
    have absent' : b ∉ table.data := AList.lookup_eq_none.mp absent
    have short : table.data.size < cfg.mshrEntries := by simpa using room
    rw [AList.size_insert_of_notMem _ absent']
    refine ⟨short, ?_⟩
    have held := holds.resolve_left (by omega)
    simpa [MshrTable.entry, absent] using held

theorem Tracks.markReady_ok (tracks : Tracks cfg trace table) (present : table.probe b = true)
    (unqueued : b ∉ table.currentResponse) : ∃ hasAtomic next, table.markReady b = .ok (hasAtomic, next) := by
  obtain ⟨entry, found⟩ := Option.isSome_iff_exists.mp present
  have distinct : (table.currentResponse ++ [b]).Nodup :=
    List.nodup_append_comm.mp (List.nodup_cons.mpr ⟨unqueued, tracks.distinct⟩)
  have inside : table.currentResponse ++ [b] ⊆ table.data.keys := by
    intro c member
    refine AList.mem_keys.mp (AList.lookup_isSome.mp ?_)
    rcases List.mem_append.mp member with early | last
    · exact tracks.ready c early
    · obtain rfl := List.mem_singleton.mp last
      exact present
  have bound := (List.subperm_of_subset distinct inside).length_le
  rw [← AList.size_eq_length_keys] at bound
  simp only [MshrTable.markReady, found, if_pos bound]
  exact ⟨_, _, rfl⟩

theorem Tracks.nextAccess_ok (tracks : Tracks cfg trace table) (ready : table.accessReady = true) :
    ∃ mf next, table.nextAccess = .ok (mf, next) := by
  cases queue : table.currentResponse with
  | nil => simp [accessReady, queue] at ready
  | cons b rest =>
      have present := tracks.ready b (by simp [queue])
      obtain ⟨mf, more, shape⟩ := List.exists_cons_of_ne_nil ((tracks.occupied b).mp present)
      simp only [MshrTable.nextAccess, queue, shape]
      cases more with
      | nil => exact ⟨_, _, rfl⟩
      | cons second later => exact ⟨_, _, rfl⟩

theorem Tracks.responsive (tracks : Tracks cfg trace table) (holds : HoldsRequests cfg) : Responsive cfg table where
  add _ mf isAtomic room := tracks.add_ok holds mf isAtomic room
  markReady _ present unqueued := tracks.markReady_ok present unqueued
  nextAccess ready := tracks.nextAccess_ok ready

theorem Tracks.serves (tracks : Tracks cfg trace table) (holds : HoldsRequests cfg) : Serves cfg trace table where
  once := tracks.once
  lists := tracks.lists
  queue := tracks.queue
  order := tracks.order
  entries := tracks.entries
  merged := tracks.merged
  nonempty b := (tracks.occupied b).mp
  responsive := tracks.responsive holds

/-- In all runs of their calls the registers serve their requests, if an entry has room for one at all. -/
theorem registers_serve_iff (cfg : CacheConfig) :
    (∀ trace table, Run cfg trace table → Serves cfg trace table) ↔ HoldsRequests cfg := by
  constructor
  · intro serves
    by_contra fails
    obtain ⟨entries, merge⟩ := not_or.mp fails
    have room : empty.full cfg 0 = false := by
      simpa [full, MshrTable.empty] using entries
    obtain ⟨next, added⟩ := (serves [] empty .refl).responsive.add 0 (.request 0) false room
    have bound := (add_bounds added).2
    omega
  · exact fun holds trace table run => (tracks_of_run run).serves holds

/-- Registers of these sizes in an otherwise small cache. -/
def registers (entries maxMerge : Nat) : CacheConfig where
  cacheType := .normal
  nset := 1
  lineSize := 128
  assoc := 1
  replacementPolicy := .lru
  writePolicy := .readOnly
  allocPolicy := .onMiss
  isStreaming := false
  mshrType := .assoc
  mshrEntries := entries
  mshrMaxMerge := maxMerge
  missQueueSize := 8
  dataPortWidth := 128
  setIndex _ := 0

/-- An entry without room for requests is not full as long as it is not there. -/
theorem add_without_room :
    Run (registers 1 0) [] empty ∧ empty.full (registers 1 0) 0 = false ∧
      empty.add (registers 1 0) 0 (.request 0) false = .error .assertion :=
  ⟨.refl, rfl, rfl⟩

end MshrTable

end GpgpuSim.Cache
