import GpgpuSim.Containers.RecentlyUsed
import GpgpuSim.Containers.UnorderedMap
import Mathlib.Data.List.Induction
import Mathlib.Data.List.GetD
import Mathlib.Order.Basic
import Mathlib.Tactic.NormNum

/-! The similarity cache: a list of strings in order of use and a map from each string
to its node in the list. A node is a number; erasing a node that is not in the list,
which C++ leaves undefined, has no result. -/
namespace GpgpuSim.Partition
open Containers

structure SimilarityCache where
  cacheMap : AList fun _ : String => Nat
  /-- Nodes with their keys, the front of the list first. -/
  cacheList : List (Nat × String)
  nextNode : Nat
  totalRequest : Nat
  numHit : Nat
  maxCacheSize : Int

namespace SimilarityCache

/-- The `int` a `size_t` is stored in. -/
def toInt (size : Nat) : Int := Int.bmod size (2 ^ 32)

def ofSize (maxCacheSize : Int) : SimilarityCache := ⟨∅, [], 0, 0, 0, maxCacheSize⟩

/-- The constructor. -/
def create (cacheSize : Nat) : SimilarityCache := ofSize (toInt cacheSize)

/-- `cache_list.erase` of an iterator. -/
def eraseNode (node : Nat) (cacheList : List (Nat × String)) : Option (List (Nat × String)) :=
  if cacheList.any (·.1 == node) then some (cacheList.filter (·.1 != node)) else none

/-- `push_front`, and the map entry for the new node. -/
def pushFront (cache : SimilarityCache) (key : String) : SimilarityCache :=
  { cache with
    cacheMap := cache.cacheMap.insert key cache.nextNode
    cacheList := (cache.nextNode, key) :: cache.cacheList
    nextNode := cache.nextNode + 1 }

/-- The `size_t` an `int` is converted to where it is compared with one. -/
def toSize (value : Int) : Nat := (value % 2 ^ 64).toNat

def sizeLimit (cache : SimilarityCache) : Nat := toSize cache.maxCacheSize

def evictLru (cache : SimilarityCache) : SimilarityCache :=
  match cache.cacheList.getLast? with
  | none => cache
  | some (_, lruKey) =>
      if cache.cacheList.length > cache.sizeLimit then
        { cache with
          cacheList := cache.cacheList.dropLast
          cacheMap := cache.cacheMap.erase lruKey }
      else cache

def checkAndUpdate (cache : SimilarityCache) (memStr : String) : Option SimilarityCache :=
  if memStr = "0" then some cache
  else
    let counted := { cache with totalRequest := cache.totalRequest + 1 }
    match counted.cacheMap.lookup memStr with
    | some node => do
        let rest ← eraseNode node counted.cacheList
        let hit := { counted with numHit := counted.numHit + 1, cacheList := rest }
        return (hit.pushFront memStr).evictLru
    | none => some (counted.pushFront memStr).evictLru

/-- A sequence of calls. -/
def checkAndUpdateAll (cache : SimilarityCache) (calls : List String) : Option SimilarityCache :=
  calls.foldlM checkAndUpdate cache

/-! ## The list and the map -/

def keys (cache : SimilarityCache) : List String := cache.cacheList.map Prod.snd

/-- The map leads from the keys of the list, and from no others, to their own nodes. -/
structure Linked (cache : SimilarityCache) : Prop where
  nodes : (cache.cacheList.map Prod.fst).Nodup
  keys : cache.keys.Nodup
  fresh : ∀ entry ∈ cache.cacheList, entry.1 < cache.nextNode
  points : ∀ key node, cache.cacheMap.lookup key = some node ↔ (node, key) ∈ cache.cacheList

variable {cache : SimilarityCache} {key : String} {node : Nat} {rest : List (Nat × String)}

theorem Linked.ofSize (maxCacheSize : Int) : (ofSize maxCacheSize).Linked where
  nodes := .nil
  keys := .nil
  fresh := by simp [SimilarityCache.ofSize]
  points := by simp [SimilarityCache.ofSize]

theorem Linked.lookup_eq_none (linked : cache.Linked) : cache.cacheMap.lookup key = none ↔ key ∉ cache.keys := by
  rw [Option.eq_none_iff_forall_ne_some, SimilarityCache.keys, List.mem_map]
  constructor
  · rintro none ⟨⟨node, _⟩, member, rfl⟩
    exact none node ((linked.points _ node).mpr member)
  · exact fun absent node found => absent ⟨(node, key), (linked.points key node).mp found, rfl⟩

/-- Taking the node of a key out of the list. -/
theorem Linked.eraseNode (linked : cache.Linked) (found : cache.cacheMap.lookup key = some node) :
    ∃ rest, eraseNode node cache.cacheList = some rest ∧ rest.map Prod.snd = cache.keys.erase key ∧
      (∀ entry, entry ∈ rest ↔ entry ∈ cache.cacheList ∧ entry.2 ≠ key) ∧ rest.Sublist cache.cacheList := by
  have member := (linked.points key node).mp found
  have present : cache.cacheList.any (·.1 == node) = true :=
    List.any_eq_true.mpr ⟨_, member, by simp⟩
  have same : ∀ entry ∈ cache.cacheList, (entry.1 != node) = (entry.2 != key) := by
    intro entry inside
    have onNodes := List.inj_on_of_nodup_map linked.nodes inside member
    have onKeys := List.inj_on_of_nodup_map linked.keys inside member
    by_cases onNode : entry.1 = node
    · rw [onNodes onNode]
      simp only [bne_self_eq_false]
    · have other : entry.2 ≠ key := fun onKey => onNode (congrArg Prod.fst (onKeys onKey))
      rw [bne_iff_ne.mpr onNode, bne_iff_ne.mpr other]
  refine ⟨cache.cacheList.filter (·.2 != key), ?_, ?_, ?_, List.filter_sublist⟩
  · rw [SimilarityCache.eraseNode, if_pos present, List.filter_congr same]
  · rw [linked.keys.erase_eq_filter, SimilarityCache.keys, List.filter_map]
    rfl
  · intro entry
    simp [List.mem_filter]

/-- A key in front of a list without it. -/
theorem Linked.pushFront (linked : cache.Linked) {counted : SimilarityCache} (map : counted.cacheMap = cache.cacheMap)
    (next : counted.nextNode = cache.nextNode) (without : counted.keys = cache.keys.erase key)
    (part : ∀ entry, entry ∈ counted.cacheList ↔ entry ∈ cache.cacheList ∧ entry.2 ≠ key)
    (sub : counted.cacheList.Sublist cache.cacheList) : (counted.pushFront key).Linked := by
  have new : counted.nextNode ∉ counted.cacheList.map Prod.fst := by
    intro member
    obtain ⟨entry, inside, same⟩ := List.mem_map.mp member
    have := linked.fresh entry ((part entry).mp inside).1
    omega
  constructor
  · exact List.nodup_cons.mpr ⟨new, linked.nodes.sublist (sub.map _)⟩
  · refine List.nodup_cons.mpr ⟨?_, linked.keys.sublist (sub.map _)⟩
    rw [show counted.cacheList.map Prod.snd = _ from without]
    exact linked.keys.not_mem_erase
  · intro entry member
    rcases List.mem_cons.mp member with rfl | member
    · exact Nat.lt_succ_self _
    · have := linked.fresh entry ((part entry).mp member).1
      simp only [SimilarityCache.pushFront]
      omega
  · intro other node
    simp only [SimilarityCache.pushFront, List.mem_cons, Prod.mk.injEq]
    by_cases same : other = key
    · subst same
      simp [AList.lookup_insert, part, eq_comm]
    · rw [AList.lookup_insert_ne same, map, linked.points, part]
      simp [same]

variable {next : SimilarityCache} {n : Nat} {calls : List String} {s : String}

/-- An eviction takes the last key out of the list and out of the map. -/
theorem Linked.evictLru (linked : cache.Linked) (limit : cache.sizeLimit = n)
    (small : cache.cacheList.length ≤ n + 1) :
    cache.evictLru.Linked ∧ cache.evictLru.keys = cache.keys.take n := by
  rcases List.eq_nil_or_concat cache.cacheList with empty | ⟨init, ⟨lruNode, lruKey⟩, shape⟩
  · have same : cache.evictLru = cache := by simp [SimilarityCache.evictLru, empty]
    rw [same]
    exact ⟨linked, by simp [SimilarityCache.keys, empty]⟩
  · rw [List.concat_eq_append] at shape
    by_cases full : cache.cacheList.length > n
    · have evicted : cache.evictLru =
          { cache with cacheList := init, cacheMap := cache.cacheMap.erase lruKey } := by
        rw [SimilarityCache.evictLru, shape, List.getLast?_concat]
        dsimp only
        rw [← shape, limit, if_pos full, shape, List.dropLast_concat]
      have apart := linked.keys
      rw [SimilarityCache.keys, shape, List.map_append, List.nodup_append] at apart
      have old : ∀ entry ∈ init, entry.2 ≠ lruKey := fun entry inside same =>
        apart.2.2 entry.2 (List.mem_map_of_mem inside) lruKey (by simp) same
      rw [evicted]
      refine ⟨⟨?_, apart.1, ?_, ?_⟩, ?_⟩
      · have nodes := linked.nodes
        rw [shape, List.map_append] at nodes
        exact nodes.of_append_left
      · exact fun entry inside => linked.fresh entry (by simp [shape, inside])
      · intro key node
        dsimp only
        by_cases same : key = lruKey
        · subst same
          simp only [AList.lookup_erase, reduceCtorEq, false_iff]
          exact fun inside => old _ inside rfl
        · rw [AList.lookup_erase_ne same, linked.points, shape]
          simp [same]
      · have count : init.length = n := by
          have := congrArg List.length shape
          simp only [List.length_append, List.length_singleton] at this
          omega
        simp only [SimilarityCache.keys, shape, List.map_append]
        rw [List.take_left' (by simpa using count)]
    · have same : cache.evictLru = cache := by
        rw [SimilarityCache.evictLru, shape, List.getLast?_concat]
        dsimp only
        rw [← shape, limit, if_neg full]
      rw [same]
      refine ⟨linked, (List.take_of_length_le ?_).symm⟩
      rw [SimilarityCache.keys, List.length_map]
      omega

/-- The counters and the limit are not touched by an eviction. -/
theorem evictLru_counters (cache : SimilarityCache) :
    cache.evictLru.numHit = cache.numHit ∧ cache.evictLru.totalRequest = cache.totalRequest ∧
      cache.evictLru.sizeLimit = cache.sizeLimit := by
  unfold evictLru
  split
  · exact ⟨rfl, rfl, rfl⟩
  · split <;> exact ⟨rfl, rfl, rfl⟩

/-! ## Runs -/

/-- The calls that count: all but those for a block of zeros. -/
def requests (calls : List String) : List String := calls.filter (· ≠ "0")

/-- The string is among the `n` most recently used ones. -/
def IsHit (n : Nat) (before : List String) (memStr : String) : Prop :=
  memStr ≠ "0" ∧ memStr ∈ (recent (requests before)).take n

instance (n : Nat) (before : List String) (memStr : String) : Decidable (IsHit n before memStr) :=
  inferInstanceAs (Decidable (_ ∧ _))

/-- How many of the calls find their string among the `n` most recently used ones before it. -/
def hits (n : Nat) (calls : List String) : Nat :=
  (List.range calls.length).countP fun i => decide (IsHit n (calls.take i) (calls.getD i "0"))

theorem hits_append_singleton (n : Nat) (calls : List String) (s : String) :
    hits n (calls ++ [s]) = hits n calls + if IsHit n calls s then 1 else 0 := by
  have before : (List.range calls.length).countP
      (fun i => decide (IsHit n ((calls ++ [s]).take i) ((calls ++ [s]).getD i "0"))) = hits n calls := by
    refine List.countP_congr fun i member => ?_
    have inside := List.mem_range.mp member
    rw [List.take_append_of_le_length inside.le, List.getD_append _ _ _ _ inside]
  rw [hits, List.length_append, List.length_singleton, List.range_succ, List.countP_append, before,
    List.countP_singleton]
  simp

/-- What the cache has become after these calls. -/
structure Tracks (n : Nat) (calls : List String) (cache : SimilarityCache) : Prop where
  linked : cache.Linked
  keys : cache.keys = (recent (requests calls)).take n
  numHit : cache.numHit = hits n calls
  totalRequest : cache.totalRequest = (requests calls).length
  limit : cache.sizeLimit = n

theorem Tracks.length_le (tracks : Tracks n calls cache) : cache.cacheList.length ≤ n := by
  rw [← List.length_map (f := Prod.snd), show cache.cacheList.map Prod.snd = _ from tracks.keys]
  exact List.length_take_le n _

/-- The new front of the list, once what was there of its key is gone, and the eviction behind it. -/
theorem Tracks.pushFront (tracks : Tracks n calls cache) (positive : 0 < n) (counts : s ≠ "0")
    (counted : SimilarityCache) (map : counted.cacheMap = cache.cacheMap)
    (next : counted.nextNode = cache.nextNode) (without : counted.keys = cache.keys.erase s)
    (part : ∀ entry, entry ∈ counted.cacheList ↔ entry ∈ cache.cacheList ∧ entry.2 ≠ s)
    (sub : counted.cacheList.Sublist cache.cacheList)
    (hit : counted.numHit = cache.numHit + if s ∈ cache.keys then 1 else 0)
    (total : counted.totalRequest = cache.totalRequest + 1) (size : counted.maxCacheSize = cache.maxCacheSize) :
    Tracks n (calls ++ [s]) (counted.pushFront s).evictLru := by
  have requested : requests (calls ++ [s]) = requests calls ++ [s] := by simp [requests, counts]
  have present : IsHit n calls s ↔ s ∈ cache.keys := by
    rw [IsHit, tracks.keys]
    simp [counts]
  have linked := tracks.linked.pushFront map next without part sub
  have limit : (counted.pushFront s).sizeLimit = n := by
    rw [← tracks.limit]
    exact congrArg toSize size
  have short : (counted.pushFront s).cacheList.length ≤ n + 1 :=
    Nat.succ_le_succ (sub.length_le.trans tracks.length_le)
  obtain ⟨evicted, kept⟩ := linked.evictLru limit short
  obtain ⟨sameHit, sameTotal, sameLimit⟩ := evictLru_counters (counted.pushFront s)
  refine ⟨evicted, ?_, ?_, ?_, sameLimit.trans limit⟩
  · rw [kept, requested, take_recent_append_singleton positive, touch, ← tracks.keys, ← without]
    rfl
  · rw [hits_append_singleton, ← tracks.numHit, sameHit]
    simp only [present]
    exact hit
  · rw [requested, List.length_append, List.length_singleton, ← tracks.totalRequest, sameTotal]
    exact total

/-- A call for a block that is not all zeros. -/
theorem Tracks.request (tracks : Tracks n calls cache) (positive : 0 < n) (counts : s ≠ "0") :
    ∃ next, cache.checkAndUpdate s = some next ∧ Tracks n (calls ++ [s]) next := by
  cases found : cache.cacheMap.lookup s with
  | some node =>
      have hit : s ∈ cache.keys :=
        List.mem_map.mpr ⟨(node, s), (tracks.linked.points s node).mp found, rfl⟩
      obtain ⟨rest, erased, without, part, sub⟩ := tracks.linked.eraseNode found
      let counted := { cache with
        totalRequest := cache.totalRequest + 1
        numHit := cache.numHit + 1
        cacheList := rest }
      refine ⟨_, ?_, tracks.pushFront positive counts counted rfl rfl without part sub
        (by simp [counted, hit]) rfl rfl⟩
      simp only [checkAndUpdate, if_neg counts, found, erased]
      rfl
  | none =>
      have absent := tracks.linked.lookup_eq_none.mp found
      have other : ∀ entry ∈ cache.cacheList, entry.2 ≠ s := by
        rintro entry inside rfl
        exact absent (List.mem_map_of_mem inside)
      let counted := { cache with totalRequest := cache.totalRequest + 1 }
      refine ⟨_, ?_, tracks.pushFront positive counts counted rfl rfl (List.erase_of_not_mem absent).symm
        (fun entry => ⟨fun inside => ⟨inside, other entry inside⟩, And.left⟩) (.refl _)
        (by simp [counted, absent]) rfl rfl⟩
      simp only [checkAndUpdate, if_neg counts, found]
      rfl

/-- One call more. -/
theorem Tracks.call (tracks : Tracks n calls cache) (positive : 0 < n) (s : String) :
    ∃ next, cache.checkAndUpdate s = some next ∧ Tracks n (calls ++ [s]) next := by
  by_cases zeros : s = "0"
  · subst zeros
    have same : requests (calls ++ ["0"]) = requests calls := by simp [requests]
    refine ⟨cache, by simp [checkAndUpdate], tracks.linked, ?_, ?_, ?_, tracks.limit⟩
    · rw [same, tracks.keys]
    · rw [hits_append_singleton, tracks.numHit]
      simp [IsHit]
    · rw [same, tracks.totalRequest]
  · exact tracks.request positive zeros

/-- A number that a narrow signed word holds without being negative is the same in a wider unsigned one. -/
theorem emod_of_bmod {x wide : Int} {narrow : Nat} (some : 0 < narrow) (wider : (narrow : Int) ≤ wide)
    (size : Int.bmod x narrow = n) : ((n : Int) % wide).toNat = n := by
  have below := Int.bmod_lt (x := x) some
  rw [size] at below
  rw [Int.emod_eq_of_lt (Int.natCast_nonneg n) (by omega), Int.toNat_natCast]

theorem toSize_of_toInt {size : Nat} (held : toInt size = n) : toSize n = n := by
  unfold toInt at held
  exact emod_of_bmod (by norm_num) (by norm_num) held

/-- Any sequence of calls on a cache of at least one entry. -/
theorem checkAndUpdateAll_tracks {cacheSize : Nat} (size : toInt cacheSize = n) (positive : 1 ≤ n)
    (calls : List String) :
    ∃ cache, (create cacheSize).checkAndUpdateAll calls = some cache ∧ Tracks n calls cache := by
  rw [create, size]
  induction calls using List.reverseRecOn with
  | nil => exact ⟨ofSize n, rfl, .ofSize n, List.take_nil.symm, rfl, rfl, toSize_of_toInt size⟩
  | append_singleton calls s ih =>
      obtain ⟨cache, done, tracks⟩ := ih
      obtain ⟨next, called, tracks'⟩ := tracks.call positive s
      refine ⟨next, ?_, tracks'⟩
      rw [checkAndUpdateAll, List.foldlM_append, show calls.foldlM checkAndUpdate _ = _ from done]
      simp [called]

/-- After any calls the hits are exactly those of a true LRU of this size; the map and the list hold the
same keys, each once and at its own node, and no more of them than the size. -/
theorem similarity_cache_is_lru (cacheSize n : Nat) (size : toInt cacheSize = n) (positive : 1 ≤ n)
    (calls : List String) :
    ∃ cache, (create cacheSize).checkAndUpdateAll calls = some cache ∧ cache.numHit = hits n calls ∧
      (∀ key, (cache.cacheMap.lookup key).isSome ↔ key ∈ cache.keys) ∧
      (∀ key node, cache.cacheMap.lookup key = some node ↔ (node, key) ∈ cache.cacheList) ∧
      cache.keys.Nodup ∧ cache.cacheList.length ≤ n := by
  obtain ⟨cache, done, tracks⟩ := checkAndUpdateAll_tracks size positive calls
  refine ⟨cache, done, tracks.numHit, ?_, tracks.linked.points, tracks.linked.keys, tracks.length_le⟩
  intro key
  rw [← not_iff_not, Option.not_isSome_iff_eq_none, tracks.linked.lookup_eq_none]

/-- The second and the last call hit a cache for two strings. -/
theorem similarity_cache_is_lru_of_two :
    ∃ cache, (create 2).checkAndUpdateAll ["a", "a", "0", "b", "c", "a", "c"] = some cache ∧
      cache.numHit = hits 2 ["a", "a", "0", "b", "c", "a", "c"] ∧
      (∀ key, (cache.cacheMap.lookup key).isSome ↔ key ∈ cache.keys) ∧
      (∀ key node, cache.cacheMap.lookup key = some node ↔ (node, key) ∈ cache.cacheList) ∧
      cache.keys.Nodup ∧ cache.cacheList.length ≤ 2 :=
  similarity_cache_is_lru 2 2 (by decide) (by decide) ["a", "a", "0", "b", "c", "a", "c"]

end SimilarityCache

end GpgpuSim.Partition
