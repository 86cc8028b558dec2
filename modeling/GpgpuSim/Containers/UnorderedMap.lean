import Mathlib.Data.List.AList

/-! Finite maps with an unspecified iteration order, as the associations of an
`AList`. Programs iterate over `pairs`; statements about the contents of a map go
through `pairs` up to permutation. -/
namespace AList

variable {κ ν : Type*}

/-- The stored associations, in iteration order. -/
def pairs (m : AList fun _ : κ => ν) : List (κ × ν) := m.entries.map fun e => (e.1, e.2)

def size (m : AList fun _ : κ => ν) : Nat := m.entries.length

@[simp] theorem length_pairs (m : AList fun _ : κ => ν) : m.pairs.length = m.size :=
  List.length_map ..

@[simp] theorem pairs_empty : (∅ : AList fun _ : κ => ν).pairs = [] := rfl

@[simp] theorem size_empty : (∅ : AList fun _ : κ => ν).size = 0 := rfl

theorem size_eq_length_keys (m : AList fun _ : κ => ν) : m.size = m.keys.length :=
  (List.length_map _).symm

theorem map_fst_pairs (m : AList fun _ : κ => ν) : m.pairs.map Prod.fst = m.keys := by
  simp [pairs, keys, List.keys]

theorem nodup_pairs_keys (m : AList fun _ : κ => ν) : (m.pairs.map Prod.fst).Nodup :=
  m.map_fst_pairs ▸ m.keys_nodup

theorem nodup_pairs (m : AList fun _ : κ => ν) : m.pairs.Nodup :=
  m.nodup_pairs_keys.of_map _

/-- Rewrites each value, erasing the associations for which `f` answers `none`. -/
def filterMapValues (f : ν → Option ν) (m : AList fun _ : κ => ν) : AList fun _ : κ => ν where
  entries := m.entries.filterMap fun e => (f e.2).map (Sigma.mk e.1)
  nodupKeys := by
    have kept : ((m.entries.filterMap fun e => (f e.2).map (Sigma.mk (β := fun _ : κ => ν) e.1)).keys).Sublist
        m.keys := by
      simp only [List.keys, AList.keys]
      induction m.entries with
      | nil => simp
      | cons e entries ih =>
          rw [List.filterMap_cons]
          cases f e.2 with
          | none => exact ih.cons _
          | some value => exact ih.cons_cons _
    exact kept.nodup m.keys_nodup

theorem pairs_filterMapValues (f : ν → Option ν) (m : AList fun _ : κ => ν) :
    (m.filterMapValues f).pairs = m.pairs.filterMap fun p => (f p.2).map (Prod.mk p.1) := by
  simp only [pairs, filterMapValues, List.filterMap_map, List.map_filterMap]
  congr 1
  funext e
  cases h : f e.2 <;> simp [h]

variable [DecidableEq κ]

theorem mem_pairs {m : AList fun _ : κ => ν} {p : κ × ν} : p ∈ m.pairs ↔ m.lookup p.1 = some p.2 := by
  have := mem_lookup_iff (a := p.1) (b := p.2) (s := m)
  rw [Option.mem_def] at this
  rw [this, pairs, List.mem_map]
  constructor
  · rintro ⟨e, member, rfl⟩
    exact member
  · intro member
    exact ⟨_, member, rfl⟩

theorem pairs_erase_perm (m : AList fun _ : κ => ν) (k : κ) :
    (m.erase k).pairs.Perm (m.pairs.filter fun p => p.1 ≠ k) := by
  refine (List.perm_ext_iff_of_nodup (nodup_pairs _) (m.nodup_pairs.filter _)).mpr ?_
  intro p
  rw [List.mem_filter, mem_pairs, mem_pairs]
  by_cases same : p.1 = k
  · subst same
    simp
  · simp [lookup_erase_ne same, same]

/-- Storing under `k` replaces whatever was there. -/
theorem pairs_insert_perm (m : AList fun _ : κ => ν) (k : κ) (v : ν) :
    (m.insert k v).pairs.Perm ((k, v) :: m.pairs.filter fun p => p.1 ≠ k) :=
  (m.pairs_erase_perm k).cons _

theorem pairs_insert_of_notMem {m : AList fun _ : κ => ν} {k : κ} (fresh : k ∉ m) (v : ν) :
    (m.insert k v).pairs = (k, v) :: m.pairs := by
  simp only [pairs, entries_insert_of_notMem fresh, List.map_cons]

/-- The old association of a present key, taken out of the list. -/
theorem pairs_perm_of_lookup {m : AList fun _ : κ => ν} {k : κ} {v : ν} (h : m.lookup k = some v) :
    m.pairs.Perm ((k, v) :: m.pairs.filter fun p => p.1 ≠ k) := by
  have key : ∀ p ∈ m.pairs, p.1 = k → p = (k, v) := by
    rintro ⟨k', v'⟩ member rfl
    rw [mem_pairs.mp member] at h
    simpa using h
  refine (List.perm_ext_iff_of_nodup m.nodup_pairs ?_).mpr ?_
  · refine List.nodup_cons.mpr ⟨?_, m.nodup_pairs.filter _⟩
    simp [List.mem_filter]
  · intro p
    rw [List.mem_cons, List.mem_filter]
    constructor
    · intro member
      by_cases same : p.1 = k
      · exact .inl (key p member same)
      · exact .inr ⟨member, by simpa using same⟩
    · rintro (rfl | ⟨member, _⟩)
      · exact mem_pairs.mpr h
      · exact member

theorem size_insert_of_mem {m : AList fun _ : κ => ν} {k : κ} (v : ν) (h : k ∈ m) :
    (m.insert k v).size = m.size := by
  obtain ⟨old, found⟩ := Option.isSome_iff_exists.mp (lookup_isSome.mpr h)
  rw [← length_pairs, ← length_pairs, (m.pairs_insert_perm k v).length_eq,
    (pairs_perm_of_lookup found).length_eq]
  simp only [List.length_cons]

theorem size_insert_of_notMem {m : AList fun _ : κ => ν} {k : κ} (v : ν) (h : k ∉ m) :
    (m.insert k v).size = m.size + 1 := by
  rw [← length_pairs, pairs_insert_of_notMem h, List.length_cons, length_pairs]

theorem size_erase_le (m : AList fun _ : κ => ν) (k : κ) : (m.erase k).size ≤ m.size := by
  rw [size_eq_length_keys, size_eq_length_keys, keys_erase]
  exact List.length_erase_le

/-- Storing a list of associations one after the other. -/
def insertAll (m : AList fun _ : κ => ν) (l : List (κ × ν)) : AList fun _ : κ => ν :=
  l.foldl (fun m p => m.insert p.1 p.2) m

@[simp] theorem insertAll_nil (m : AList fun _ : κ => ν) : m.insertAll [] = m := rfl

@[simp] theorem insertAll_cons (m : AList fun _ : κ => ν) (p : κ × ν) (l : List (κ × ν)) :
    m.insertAll (p :: l) = (m.insert p.1 p.2).insertAll l := rfl

theorem pairs_insertAll {m : AList fun _ : κ => ν} {l : List (κ × ν)}
    (distinct : (l.map Prod.fst).Nodup) (fresh : ∀ p ∈ l, p.1 ∉ m) :
    (m.insertAll l).pairs.Perm (l ++ m.pairs) := by
  induction l generalizing m with
  | nil => simp
  | cons p l ih =>
      obtain ⟨new, distinct⟩ := List.nodup_cons.mp distinct
      have here := fresh p (by simp)
      have later : ∀ q ∈ l, q.1 ∉ m.insert p.1 p.2 := by
        intro q member
        rw [mem_insert, not_or]
        refine ⟨?_, fresh q (by simp [member])⟩
        intro same
        exact new (same ▸ List.mem_map_of_mem member)
      refine (ih distinct later).trans ?_
      rw [pairs_insert_of_notMem here]
      exact List.perm_middle

/-- A map filled from empty holds the list it was filled with. -/
theorem pairs_insertAll_empty {l : List (κ × ν)} (distinct : (l.map Prod.fst).Nodup) :
    ((∅ : AList fun _ : κ => ν).insertAll l).pairs.Perm l := by
  simpa using pairs_insertAll (m := ∅) distinct (by simp)

/-- A key that is not listed keeps its value. -/
theorem lookup_insertAll_of_notMem (m : AList fun _ : κ => ν) {l : List (κ × ν)} {k : κ}
    (absent : k ∉ l.map Prod.fst) : (m.insertAll l).lookup k = m.lookup k := by
  induction l generalizing m with
  | nil => rfl
  | cons p l ih =>
      simp only [List.map_cons, List.mem_cons, not_or] at absent
      rw [insertAll_cons, ih _ absent.2, lookup_insert_ne absent.1]

/-- A listed key ends with a value listed for it. -/
theorem lookup_insertAll_of_mem (m : AList fun _ : κ => ν) {l : List (κ × ν)} {k : κ}
    (listed : k ∈ l.map Prod.fst) : ∃ v, (k, v) ∈ l ∧ (m.insertAll l).lookup k = some v := by
  induction l generalizing m with
  | nil => contradiction
  | cons p l ih =>
      by_cases later : k ∈ l.map Prod.fst
      · obtain ⟨v, member, found⟩ := ih (m.insert p.1 p.2) later
        exact ⟨v, List.mem_cons_of_mem p member, found⟩
      · obtain rfl : k = p.1 := by simpa [later] using listed
        refine ⟨p.2, by simp, ?_⟩
        rw [insertAll_cons, lookup_insertAll_of_notMem _ later, lookup_insert]

end AList
