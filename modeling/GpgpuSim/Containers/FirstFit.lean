import Mathlib.Data.List.Induction
import Mathlib.Data.List.Perm.Basic
import Mathlib.Data.List.Nodup

/-! First fit: each item goes into the first layer that has no item of the same key. The number of layers
is the largest number of items of one key. -/
namespace Containers

variable {α κ : Type*} [DecidableEq κ] (key : α → κ)

def placeFirst (a : α) : List (List α) → List (List α)
  | [] => [[a]]
  | layer :: rest => if key a ∈ layer.map key then layer :: placeFirst a rest else (layer ++ [a]) :: rest

def firstFit (items : List α) : List (List α) := items.foldl (fun layers a => placeFirst key a layers) []

/-- How many of the items have the key `x`. -/
def ofKey (x : κ) (items : List α) : Nat := items.countP fun a => decide (key a = x)

variable {key} {a : α} {items : List α} {layers : List (List α)} {x : κ}

/-- No layer is empty or has two items of a key, and a key of a layer is in all the layers before. -/
structure Layered (key : α → κ) (layers : List (List α)) : Prop where
  inhabited : ∀ layer ∈ layers, layer ≠ []
  distinct : ∀ layer ∈ layers, (layer.map key).Nodup
  nested : layers.Pairwise fun early late => late.map key ⊆ early.map key

theorem mem_placeFirst {layer : List α} (member : layer ∈ placeFirst key a layers) :
    layer ∈ layers ∨ layer = [a] ∨ ∃ before ∈ layers, key a ∉ before.map key ∧ layer = before ++ [a] := by
  induction layers with
  | nil => exact Or.inr (Or.inl (List.mem_singleton.mp member))
  | cons head rest ih =>
      simp only [placeFirst] at member
      split_ifs at member with taken
      · rcases List.mem_cons.mp member with rfl | later
        · exact Or.inl List.mem_cons_self
        · rcases ih later with old | new | ⟨before, inside, fits⟩
          · exact Or.inl (List.mem_cons_of_mem _ old)
          · exact Or.inr (Or.inl new)
          · exact Or.inr (Or.inr ⟨before, List.mem_cons_of_mem _ inside, fits⟩)
      · rcases List.mem_cons.mp member with rfl | later
        · exact Or.inr (Or.inr ⟨head, List.mem_cons_self, taken, rfl⟩)
        · exact Or.inl (List.mem_cons_of_mem _ later)

theorem perm_placeFirst : (placeFirst key a layers).flatten.Perm (layers.flatten ++ [a]) := by
  induction layers with
  | nil => exact .refl _
  | cons head rest ih =>
      simp only [placeFirst]
      split_ifs
      · simpa only [List.flatten_cons, List.append_assoc] using ih.append_left head
      · simp only [List.flatten_cons, List.append_assoc]
        exact List.perm_append_comm.append_left head

theorem Layered.placeFirst (layered : Layered key layers) (a : α) : Layered key (placeFirst key a layers) := by
  constructor
  · intro layer member
    rcases mem_placeFirst member with old | rfl | ⟨before, -, -, rfl⟩
    · exact layered.inhabited layer old
    · exact List.cons_ne_nil _ _
    · exact List.append_ne_nil_of_right_ne_nil _ (List.cons_ne_nil _ _)
  · intro layer member
    rcases mem_placeFirst member with old | rfl | ⟨before, inside, fits, rfl⟩
    · exact layered.distinct layer old
    · exact List.nodup_singleton _
    · rw [List.map_append]
      refine List.nodup_append.mpr ⟨layered.distinct before inside, List.nodup_singleton _, ?_⟩
      rintro y early z last rfl
      exact fits (List.mem_singleton.mp last ▸ early)
  · have nested := layered.nested
    clear layered
    induction layers with
    | nil => exact List.pairwise_singleton _ _
    | cons head rest ih =>
        obtain ⟨first, later⟩ := List.pairwise_cons.mp nested
        simp only [Containers.placeFirst]
        split_ifs with taken
        · refine List.pairwise_cons.mpr ⟨fun layer member => ?_, ih later⟩
          rcases mem_placeFirst member with old | rfl | ⟨before, inside, -, rfl⟩
          · exact first layer old
          · intro y here
            exact List.mem_singleton.mp here ▸ taken
          · intro y here
            rw [List.map_append] at here
            rcases List.mem_append.mp here with old | last
            · exact first before inside old
            · exact List.mem_singleton.mp last ▸ taken
        · refine List.pairwise_cons.mpr ⟨fun layer member y here => ?_, later⟩
          rw [List.map_append]
          exact List.mem_append_left _ (first layer member here)

theorem firstFit_append_singleton (items : List α) (a : α) :
    firstFit key (items ++ [a]) = placeFirst key a (firstFit key items) := by
  rw [firstFit, List.foldl_append]
  rfl

theorem firstFit_layered (items : List α) : Layered key (firstFit key items) := by
  induction items using List.reverseRecOn with
  | nil => exact ⟨by simp [firstFit], by simp [firstFit], .nil⟩
  | append_singleton items a ih =>
      rw [firstFit_append_singleton]
      exact ih.placeFirst a

/-- No item is lost, and none is put into two layers. -/
theorem perm_firstFit (items : List α) : (firstFit key items).flatten.Perm items := by
  induction items using List.reverseRecOn with
  | nil => exact .refl _
  | append_singleton items a ih =>
      rw [firstFit_append_singleton]
      exact perm_placeFirst.trans (ih.append_right [a])

/-! ## The number of layers -/

theorem ofKey_append (x : κ) (early late : List α) :
    ofKey key x (early ++ late) = ofKey key x early + ofKey key x late :=
  List.countP_append

theorem ofKey_le_one (distinct : (items.map key).Nodup) (x : κ) : ofKey key x items ≤ 1 := by
  have counted : ofKey key x items = (items.map key).count x := by
    rw [List.count, List.countP_map]
    rfl
  rw [counted]
  exact List.nodup_iff_count_le_one.mp distinct x

theorem ofKey_pos (within : x ∈ items.map key) : 0 < ofKey key x items := by
  obtain ⟨a, member, same⟩ := List.mem_map.mp within
  exact List.countP_pos_iff.mpr ⟨a, member, decide_eq_true same⟩

theorem ofKey_flatten_le (distinct : ∀ layer ∈ layers, (layer.map key).Nodup) (x : κ) :
    ofKey key x layers.flatten ≤ layers.length := by
  induction layers with
  | nil => exact Nat.le_refl 0
  | cons layer rest ih =>
      have first := ofKey_le_one (distinct layer List.mem_cons_self) x
      have later := ih fun other member => distinct other (List.mem_cons_of_mem _ member)
      rw [List.flatten_cons, ofKey_append, List.length_cons]
      omega

theorem length_le_ofKey_flatten (everywhere : ∀ layer ∈ layers, x ∈ layer.map key) :
    layers.length ≤ ofKey key x layers.flatten := by
  induction layers with
  | nil => exact Nat.zero_le _
  | cons layer rest ih =>
      have first := ofKey_pos (everywhere layer List.mem_cons_self)
      have later := ih fun other member => everywhere other (List.mem_cons_of_mem _ member)
      rw [List.flatten_cons, ofKey_append, List.length_cons]
      omega

omit [DecidableEq κ] in
/-- A key of the last layer is in every layer. -/
theorem Layered.exists_everywhere (layered : Layered key layers) (some_layer : layers ≠ []) :
    ∃ x, ∀ layer ∈ layers, x ∈ layer.map key := by
  obtain ⟨early, last, rfl⟩ : ∃ early last, layers = early ++ [last] :=
    ⟨_, _, (List.dropLast_append_getLast some_layer).symm⟩
  obtain ⟨a, member⟩ := List.exists_mem_of_ne_nil last (layered.inhabited last (by simp))
  have here : key a ∈ last.map key := List.mem_map_of_mem member
  refine ⟨key a, fun layer within => ?_⟩
  rcases List.mem_append.mp within with before | same
  · exact (List.pairwise_append.mp layered.nested).2.2 layer before last (List.mem_singleton_self last) here
  · exact List.mem_singleton.mp same ▸ here

theorem ofKey_firstFit (x : κ) (items : List α) : ofKey key x (firstFit key items).flatten = ofKey key x items :=
  (perm_firstFit items).countP_eq _

/-- No key has more items than there are layers. -/
theorem ofKey_le_length (x : κ) (items : List α) : ofKey key x items ≤ (firstFit key items).length := by
  rw [← ofKey_firstFit]
  exact ofKey_flatten_le (firstFit_layered items).distinct x

/-- Some key has as many. -/
theorem exists_ofKey_eq_length (some_item : items ≠ []) :
    ∃ a ∈ items, ofKey key (key a) items = (firstFit key items).length := by
  have some_layer : firstFit key items ≠ [] := by
    intro none_placed
    have empty : (firstFit key items).flatten.Perm items := perm_firstFit items
    rw [none_placed, List.flatten_nil] at empty
    exact some_item empty.symm.eq_nil
  obtain ⟨x, everywhere⟩ := (firstFit_layered items).exists_everywhere some_layer
  obtain ⟨layer, member⟩ := List.exists_mem_of_ne_nil _ some_layer
  obtain ⟨a, inside, rfl⟩ := List.mem_map.mp (everywhere layer member)
  have within : a ∈ items := (perm_firstFit items).mem_iff.mp (List.mem_flatten.mpr ⟨layer, member, inside⟩)
  have enough := length_le_ofKey_flatten everywhere
  rw [ofKey_firstFit] at enough
  exact ⟨a, within, Nat.le_antisymm (ofKey_le_length _ items) enough⟩

end Containers
