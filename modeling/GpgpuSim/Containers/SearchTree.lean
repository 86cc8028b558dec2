import Mathlib.Data.List.Basic
import Mathlib.Data.Set.Defs

/-! Maps kept as search trees, as `std::map` keeps them: a lookup descends by the comparator alone, `operator[]`
asks for a place near the entry that `lower_bound` gives, and after an insertion the tree may be given any
shape that keeps its entries in their order. -/
namespace Containers

/-- On these keys the comparator is a strict total order. -/
structure StrictOn {α : Type*} (before : α → α → Bool) (keys : Set α) : Prop where
  irrefl : ∀ a ∈ keys, before a a = false
  asymm : ∀ a ∈ keys, ∀ b ∈ keys, before a b = true → before b a = false
  trans : ∀ a ∈ keys, ∀ b ∈ keys, ∀ c ∈ keys, before a b = true → before b c = true → before a c = true
  total : ∀ a ∈ keys, ∀ b ∈ keys, a ≠ b → before a b = true ∨ before b a = true

inductive SearchTree (α β : Type*) where
  | leaf
  | node (left : SearchTree α β) (key : α) (value : β) (right : SearchTree α β)
  deriving Repr

/-- What an insertion finds: the entry with this number, the place where the descent ends, or a side of the
entry with this number. -/
inductive Place where
  | existing (i : Nat)
  | descent
  | leftOf (i : Nat)
  | rightOf (i : Nat)
  deriving Repr

namespace SearchTree

variable {α β : Type*} (before : α → α → Bool) (k : α)

/-- The entries from left to right; a node is known by the number of its entry. -/
@[simp]
def items : SearchTree α β → List (α × β)
  | leaf => []
  | node left key value right => left.items ++ (key, value) :: right.items

def left : SearchTree α β → SearchTree α β
  | leaf => leaf
  | node left _ _ _ => left

def right : SearchTree α β → SearchTree α β
  | leaf => leaf
  | node _ _ _ right => right

def isLeaf : SearchTree α β → Bool
  | leaf => true
  | node _ _ _ _ => false

def nodeAt (i : Nat) : SearchTree α β → SearchTree α β
  | leaf => leaf
  | node left key value right =>
      if i < left.items.length then left.nodeAt i
      else if i = left.items.length then node left key value right
      else right.nodeAt (i - left.items.length - 1)

def modifyAt (i : Nat) (change : SearchTree α β → SearchTree α β) : SearchTree α β → SearchTree α β
  | leaf => leaf
  | node left key value right =>
      if i < left.items.length then node (left.modifyAt i change) key value right
      else if i = left.items.length then change (node left key value right)
      else node left key value (right.modifyAt (i - left.items.length - 1) change)

def setLeft (child : SearchTree α β) : SearchTree α β → SearchTree α β
  | leaf => leaf
  | node _ key value right => node child key value right

def setRight (child : SearchTree α β) : SearchTree α β → SearchTree α β
  | leaf => leaf
  | node left key value _ => node left key value child

def setValue (f : β → β) : SearchTree α β → SearchTree α β
  | leaf => leaf
  | node left key value right => node left key (f value) right

/-! ## Lookup -/

/-- The last entry at which the descent turns left; the number of entries stands for the end. -/
def lowerBound : SearchTree α β → Nat
  | leaf => 0
  | node left key _ right =>
      if before key k then left.items.length + 1 + right.lowerBound else left.lowerBound

def find (tree : SearchTree α β) : Option β :=
  ((tree.items[tree.lowerBound before k]?).filter fun p => !before k p.1).map Prod.snd

/-! ## Insertion -/

/-- How many entries are to the left of where the descent of an insertion ends. -/
def descentEnd : SearchTree α β → Nat
  | leaf => 0
  | node left key _ right =>
      if before k key then left.descentEnd else left.items.length + 1 + right.descentEnd

def insertLeaf (v : β) : SearchTree α β → SearchTree α β
  | leaf => node leaf k v leaf
  | node left key value right =>
      if before k key then node (left.insertLeaf v) key value right else node left key value (right.insertLeaf v)

/-- `_M_get_insert_unique_pos`: the entry to the left of the place has to be before the key. -/
def uniquePos (tree : SearchTree α β) : Place :=
  match tree.descentEnd before k with
  | 0 => .descent
  | i + 1 => if (tree.items[i]?).all fun p => before p.1 k then .descent else .existing i

/-- `_M_get_insert_hint_unique_pos`, when the hint is the end or an entry after the key. The node is put next to
the entry to the left of the hint, which for the end is the last one, on the side that the comparator tells,
whatever hangs there. The first and the last node that the header names are those of the tree. -/
def hintPos (tree : SearchTree α β) : Nat → Place
  | 0 => if tree.isLeaf then .descent else .leftOf 0
  | i + 1 => match tree.items[i]? with
      | none => tree.uniquePos before k
      | some p =>
          if before p.1 k then
            if (tree.nodeAt i).right.isLeaf then if before k p.1 then .leftOf i else .rightOf i else .leftOf (i + 1)
          else tree.uniquePos before k

/-- The entry that `operator[]` finds, or the place of its insertion. -/
def place (tree : SearchTree α β) : Place :=
  let i := tree.lowerBound before k
  if (tree.items[i]?).any fun p => !before k p.1 then .existing i else tree.hintPos before k i

/-- A node that hangs where the new one is put is lost, with all below it. -/
def insertAt (tree : SearchTree α β) (v : β) : Place → SearchTree α β
  | .existing _ => tree
  | .descent => tree.insertLeaf before k v
  | .leftOf i => tree.modifyAt i (setLeft (node leaf k v leaf))
  | .rightOf i => tree.modifyAt i (setRight (node leaf k v leaf))

/-! ## Nodes and entries -/

variable {before k} {keys : Set α} {left right tree : SearchTree α β} {key : α} {value v : β} {i : Nat}

theorem eq_leaf_iff : tree.items = [] ↔ tree = leaf := by
  cases tree <;> simp

theorem isLeaf_iff : tree.isLeaf = true ↔ tree = leaf := by
  cases tree <;> simp [isLeaf]

theorem items_node (left right : SearchTree α β) (key : α) (value : β) :
    (node left key value right).items = left.items ++ (key, value) :: right.items := rfl

theorem length_items_node (left right : SearchTree α β) (key : α) (value : β) :
    (node left key value right).items.length = left.items.length + 1 + right.items.length := by
  rw [items_node, List.length_append, List.length_cons]
  omega

theorem nodeAt_of_lt (less : i < left.items.length) : (node left key value right).nodeAt i = left.nodeAt i :=
  if_pos less

theorem nodeAt_self : (node left key value right).nodeAt left.items.length = node left key value right :=
  (if_neg (Nat.lt_irrefl _)).trans (if_pos rfl)

theorem nodeAt_add (j : Nat) : (node left key value right).nodeAt (left.items.length + 1 + j) = right.nodeAt j := by
  refine (if_neg (by omega)).trans ((if_neg (by omega)).trans ?_)
  rw [Nat.add_assoc, Nat.add_sub_cancel_left, Nat.add_sub_cancel_left]

theorem modifyAt_of_lt (change : SearchTree α β → SearchTree α β) (less : i < left.items.length) :
    (node left key value right).modifyAt i change = node (left.modifyAt i change) key value right :=
  if_pos less

theorem modifyAt_self (change : SearchTree α β → SearchTree α β) :
    (node left key value right).modifyAt left.items.length change = change (node left key value right) :=
  (if_neg (Nat.lt_irrefl _)).trans (if_pos rfl)

theorem modifyAt_add (change : SearchTree α β → SearchTree α β) (j : Nat) :
    (node left key value right).modifyAt (left.items.length + 1 + j) change =
      node left key value (right.modifyAt j change) := by
  refine (if_neg (by omega)).trans ((if_neg (by omega)).trans ?_)
  rw [Nat.add_assoc, Nat.add_sub_cancel_left, Nat.add_sub_cancel_left]

/-- An entry is to the left of the root, at the root or to its right. -/
theorem entry_cases (left : SearchTree α β) (i : Nat) :
    i < left.items.length ∨ i = left.items.length ∨ ∃ j, i = left.items.length + 1 + j := by
  rcases Nat.lt_trichotomy i left.items.length with less | same | greater
  · exact .inl less
  · exact .inr (.inl same)
  · exact .inr (.inr (Nat.exists_eq_add_of_le greater))

/-- The entries around a node, and what a change of the node makes of them. -/
theorem modifyAt_split (inside : i < tree.items.length) : ∃ pre post left key value right,
    tree.nodeAt i = node left key value right ∧ pre.length + left.items.length = i ∧
      tree.items = pre ++ (node left key value right).items ++ post ∧
      ∀ change, (tree.modifyAt i change).items = pre ++ (change (node left key value right)).items ++ post := by
  induction tree generalizing i with
  | leaf => simp at inside
  | node left key value right ihLeft ihRight =>
      rcases entry_cases left i with less | rfl | ⟨j, rfl⟩
      · obtain ⟨pre, post, l, a, b, r, there, number, split, changed⟩ := ihLeft less
        refine ⟨pre, post ++ (key, value) :: right.items, l, a, b, r, ?_, number, ?_, fun change => ?_⟩
        · rw [nodeAt_of_lt less, there]
        · rw [items_node, split, List.append_assoc]
        · rw [modifyAt_of_lt change less, items_node, changed, List.append_assoc]
      · refine ⟨[], [], left, key, value, right, nodeAt_self, Nat.zero_add _, ?_, fun change => ?_⟩
        · rw [List.nil_append, List.append_nil]
        · rw [modifyAt_self, List.nil_append, List.append_nil]
      · rw [length_items_node] at inside
        obtain ⟨pre, post, l, a, b, r, there, number, split, changed⟩ := ihRight (Nat.lt_of_add_lt_add_left inside)
        refine ⟨left.items ++ (key, value) :: pre, post, l, a, b, r, ?_, ?_, ?_, fun change => ?_⟩
        · rw [nodeAt_add, there]
        · rw [List.length_append, List.length_cons]
          omega
        · rw [items_node, split, List.append_assoc, List.append_assoc, List.append_assoc, List.cons_append]
        · rw [modifyAt_add, items_node, changed, List.append_assoc, List.append_assoc, List.append_assoc,
            List.cons_append]

theorem left_nodeAt_zero : (tree.nodeAt 0).left = leaf := by
  induction tree with
  | leaf => rfl
  | node left key value right ihLeft _ =>
      rcases Nat.eq_zero_or_pos left.items.length with none | some
      · have here := @nodeAt_self _ _ left right key value
        rw [none] at here
        rw [here]
        exact eq_leaf_iff.mp (List.eq_nil_of_length_eq_zero none)
      · rw [nodeAt_of_lt some]
        exact ihLeft

theorem right_nodeAt_last (last : i + 1 = tree.items.length) : (tree.nodeAt i).right = leaf := by
  induction tree generalizing i with
  | leaf => rfl
  | node left key value right _ ihRight =>
      rw [length_items_node] at last
      rcases entry_cases left i with less | rfl | ⟨j, rfl⟩
      · omega
      · rw [nodeAt_self]
        have none : right.items.length = 0 := by omega
        exact eq_leaf_iff.mp (List.eq_nil_of_length_eq_zero none)
      · rw [nodeAt_add]
        exact ihRight (by omega)

/-- Between two entries there is a free place. -/
theorem nodeAt_adjacent : (tree.nodeAt i).right = leaf ∨ (tree.nodeAt (i + 1)).left = leaf := by
  induction tree generalizing i with
  | leaf => exact .inl rfl
  | node left key value right ihLeft ihRight =>
      rcases entry_cases left i with less | rfl | ⟨j, rfl⟩
      · rw [nodeAt_of_lt less]
        rcases Nat.lt_or_ge (i + 1) left.items.length with next | last
        · rw [nodeAt_of_lt next]
          exact ihLeft
        · exact .inl (right_nodeAt_last (by omega))
      · right
        rw [← Nat.add_zero (left.items.length + 1), nodeAt_add]
        exact left_nodeAt_zero
      · rw [nodeAt_add, Nat.add_assoc, nodeAt_add]
        exact ihRight

theorem items_setValue {pre post : List (α × β)} {p : α × β} (f : β → β) (split : tree.items = pre ++ p :: post) :
    (tree.modifyAt pre.length (setValue f)).items = pre ++ (p.1, f p.2) :: post := by
  have inside : pre.length < tree.items.length := by
    rw [split, List.length_append, List.length_cons]
    omega
  obtain ⟨front, back, left, key, value, right, -, number, split', changed⟩ := modifyAt_split inside
  rw [split, items_node, List.append_assoc, List.append_assoc, ← List.append_assoc] at split'
  obtain ⟨same, here, rest⟩ := (List.append_inj split' (by rw [List.length_append, number])).imp_right List.cons.inj
  rw [changed, setValue, items_node, same, here, rest]
  simp

theorem items_insertAt_leftOf {pre post : List (α × β)} {p : α × β} (split : tree.items = pre ++ p :: post)
    (free : (tree.nodeAt pre.length).left = leaf) :
    (tree.insertAt before k v (.leftOf pre.length)).items = pre ++ (k, v) :: p :: post := by
  have inside : pre.length < tree.items.length := by
    rw [split, List.length_append, List.length_cons]
    omega
  obtain ⟨front, back, left, key, value, right, there, number, split', changed⟩ := modifyAt_split inside
  rw [there] at free
  obtain rfl : left = leaf := free
  rw [split, items_node, items, List.nil_append, List.append_assoc] at split'
  obtain ⟨same, rest⟩ := List.append_inj split' number.symm
  rw [insertAt, changed, setLeft, same, rest]
  simp

theorem items_insertAt_rightOf {pre post : List (α × β)} {p : α × β} (split : tree.items = pre ++ p :: post)
    (free : (tree.nodeAt pre.length).right = leaf) :
    (tree.insertAt before k v (.rightOf pre.length)).items = pre ++ p :: (k, v) :: post := by
  have inside : pre.length < tree.items.length := by
    rw [split, List.length_append, List.length_cons]
    omega
  obtain ⟨front, back, left, key, value, right, there, number, split', changed⟩ := modifyAt_split inside
  rw [there] at free
  obtain rfl : right = leaf := free
  rw [split, items_node, items, List.append_assoc, List.append_assoc, ← List.append_assoc] at split'
  obtain ⟨same, here, rest⟩ := (List.append_inj split' (by rw [List.length_append, number])).imp_right List.cons.inj
  rw [insertAt, changed, setRight, same, here, rest]
  simp

/-! ## Trees in order -/

/-- The entries ascend, and their keys are among these. -/
structure Ordered (before : α → α → Bool) (keys : Set α) (tree : SearchTree α β) : Prop where
  keys_mem : ∀ p ∈ tree.items, p.1 ∈ keys
  ascending : tree.items.Pairwise fun p q => before p.1 q.1 = true

theorem ordered_leaf : Ordered before keys (leaf : SearchTree α β) := ⟨by simp, by simp⟩

/-- In a tree in order the descent finds the first entry that is not before the key. -/
theorem lowerBound_split (order : StrictOn before keys) (ordered : tree.Ordered before keys) (inside : k ∈ keys) :
    ∃ pre post, tree.items = pre ++ post ∧ tree.lowerBound before k = pre.length ∧
      (∀ p ∈ pre, before p.1 k = true) ∧ ∀ p ∈ post, before p.1 k = false := by
  induction tree with
  | leaf => exact ⟨[], [], by simp, rfl, by simp, by simp⟩
  | node left key value right ihLeft ihRight =>
      obtain ⟨mem, ascending⟩ := ordered
      rw [items_node, List.pairwise_append, List.pairwise_cons] at ascending
      obtain ⟨below, ⟨greater, above⟩, less⟩ := ascending
      have known : key ∈ keys := mem (key, value) (by simp)
      have knownLeft : ∀ p ∈ left.items, p.1 ∈ keys := fun p hp => mem p (by simp [hp])
      have knownRight : ∀ p ∈ right.items, p.1 ∈ keys := fun p hp => mem p (by simp [hp])
      rw [lowerBound]
      cases passed : before key k with
      | true =>
          obtain ⟨pre, post, split, number, early, late⟩ := ihRight ⟨knownRight, above⟩
          refine ⟨left.items ++ (key, value) :: pre, post, by simp [split], ?_, fun p hp => ?_, late⟩
          · rw [if_pos rfl, number, List.length_append, List.length_cons]
            omega
          · rcases List.mem_append.mp hp with hp | hp
            · exact order.trans _ (knownLeft p hp) _ known _ inside (less p hp (key, value) (by simp)) passed
            · rcases List.mem_cons.mp hp with rfl | hp
              exacts [passed, early p hp]
      | false =>
          obtain ⟨pre, post, split, number, early, late⟩ := ihLeft ⟨knownLeft, below⟩
          refine ⟨pre, post ++ (key, value) :: right.items, by simp [split], ?_, early, fun p hp => ?_⟩
          · rw [if_neg Bool.false_ne_true, number]
          · rcases List.mem_append.mp hp with hp | hp
            · exact late p hp
            · rcases List.mem_cons.mp hp with rfl | hp
              · exact passed
              · by_contra earlier
                have := order.trans _ known _ (knownRight p hp) _ inside (greater p hp) (by simpa using earlier)
                simp [passed] at this

/-- The key has an entry between those before it and those after it, or it belongs between them. -/
theorem entry_split (order : StrictOn before keys) (ordered : tree.Ordered before keys) (inside : k ∈ keys) :
    ∃ pre post, tree.items = pre ++ ((tree.find before k).map (Prod.mk k)).toList ++ post ∧
      tree.lowerBound before k = pre.length ∧
      (∀ p ∈ pre, before p.1 k = true) ∧ ∀ p ∈ post, before k p.1 = true := by
  obtain ⟨pre, post, split, number, early, late⟩ := lowerBound_split order ordered inside
  obtain ⟨mem, ascending⟩ := ordered
  rw [split] at mem ascending
  have here : tree.items[tree.lowerBound before k]? = post.head? := by
    rw [split, number, List.getElem?_append_right (Nat.le_refl _), Nat.sub_self, List.head?_eq_getElem?]
  have after : ∀ p ∈ post, p.1 ≠ k → before k p.1 = true := fun p hp different =>
    (order.total _ (mem p (by simp [hp])) _ inside different).resolve_left (by simp [late p hp])
  rw [find, here]
  cases post with
  | nil => exact ⟨pre, [], by simp [split], number, early, by simp⟩
  | cons p rest =>
      have ascends := (List.pairwise_cons.mp (List.pairwise_append.mp ascending).2.1).1
      cases found : before k p.1 with
      | true =>
          refine ⟨pre, p :: rest, by simp [split, found, Option.filter], number, early, fun q hq => ?_⟩
          rcases List.mem_cons.mp hq with rfl | hq
          · exact found
          · exact order.trans _ inside _ (mem p (by simp)) _ (mem q (by simp [hq])) found (ascends q hq)
      | false =>
          obtain rfl : p.1 = k := by
            by_contra different
            simp [after p (by simp) different] at found
          exact ⟨pre, rest, by simp [split, found, Option.filter], number, early, ascends⟩

theorem find_eq_some (order : StrictOn before keys) (ordered : tree.Ordered before keys) (inside : k ∈ keys) :
    tree.find before k = some v ↔ (k, v) ∈ tree.items := by
  obtain ⟨pre, post, split, -, early, late⟩ := entry_split order ordered inside
  have loop := order.irrefl k inside
  have notEarly : (k, v) ∉ pre := fun hp => by simp [early _ hp] at loop
  have notLate : (k, v) ∉ post := fun hp => by simp [late _ hp] at loop
  rw [split]
  cases tree.find before k <;> simp [notEarly, notLate, eq_comm]

end SearchTree

/-- A change of shape that leaves the entries in their order. -/
structure Rebalancing (α β : Type*) where
  shape : SearchTree α β → SearchTree α β
  items_shape : ∀ tree, (shape tree).items = tree.items

structure TreeMap (α β : Type*) where
  tree : SearchTree α β := .leaf
  insertions : Nat := 0
  deriving Repr

namespace TreeMap

variable {α β : Type*} (before : α → α → Bool) (rebalance : Nat → Rebalancing α β)

def find (m : TreeMap α β) (k : α) : Option β := m.tree.find before k

/-- Changes the value that `operator[]` refers to. -/
def alter (m : TreeMap α β) (k : α) (fresh : β) (f : β → β) : TreeMap α β :=
  match m.tree.place before k with
  | .existing i => { m with tree := m.tree.modifyAt i (.setValue f) }
  | place =>
      { tree := (rebalance m.insertions).shape (m.tree.insertAt before k (f fresh) place)
        insertions := m.insertions + 1 }

variable {before rebalance} {keys : Set α} {m : TreeMap α β} {k k' : α} {v : β}
open SearchTree

theorem alter_existing {i : Nat} (found : m.tree.place before k = .existing i) (fresh : β) (f : β → β) :
    (m.alter before rebalance k fresh f).tree = m.tree.modifyAt i (.setValue f) := by
  rw [alter, found]

theorem alter_new {place : Place} (free : m.tree.place before k = place) (new : ∀ i, place ≠ .existing i)
    (fresh : β) (f : β → β) : (m.alter before rebalance k fresh f).tree.items =
      (m.tree.insertAt before k (f fresh) place).items := by
  rw [alter, free]
  cases place with
  | existing i => exact absurd rfl (new i)
  | descent | leftOf i | rightOf i => exact (rebalance m.insertions).items_shape _

/-- On keys that the comparator orders the entry is changed, or put at its place in the order. -/
theorem items_alter (rebalance : Nat → Rebalancing α β) (order : StrictOn before keys)
    (ordered : m.tree.Ordered before keys) (inside : k ∈ keys) (fresh : β) (f : β → β) : ∃ pre post,
      m.tree.items = pre ++ ((m.find before k).map (Prod.mk k)).toList ++ post ∧
      (m.alter before rebalance k fresh f).tree.items = pre ++ (k, f ((m.find before k).getD fresh)) :: post ∧
      (∀ p ∈ pre, before p.1 k = true) ∧ ∀ p ∈ post, before k p.1 = true := by
  obtain ⟨pre, post, split, number, early, late⟩ := entry_split order ordered inside
  refine ⟨pre, post, split, ?_, early, late⟩
  rw [find]
  cases found : m.tree.find before k with
  | some v =>
      simp only [found, Option.map_some, Option.toList_some, List.append_assoc, List.singleton_append] at split
      have there : m.tree.place before k = .existing pre.length := by
        simp [place, number, split, order.irrefl k inside]
      rw [alter_existing there, items_setValue f split, Option.getD_some]
  | none =>
      simp only [found, Option.map_none, Option.toList_none, List.append_nil] at split
      have absent : m.tree.place before k = m.tree.hintPos before k pre.length := by
        rw [place, number, split, List.getElem?_append_right (Nat.le_refl _), Nat.sub_self]
        cases post with
        | nil => rfl
        | cons p rest => simp [late p (by simp)]
      rw [Option.getD_none]
      rcases List.eq_nil_or_concat pre with rfl | ⟨pre, p, rfl⟩
      · rw [List.length_nil, hintPos] at absent
        cases post with
        | nil =>
            rw [if_pos (isLeaf_iff.mpr (eq_leaf_iff.mp split))] at absent
            rw [alter_new absent (by simp), insertAt, eq_leaf_iff.mp split, insertLeaf]
            rfl
        | cons q rest =>
            have tall : ¬ m.tree.isLeaf = true := fun short => by simp [isLeaf_iff.mp short] at split
            rw [if_neg tall] at absent
            rw [alter_new absent (by simp)]
            exact items_insertAt_leftOf (show m.tree.items = [] ++ q :: rest from split) left_nodeAt_zero
      · have first := early p (by simp)
        have second := order.asymm _ (ordered.keys_mem p (by simp [split])) _ inside first
        rw [List.concat_eq_append, List.append_assoc, List.singleton_append] at split
        rw [List.concat_eq_append, List.length_append, List.length_singleton, hintPos, split,
          List.getElem?_append_right (Nat.le_refl _), Nat.sub_self, List.getElem?_cons_zero] at absent
        simp only [first, second, if_true, Bool.false_eq_true, if_false] at absent
        rw [List.concat_eq_append, List.append_assoc, List.singleton_append]
        cases free : (m.tree.nodeAt pre.length).right.isLeaf with
        | true =>
            rw [if_pos free] at absent
            rw [alter_new absent (by simp)]
            exact items_insertAt_rightOf split (isLeaf_iff.mp free)
        | false =>
            have taken : (m.tree.nodeAt pre.length).right ≠ .leaf := fun free' => by
              simp [isLeaf_iff.mpr free'] at free
            rw [if_neg (by simp [free])] at absent
            rw [alter_new absent (by simp)]
            cases post with
            | nil => exact absurd (right_nodeAt_last (by simp [split])) taken
            | cons q rest =>
                have split' : m.tree.items = (pre ++ [p]) ++ q :: rest := by simp [split]
                have number' : pre.length + 1 = (pre ++ [p]).length := by simp
                have room := nodeAt_adjacent.resolve_left taken
                rw [number'] at room ⊢
                rw [items_insertAt_leftOf split' room, List.append_assoc, List.singleton_append]

theorem ordered_alter (rebalance : Nat → Rebalancing α β) (order : StrictOn before keys)
    (ordered : m.tree.Ordered before keys) (inside : k ∈ keys) (fresh : β) (f : β → β) :
    (m.alter before rebalance k fresh f).tree.Ordered before keys := by
  obtain ⟨pre, post, split, altered, early, late⟩ := items_alter rebalance order ordered inside fresh f
  obtain ⟨mem, ascending⟩ := ordered
  rw [split] at mem ascending
  have kept : (pre ++ post).Sublist (pre ++ ((m.find before k).map (Prod.mk k)).toList ++ post) := by
    rw [List.append_assoc]
    exact (List.sublist_append_right _ _).append_left pre
  have ascends := ascending.sublist kept
  rw [List.pairwise_append] at ascends
  constructor
  · intro p hp
    rw [altered, List.mem_append, List.mem_cons] at hp
    rcases hp with hp | rfl | hp
    exacts [mem p (by simp [hp]), inside, mem p (by simp [hp])]
  · rw [altered, List.pairwise_append, List.pairwise_cons]
    refine ⟨ascends.1, ⟨late, ascends.2.1⟩, fun p hp q hq => ?_⟩
    rcases List.mem_cons.mp hq with rfl | hq
    exacts [early p hp, ascends.2.2 p hp q hq]

/-- On keys that the comparator orders the tree is a map, whatever shapes it takes. -/
theorem find_alter [DecidableEq α] (order : StrictOn before keys) (ordered : m.tree.Ordered before keys)
    (inside : k ∈ keys) (inside' : k' ∈ keys) (fresh : β) (f : β → β) :
    (m.alter before rebalance k fresh f).find before k' =
      if k' = k then some (f ((m.find before k).getD fresh)) else m.find before k' := by
  have ordered' := ordered_alter rebalance order ordered inside fresh f
  obtain ⟨pre, post, split, altered, early, late⟩ := items_alter rebalance order ordered inside fresh f
  have loop := order.irrefl k inside
  refine Option.ext fun v => ?_
  rw [find, find_eq_some order ordered' inside', altered, List.mem_append, List.mem_cons]
  split
  next same =>
    subst same
    have notEarly : (k', v) ∉ pre := fun hp => by simp [early _ hp] at loop
    have notLate : (k', v) ∉ post := fun hp => by simp [late _ hp] at loop
    simp [notEarly, notLate, eq_comm]
  next different =>
    have before' : m.find before k' = some v ↔ (k', v) ∈ m.tree.items := find_eq_some order ordered inside'
    rw [before', split, List.append_assoc, List.mem_append, List.mem_append]
    cases m.find before k <;> simp [different]

end TreeMap

end Containers
