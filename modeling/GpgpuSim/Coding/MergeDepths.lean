import Mathlib.Data.List.Perm.Basic
import Mathlib.Data.Nat.Fib.Basic
import Mathlib.Algebra.BigOperators.Group.List.Basic

/-! How deep lightest-first merging can put a weight. When two nodes are joined no node that is left
is lighter than either of them, so that one level up the sibling weighs at least as much as the heavier
of the two: along a branch the weights grow like the Fibonacci numbers. -/
namespace Coding

/-- `Branch weight heaviest depth`: a leaf lies `depth` levels below a node of this weight, the heavier
child of which weighs `heaviest`. -/
inductive Branch : ℕ → ℕ → ℕ → Prop
  | leaf {weight : ℕ} : 1 ≤ weight → Branch weight 0 0
  | join {weight heaviest depth sibling : ℕ} : Branch weight heaviest depth → heaviest ≤ sibling →
      1 ≤ sibling → Branch (weight + sibling) (max weight sibling) (depth + 1)

theorem Branch.fib_le {weight heaviest depth : ℕ} (branch : Branch weight heaviest depth) :
    Nat.fib (depth + 2) ≤ weight ∧ (depth = 0 ∨ Nat.fib (depth + 1) ≤ heaviest) := by
  induction branch with
  | leaf positive => exact ⟨positive, .inl rfl⟩
  | @join weight heaviest depth sibling _ heavy positive ih =>
      obtain ⟨whole, child⟩ := ih
      have sum : Nat.fib (depth + 1 + 2) = Nat.fib (depth + 1) + Nat.fib (depth + 2) := Nat.fib_add_two
      have joined : Nat.fib (depth + 1) ≤ sibling := by
        rcases child with rfl | child
        · exact positive
        · exact child.trans heavy
      exact ⟨by omega, .inr (whole.trans (le_max_left ..))⟩

/-- What matters of a tree: its weight, that of its heavier child, and the depths of its leaves. -/
structure MergeNode where
  weight : ℕ
  heaviest : ℕ
  depths : List ℕ

def MergeNode.join (a b : MergeNode) : MergeNode :=
  { weight := a.weight + b.weight
    heaviest := max a.weight b.weight
    depths := (a.depths ++ b.depths).map (· + 1) }

/-- Two lightest nodes are joined until one is left. -/
inductive MergesTo : List MergeNode → MergeNode → Prop
  | root (node : MergeNode) : MergesTo [node] node
  | join {nodes rest : List MergeNode} {a b root : MergeNode} (perm : (a :: b :: rest).Perm nodes)
      (leastA : ∀ c ∈ b :: rest, a.weight ≤ c.weight) (leastB : ∀ c ∈ rest, b.weight ≤ c.weight)
      (merged : MergesTo (a.join b :: rest) root) : MergesTo nodes root

/-- Neither node has a child heavier than the other node. -/
def Level (a b : MergeNode) : Prop := a.heaviest ≤ b.weight ∧ b.heaviest ≤ a.weight

/-- The invariant of the merging. -/
structure Grown (nodes : List MergeNode) : Prop where
  positive : ∀ node ∈ nodes, 1 ≤ node.weight
  branches : ∀ node ∈ nodes, ∀ depth ∈ node.depths, Branch node.weight node.heaviest depth
  level : nodes.Pairwise Level

namespace Grown

variable {nodes rest : List MergeNode} {a b root : MergeNode}

theorem perm (grown : Grown nodes) {others : List MergeNode} (same : others.Perm nodes) : Grown others where
  positive node member := grown.positive node (same.mem_iff.mp member)
  branches node member := grown.branches node (same.mem_iff.mp member)
  level := by
    have symm : Std.Symm Level := ⟨fun _ _ level => ⟨level.2, level.1⟩⟩
    exact same.symm.pairwise grown.level fun h => symm.symm _ _ h

theorem join (grown : Grown (a :: b :: rest)) (leastA : ∀ c ∈ b :: rest, a.weight ≤ c.weight)
    (leastB : ∀ c ∈ rest, b.weight ≤ c.weight) : Grown (a.join b :: rest) := by
  obtain ⟨positive, branches, level⟩ := grown
  obtain ⟨levelA, level⟩ := List.pairwise_cons.mp level
  obtain ⟨levelB, level⟩ := List.pairwise_cons.mp level
  have positiveA := positive a (by simp)
  have positiveB := positive b (by simp)
  constructor
  · intro node member
    rcases List.mem_cons.mp member with rfl | member
    · exact positiveA.trans (Nat.le_add_right ..)
    · exact positive node (by simp [member])
  · intro node member depth inside
    rcases List.mem_cons.mp member with rfl | member
    · obtain ⟨shallow, below, rfl⟩ := List.mem_map.mp inside
      rcases List.mem_append.mp below with below | below
      · exact .join (branches a (by simp) shallow below) (levelA b (by simp)).1 positiveB
      · have other := Branch.join (branches b (by simp) shallow below) (levelA b (by simp)).2 positiveA
        rwa [Nat.add_comm, max_comm] at other
    · exact branches node (by simp [member]) depth inside
  · refine List.pairwise_cons.mpr ⟨?_, level⟩
    intro c member
    have lighter : c.heaviest ≤ a.weight := (levelA c (by simp [member])).2
    exact ⟨max_le (leastA c (by simp [member])) (leastB c member), lighter.trans (Nat.le_add_right ..)⟩

end Grown

/-- A leaf at depth `d` of the root takes a total weight of `Nat.fib (d + 2)`. -/
theorem MergesTo.fib_le {nodes : List MergeNode} {root : MergeNode} (merges : MergesTo nodes root)
    (grown : Grown nodes) :
    root.weight = (nodes.map MergeNode.weight).sum ∧ ∀ depth ∈ root.depths, Nat.fib (depth + 2) ≤ root.weight := by
  induction merges with
  | root node => exact ⟨by simp, fun depth inside => (grown.branches node (by simp) depth inside).fib_le.1⟩
  | @join nodes rest a b root perm leastA leastB _ ih =>
      obtain ⟨total, bounds⟩ := ih ((grown.perm perm).join leastA leastB)
      refine ⟨?_, bounds⟩
      rw [total, ← (perm.map MergeNode.weight).sum_eq]
      simp [MergeNode.join, Nat.add_assoc]

end Coding
