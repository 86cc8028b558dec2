import Mathlib.InformationTheory.Coding.KraftMcMillan
import Mathlib.Algebra.Order.Field.Rat
import Mathlib.Algebra.BigOperators.Group.List.Basic
import Mathlib.Algebra.Order.BigOperators.Group.List
import Mathlib.Tactic.Linarith
import Mathlib.Tactic.Positivity
import Mathlib.Tactic.Ring

/-! Binary prefix codes as lists of code words, and the Kraft sum of their
lengths. The converse of Kraft's inequality is the canonical numbering. -/
namespace Coding

/-- Neither word is a prefix of the other; in particular they differ. -/
def Incomparable (u v : List Bool) : Prop := ¬ u <+: v ∧ ¬ v <+: u

instance : Std.Symm Incomparable := ⟨fun _ _ h => ⟨h.2, h.1⟩⟩

theorem Incomparable.ne {u v : List Bool} (h : Incomparable u v) : u ≠ v := by
  rintro rfl
  exact h.1 (List.prefix_refl u)

def PrefixFree (words : List (List Bool)) : Prop := words.Pairwise Incomparable

theorem PrefixFree.of_injOn {α : Type*} {code : α → List Bool} {symbols : List α} (distinct : symbols.Nodup)
    (free : ∀ s ∈ symbols, ∀ t ∈ symbols, s ≠ t → ¬ code s <+: code t) :
    PrefixFree (symbols.map code) := by
  refine List.pairwise_map.mpr (distinct.imp_of_mem ?_)
  intro s t hs ht different
  exact ⟨free s hs t ht different, free t ht s hs (Ne.symm different)⟩

/-- Equally many words of a prefix code can be read back from their concatenation. -/
theorem flatMap_injOn {α : Type*} {code : α → List Bool} {P : α → Prop}
    (free : ∀ s t, P s → P t → s ≠ t → ¬ code s <+: code t) {message other : List α}
    (coded : ∀ s ∈ message, P s) (coded' : ∀ s ∈ other, P s) (long : message.length = other.length)
    (same : message.flatMap code = other.flatMap code) : message = other := by
  induction message generalizing other with
  | nil => exact (List.length_eq_zero_iff.mp long.symm).symm
  | cons s message ih =>
      cases other with
      | nil => cases long
      | cons t other =>
          simp only [List.flatMap_cons] at same
          obtain ⟨hs, rest⟩ := List.forall_mem_cons.mp coded
          obtain ⟨ht, rest'⟩ := List.forall_mem_cons.mp coded'
          have head : s = t := by
            by_contra different
            rcases List.prefix_or_prefix_of_prefix (List.prefix_append (code s) (message.flatMap code))
              (same ▸ List.prefix_append (code t) (other.flatMap code)) with below | above
            · exact free s t hs ht different below
            · exact free t s ht hs (Ne.symm different) above
          subst head
          rw [ih rest rest' (Nat.succ.inj long) (List.append_cancel_left same)]

/-- The share of all infinite bit strings that start with a word of these lengths. -/
def kraftSum (lengths : List ℕ) : ℚ := (lengths.map fun len => (1 / 2 : ℚ) ^ len).sum

@[simp] theorem kraftSum_nil : kraftSum [] = 0 := rfl

@[simp] theorem kraftSum_cons (len : ℕ) (lengths : List ℕ) :
    kraftSum (len :: lengths) = (1 / 2) ^ len + kraftSum lengths := by
  simp [kraftSum]

@[simp] theorem kraftSum_append (left right : List ℕ) :
    kraftSum (left ++ right) = kraftSum left + kraftSum right := by
  simp [kraftSum]

theorem kraftSum_perm {left right : List ℕ} (h : left.Perm right) : kraftSum left = kraftSum right :=
  (h.map _).sum_eq

theorem kraftSum_nonneg (lengths : List ℕ) : 0 ≤ kraftSum lengths := by
  refine List.sum_nonneg ?_
  intro x member
  obtain ⟨len, -, rfl⟩ := List.mem_map.mp member
  positivity

/-- One more bit in front of every word halves the sum. -/
theorem kraftSum_map_succ (lengths : List ℕ) :
    kraftSum (lengths.map (· + 1)) = kraftSum lengths / 2 := by
  induction lengths with
  | nil => simp
  | cons len lengths ih =>
      simp only [List.map_cons, kraftSum_cons, ih, pow_succ]
      ring

/-- Two subcodes below a branching bit share the code space. -/
theorem kraftSum_branch {left right : List ℕ} (hl : kraftSum left ≤ 1) (hr : kraftSum right ≤ 1) :
    kraftSum ((left ++ right).map (· + 1)) ≤ 1 := by
  rw [kraftSum_map_succ, kraftSum_append]
  linarith

theorem uniquelyDecodable_of_incomparable {code : Set (List Bool)} (proper : [] ∉ code)
    (free : ∀ u ∈ code, ∀ v ∈ code, u <+: v → u = v) :
    InformationTheory.UniquelyDecodable code := by
  intro message
  induction message with
  | nil =>
      intro other _ words same
      cases other with
      | nil => rfl
      | cons v other =>
          have empty : v = [] := by
            simpa using (List.append_eq_nil_iff.mp same.symm).1
          exact absurd (empty ▸ words v (by simp)) proper
  | cons u message ih =>
      intro other wordsU wordsV same
      cases other with
      | nil =>
          have empty : u = [] := by
            simpa using (List.append_eq_nil_iff.mp same).1
          exact absurd (empty ▸ wordsU u (by simp)) proper
      | cons v other =>
          have hu := wordsU u (by simp)
          have hv := wordsV v (by simp)
          simp only [List.flatten_cons] at same
          have head : u = v := by
            rcases List.prefix_or_prefix_of_prefix (List.prefix_append u message.flatten)
              (same ▸ List.prefix_append v other.flatten) with h | h
            · exact free u hu v hv h
            · exact (free v hv u hu h).symm
          subst head
          have tail := ih other (fun w h => wordsU w (by simp [h])) (fun w h => wordsV w (by simp [h]))
            (List.append_cancel_left same)
          rw [tail]

/-- Kraft's inequality. -/
theorem PrefixFree.kraftSum_le_one {words : List (List Bool)} (free : PrefixFree words) :
    kraftSum (words.map List.length) ≤ 1 := by
  by_cases proper : [] ∈ words
  · -- the empty word leaves no room for another one
    obtain ⟨before, after, rfl⟩ := List.append_of_mem proper
    obtain ⟨_, middle, cross⟩ := List.pairwise_append.mp free
    have noneBefore : before = [] := by
      refine List.eq_nil_iff_forall_not_mem.mpr fun w member => ?_
      exact (cross w member [] (by simp)).2 List.nil_prefix
    have noneAfter : after = [] := by
      refine List.eq_nil_iff_forall_not_mem.mpr fun w member => ?_
      exact ((List.pairwise_cons.mp middle).1 w member).1 List.nil_prefix
    simp [noneBefore, noneAfter]
  · have distinct : words.Nodup := free.imp Incomparable.ne
    have decodable : InformationTheory.UniquelyDecodable (words.toFinset : Set (List Bool)) := by
      refine uniquelyDecodable_of_incomparable (by simpa using proper) ?_
      intro u hu v hv below
      by_contra different
      have apart : Incomparable u v :=
        List.Pairwise.forall free (by simpa using hu) (by simpa using hv) different
      exact apart.1 below
    have bound := InformationTheory.kraft_mcmillan_inequality decodable
    rw [List.sum_toFinset _ distinct, Fintype.card_bool] at bound
    have cast : ((kraftSum (words.map List.length) : ℚ) : ℝ) =
        (words.map fun w => (1 / ((2 : ℕ) : ℝ)) ^ w.length).sum := by
      induction words with
      | nil => simp
      | cons w words ih => simp [kraftSum, List.map_map, Function.comp_def]
    rw [← cast] at bound
    exact_mod_cast bound

end Coding
