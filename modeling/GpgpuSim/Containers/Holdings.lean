import Mathlib.Algebra.BigOperators.Group.Finset.Basic
import Mathlib.Algebra.BigOperators.Group.Finset.Piecewise
import Mathlib.Algebra.Order.BigOperators.Group.Finset
import Mathlib.Order.Interval.Finset.Nat

/-! What the holders of a finite set of slots hold together: totals of their sizes, and the ranges
they cover. Lists of holders that share nothing. -/
namespace Holdings

variable {ι α : Type*} [DecidableEq ι] {slots : Finset ι} {held : ι → Option α} {size : α → ℕ} {c : ι} {a : α}

/-- The sum over all that is held. -/
def total (slots : Finset ι) (held : ι → Option α) (size : α → ℕ) : ℕ := ∑ c ∈ slots, (held c).elim 0 size

theorem total_update (value : Option α) (inside : c ∈ slots) :
    total slots (Function.update held c value) size + (held c).elim 0 size =
      total slots held size + value.elim 0 size := by
  have rest : ∑ d ∈ slots.erase c, (Function.update held c value d).elim 0 size =
      ∑ d ∈ slots.erase c, (held d).elim 0 size := by
    apply Finset.sum_congr rfl
    intro d member
    rw [Function.update_of_ne (Finset.ne_of_mem_erase member)]
  simp only [total]
  rw [← Finset.sum_erase_add slots _ inside, ← Finset.sum_erase_add slots (fun d => (held d).elim 0 size) inside,
    rest, Function.update_self]
  omega

/-- A free slot takes a holding. -/
theorem total_take (inside : c ∈ slots) (free : held c = none) :
    total slots (Function.update held c (some a)) size = total slots held size + size a := by
  have sums := @total_update ι α _ slots held size c (some a) inside
  simpa [free] using sums

/-- A holding is given back. -/
theorem total_give (inside : c ∈ slots) (taken : held c = some a) :
    total slots (Function.update held c none) size + size a = total slots held size := by
  have sums := @total_update ι α _ slots held size c none inside
  simpa [taken] using sums

theorem le_total (inside : c ∈ slots) (taken : held c = some a) : size a ≤ total slots held size := by
  have sums := @total_give ι α _ slots held size c a inside taken
  omega

/-! ## A list of holders, each with a list of what it holds -/

section Lists

variable {α β : Type*} {l : List α} {k : Nat} {a : α} {f : α → α} {share : α → List β} {b : β}

theorem exists_modify (found : l[k]? = some a) :
    ∃ before after, l = before ++ a :: after ∧ l.modify k f = before ++ f a :: after := by
  induction l generalizing k with
  | nil => simp at found
  | cons head rest ih =>
      cases k with
      | zero =>
          obtain rfl : head = a := by simpa using found
          exact ⟨[], rest, rfl, rfl⟩
      | succ k =>
          obtain ⟨before, after, rfl, modified⟩ := ih (k := k) (by simpa using found)
          exact ⟨head :: before, after, rfl, by simp [modified]⟩

/-- Where no two holders share, what one of them gives up is held no more. -/
theorem mem_flatMap_modify (found : l[k]? = some a) (apart : (l.flatMap share).Nodup) (part : share (f a) ⊆ share a) :
    b ∈ (l.modify k f).flatMap share ↔ b ∈ l.flatMap share ∧ (b ∈ share a → b ∈ share (f a)) := by
  obtain ⟨before, after, rfl, modified⟩ := exists_modify (f := f) found
  rw [modified]
  simp only [List.flatMap_append, List.flatMap_cons, List.mem_append, List.nodup_append, List.mem_append] at apart ⊢
  obtain ⟨_, ⟨_, _, later⟩, earlier⟩ := apart
  constructor
  · rintro (within | within | within)
    · exact ⟨Or.inl within, fun held => absurd rfl (earlier b within b (Or.inl held))⟩
    · exact ⟨Or.inr (Or.inl (part within)), fun _ => within⟩
    · exact ⟨Or.inr (Or.inr within), fun held => absurd rfl (later b held b within)⟩
  · rintro ⟨within | within | within, stays⟩
    · exact Or.inl within
    · exact Or.inr (Or.inl (stays within))
    · exact Or.inr (Or.inr within)

theorem nodup_flatMap_modify (found : l[k]? = some a) (apart : (l.flatMap share).Nodup)
    (part : (share (f a)).Sublist (share a)) : ((l.modify k f).flatMap share).Nodup := by
  obtain ⟨before, after, rfl, modified⟩ := exists_modify (f := f) found
  rw [modified]
  simp only [List.flatMap_append, List.flatMap_cons] at apart ⊢
  exact apart.sublist ((List.Sublist.refl _).append (part.append (List.Sublist.refl _)))

/-- Where no two holders share, a thing has one holder. -/
theorem holder_unique (apart : (l.flatMap share).Nodup) {a c : α} (first : a ∈ l) (held : b ∈ share a) (second : c ∈ l)
    (holds : b ∈ share c) : a = c := by
  induction l with
  | nil => simp at first
  | cons head rest ih =>
      simp only [List.flatMap_cons, List.nodup_append, List.mem_flatMap] at apart
      obtain ⟨_, later, across⟩ := apart
      rcases List.mem_cons.mp first with rfl | inner
      · rcases List.mem_cons.mp second with rfl | outer
        · rfl
        · exact absurd rfl (across b held b ⟨c, outer, holds⟩)
      · rcases List.mem_cons.mp second with rfl | outer
        · exact absurd rfl (across b holds b ⟨a, inner, held⟩)
        · exact ih later inner outer

/-- Where no two holders share, what is held has one holder. -/
theorem countP_holders [DecidableEq β] (apart : (l.flatMap share).Nodup) (held : b ∈ l.flatMap share) :
    l.countP (fun a => decide (b ∈ share a)) = 1 := by
  induction l with
  | nil => simp at held
  | cons head rest ih =>
      simp only [List.flatMap_cons, List.nodup_append] at apart held
      obtain ⟨-, later, across⟩ := apart
      by_cases here : b ∈ share head
      · have none_later : rest.countP (fun a => decide (b ∈ share a)) = 0 := by
          apply List.countP_eq_zero.mpr
          intro a member holds
          exact across b here b (List.mem_flatMap.mpr ⟨a, member, of_decide_eq_true holds⟩) rfl
        simp [here, none_later]
      · have inside := (List.mem_append.mp held).resolve_left here
        simpa [here] using ih later inside

theorem exists_related {γ : Type*} {R : α → γ → Prop} {m : List γ} (all : List.Forall₂ R l m) :
    ∀ c ∈ m, ∃ a ∈ l, R a c := by
  induction all with
  | nil => simp
  | cons first rest ih =>
      intro c member
      rcases List.mem_cons.mp member with rfl | later
      · exact ⟨_, List.mem_cons_self, first⟩
      · obtain ⟨a, inside, related⟩ := ih c later
        exact ⟨a, List.mem_cons_of_mem _ inside, related⟩

theorem countP_related {γ : Type*} {R : α → γ → Prop} {m : List γ} {p : α → Bool} {q : γ → Bool}
    (all : List.Forall₂ R l m) (same : ∀ a c, R a c → p a = q c) : m.countP q = l.countP p := by
  induction all with
  | nil => rfl
  | cons first rest ih => rw [List.countP_cons, List.countP_cons, ih, same _ _ first]

/-- Blocks that are named once each: what is counted in one of them only is counted there. -/
theorem countP_blocks {S : ι → List α → Prop} {names : List ι} {blocks : List (List α)} {p : α → Bool} {i : ι} {n : Nat}
    (all : List.Forall₂ S names blocks) (once : names.Nodup) (here : ∀ block, S i block → block.countP p = n)
    (others : ∀ j ∈ names, j ≠ i → ∀ block, S j block → block.countP p = 0) :
    blocks.flatten.countP p = if i ∈ names then n else 0 := by
  induction all with
  | nil => rfl
  | @cons j block names blocks first rest ih =>
      obtain ⟨fresh, once⟩ := List.nodup_cons.mp once
      have later := ih once fun other member => others other (List.mem_cons_of_mem _ member)
      rw [List.flatten_cons, List.countP_append, later]
      by_cases same : j = i
      · subst same
        simp [fresh, here block first]
      · simp [Ne.symm same, others j List.mem_cons_self same block first]

end Lists

end Holdings
