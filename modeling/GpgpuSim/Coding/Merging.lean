import GpgpuSim.Coding.Prefix

/-! Optimality of merging the two lightest weights first. The competitors are all
length assignments that satisfy Kraft's inequality, hence all prefix codes. -/
namespace Coding

/-- A weight together with the length of its code word. -/
abbrev Weighted := ℕ × ℕ

def weightedLength (l : List Weighted) : ℕ := (l.map fun p => p.1 * p.2).sum

@[simp] theorem weightedLength_nil : weightedLength [] = 0 := rfl

@[simp] theorem weightedLength_cons (p : Weighted) (l : List Weighted) :
    weightedLength (p :: l) = p.1 * p.2 + weightedLength l := by
  simp [weightedLength]

theorem weightedLength_perm {l l' : List Weighted} (h : l.Perm l') :
    weightedLength l = weightedLength l' := (h.map _).sum_eq

/-- Giving a lightest weight the greatest length does not cost anything. -/
theorem exchange (weight len : ℕ) (others : List Weighted) (lightest : ∀ p ∈ others, weight ≤ p.1) :
    ∃ longest others', others'.map Prod.fst = others.map Prod.fst ∧
      (longest :: others'.map Prod.snd).Perm (len :: others.map Prod.snd) ∧
      (∀ p ∈ others', p.2 ≤ longest) ∧
      weight * longest + weightedLength others' ≤ weight * len + weightedLength others := by
  induction others with
  | nil => exact ⟨len, [], rfl, .refl _, by simp, le_rfl⟩
  | cons p others ih =>
      obtain ⟨w, l⟩ := p
      obtain ⟨longest, others', weights, lengths, bound, cheaper⟩ :=
        ih fun q member => lightest q (by simp [member])
      have lighter : weight ≤ w := lightest (w, l) (by simp)
      by_cases fits : l ≤ longest
      · refine ⟨longest, (w, l) :: others', by simp [weights], ?_, ?_, ?_⟩
        · exact (List.Perm.swap ..).trans ((lengths.cons l).trans (List.Perm.swap ..))
        · intro q member
          rcases List.mem_cons.mp member with rfl | member
          · exact fits
          · exact bound q member
        · simp only [weightedLength_cons]
          omega
      · refine ⟨l, (w, longest) :: others', by simp [weights], ?_, ?_, ?_⟩
        · exact (lengths.cons l).trans (List.Perm.swap ..)
        · intro q member
          rcases List.mem_cons.mp member with rfl | member
          · exact (not_le.mp fits).le
          · exact (bound q member).trans (not_le.mp fits).le
        · have swap : weight * l + w * longest ≤ weight * longest + w * l := by
            obtain ⟨extra, rfl⟩ := Nat.exists_eq_add_of_le lighter
            obtain ⟨gap, rfl⟩ := Nat.exists_eq_add_of_le (not_le.mp fits).le
            ring_nf
            omega
          simp only [weightedLength_cons]
          omega

/-- A Kraft sum over lengths of at most `n` bits counts in steps of `2^-n`. -/
theorem kraftSum_grid {lengths : List ℕ} {n : ℕ} (bound : ∀ len ∈ lengths, len ≤ n) :
    ∃ units : ℕ, kraftSum lengths = units / 2 ^ n := by
  induction lengths with
  | nil => exact ⟨0, by simp⟩
  | cons len lengths ih =>
      obtain ⟨units, grid⟩ := ih fun l member => bound l (by simp [member])
      have short := bound len (by simp)
      refine ⟨2 ^ (n - len) + units, ?_⟩
      have head : ((1 : ℚ) / 2) ^ len = 2 ^ (n - len) / 2 ^ n := by
        rw [one_div_pow, eq_div_iff (by positivity), div_mul_eq_mul_div, one_mul,
          div_eq_iff (by positivity), ← pow_add, Nat.sub_add_cancel short]
      rw [kraftSum_cons, grid, head]
      push_cast
      ring

/-- One word can always be shortened to a bound on the lengths of the others. -/
theorem kraftSum_flatten {longest next : ℕ} {lengths : List ℕ}
    (bound : ∀ len ∈ lengths, len ≤ next) (kraft : kraftSum (longest :: lengths) ≤ 1) :
    kraftSum (next :: lengths) ≤ 1 := by
  obtain ⟨units, grid⟩ := kraftSum_grid bound
  have spare : (units : ℚ) / 2 ^ next < 1 := by
    have : (0 : ℚ) < (1 / 2) ^ longest := by positivity
    rw [kraftSum_cons, grid] at kraft
    linarith
  rw [div_lt_one (by positivity)] at spare
  have room : units + 1 ≤ 2 ^ next := by exact_mod_cast spare
  rw [kraftSum_cons, grid, one_div_pow, ← add_div, div_le_one (by positivity)]
  rw [add_comm]
  exact_mod_cast room

/-- Any assignment is no better than one in which the two lightest weights are siblings. -/
theorem siblings (a b la lb : ℕ) (others : List Weighted) (leastA : ∀ c ∈ b :: others.map Prod.fst, a ≤ c)
    (leastB : ∀ c ∈ others.map Prod.fst, b ≤ c) (kraft : kraftSum (la :: lb :: others.map Prod.snd) ≤ 1) :
    ∃ len others', others'.map Prod.fst = others.map Prod.fst ∧
      kraftSum (len :: others'.map Prod.snd) ≤ 1 ∧
      (a + b) * len + weightedLength others' + (a + b) ≤
        weightedLength ((a, la) :: (b, lb) :: others) := by
  obtain ⟨longest, rest, weights, lengths, bound, cheaper⟩ := exchange a la ((b, lb) :: others) (by
    intro p member
    exact leastA p.1 (List.mem_map_of_mem (f := Prod.fst) member))
  -- the second weight heads the rest, since the exchange keeps the order of weights
  obtain ⟨⟨b', lb'⟩, rest, rfl⟩ : ∃ p tail, rest = p :: tail := by
    cases rest with
    | nil => simp at weights
    | cons p tail => exact ⟨p, tail, rfl⟩
  obtain ⟨same, restWeights⟩ : b' = b ∧ rest.map Prod.fst = others.map Prod.fst := by
    simpa using weights
  subst same
  obtain ⟨next, others', weights', lengths', bound', cheaper'⟩ := exchange b' lb' rest (by
    intro p member
    exact leastB p.1 (restWeights ▸ List.mem_map_of_mem member))
  have kraft' : kraftSum (longest :: next :: others'.map Prod.snd) ≤ 1 := by
    rw [kraftSum_perm (lengths'.cons longest), ← List.map_cons (f := Prod.snd) (a := (b', lb')),
      kraftSum_perm lengths]
    exact kraft
  have ordered : next ≤ longest := by
    have inRest : next ∈ lb' :: rest.map Prod.snd := lengths'.mem_iff.mp (by simp)
    obtain ⟨p, member, same⟩ := List.mem_map.mp
      (show next ∈ ((b', lb') :: rest).map Prod.snd by simpa using inRest)
    exact same ▸ bound p member
  have level : kraftSum (next :: next :: others'.map Prod.snd) ≤ 1 := by
    refine kraftSum_flatten ?_ kraft'
    intro len member
    rcases List.mem_cons.mp member with rfl | member
    · exact le_rfl
    · obtain ⟨p, inside, rfl⟩ := List.mem_map.mp member
      exact bound' p inside
  cases next with
  | zero =>
      have := kraftSum_nonneg (others'.map Prod.snd)
      simp only [kraftSum_cons, pow_zero] at level
      linarith
  | succ len =>
      refine ⟨len, others', weights'.trans restWeights, ?_, ?_⟩
      · simp only [kraftSum_cons, pow_succ] at level ⊢
        linarith
      · have shorter : a * (len + 1) ≤ a * longest := Nat.mul_le_mul_left a ordered
        simp only [weightedLength_cons] at cheaper ⊢
        have spread : (a + b') * len + (a + b') = a * (len + 1) + b' * (len + 1) := by ring
        omega

/-- `Merges weights cost`: repeatedly replacing two lightest weights by their sum
until one weight is left, the sums add up to `cost`. -/
inductive Merges : List ℕ → ℕ → Prop
  | single (weight : ℕ) : Merges [weight] 0
  | merge {weights rest : List ℕ} {a b cost : ℕ} (perm : (a :: b :: rest).Perm weights)
      (leastA : ∀ c ∈ b :: rest, a ≤ c) (leastB : ∀ c ∈ rest, b ≤ c)
      (merged : Merges ((a + b) :: rest) cost) : Merges weights (a + b + cost)

/-- The list of weighted lengths, rearranged to follow a permutation of its weights. -/
theorem reorder {l : List Weighted} {weights : List ℕ} (perm : weights.Perm (l.map Prod.fst)) :
    ∃ l' : List Weighted, l'.map Prod.fst = weights ∧ l'.Perm l := by
  have composed := congrFun (congrFun (List.eq_map_comp_perm (Prod.fst (α := ℕ) (β := ℕ))) weights) l
  obtain ⟨l', rfl, rearranged⟩ := composed.mpr perm
  exact ⟨l', rfl, rearranged⟩

/-- Lightest-first merging is optimal. -/
theorem Merges.optimal {weights : List ℕ} {cost : ℕ} (merges : Merges weights cost)
    {l : List Weighted} (same : l.map Prod.fst = weights) (kraft : kraftSum (l.map Prod.snd) ≤ 1) :
    cost ≤ weightedLength l := by
  induction merges generalizing l with
  | single weight => exact Nat.zero_le _
  | @merge weights rest a b cost perm leastA leastB _ ih =>
      obtain ⟨l', weights', perm'⟩ := reorder (l := l) (same ▸ perm)
      obtain ⟨⟨a', la⟩, ⟨b', lb⟩, others, rfl⟩ : ∃ p q tail, l' = p :: q :: tail := by
        match l', weights' with
        | p :: q :: tail, _ => exact ⟨p, q, tail, rfl⟩
      simp only [List.map_cons, List.cons.injEq] at weights'
      obtain ⟨rfl, rfl, rfl⟩ := weights'
      have kraft' : kraftSum (la :: lb :: others.map Prod.snd) ≤ 1 := by
        have := kraftSum_perm (perm'.map Prod.snd)
        simp only [List.map_cons] at this
        rw [this]
        exact kraft
      obtain ⟨len, others', sameWeights, fits, cheaper⟩ := siblings _ _ la lb others leastA leastB kraft'
      have bound := ih (l := (a' + b', len) :: others') (by simp [sameWeights]) (by simpa using fits)
      rw [← weightedLength_perm perm']
      simp only [weightedLength_cons] at bound cheaper ⊢
      omega

end Coding
