import GpgpuSim.Coding.Prefix
import Mathlib.Data.Nat.Bitwise
import Mathlib.Tactic.FieldSimp

/-! Canonical numbering: code words for a nondecreasing list of lengths, counted
upwards and shifted at each change of length. It is prefix free whenever the
Kraft sum of the lengths is at most one. -/
namespace Coding

/-- The `len` low bits of `code`, most significant first. -/
def word (code len : ℕ) : List Bool := (List.range len).map fun i => code.testBit (len - 1 - i)

@[simp] theorem length_word (code len : ℕ) : (word code len).length = len := by simp [word]

theorem getElem_word {code len i : ℕ} (h : i < (word code len).length) :
    (word code len)[i] = code.testBit (len - 1 - i) := by
  simp [word]

/-- A word that is a prefix of another one spells its leading bits. -/
theorem eq_div_of_word_prefix {c c' len len' : ℕ} (bound : c < 2 ^ len) (bound' : c' < 2 ^ len')
    (below : word c len <+: word c' len') : c = c' / 2 ^ (len' - len) := by
  have shorter : len ≤ len' := by simpa using below.length_le
  have quotient : c' / 2 ^ (len' - len) < 2 ^ len := by
    rw [Nat.div_lt_iff_lt_mul (Nat.two_pow_pos _), ← Nat.pow_add]
    simpa only [Nat.add_sub_cancel' shorter] using bound'
  refine Nat.eq_of_testBit_eq fun k => ?_
  rw [Nat.testBit_div_two_pow]
  by_cases inside : k < len
  · have at_k := below.getElem (i := len - 1 - k) (by simp; omega)
    rw [getElem_word, getElem_word] at at_k
    have low : len - 1 - (len - 1 - k) = k := by omega
    have high : len' - 1 - (len - 1 - k) = k + (len' - len) := by omega
    rwa [low, high] at at_k
  · have small : 2 ^ len ≤ 2 ^ k := Nat.pow_le_pow_right (by decide) (by omega)
    rw [Nat.testBit_lt_two_pow (bound.trans_le small), ← Nat.testBit_div_two_pow,
      Nat.testBit_lt_two_pow (quotient.trans_le small)]

/-- The second word starts at or after the end of the range of the first. -/
def Separated (p q : ℕ × ℕ) : Prop := p.1 ≤ q.1 ∧ (p.2 + 1) * 2 ^ (q.1 - p.1) ≤ q.2

theorem Separated.incomparable {p q : ℕ × ℕ} (apart : Separated p q) (hp : p.2 < 2 ^ p.1)
    (hq : q.2 < 2 ^ q.1) : Incomparable (word p.2 p.1) (word q.2 q.1) := by
  obtain ⟨shorter, beyond⟩ := apart
  have impossible : ¬ word p.2 p.1 <+: word q.2 q.1 := by
    intro below
    have leading := eq_div_of_word_prefix hp hq below
    have : p.2 + 1 ≤ q.2 / 2 ^ (q.1 - p.1) := (Nat.le_div_iff_mul_le (Nat.two_pow_pos _)).mpr beyond
    omega
  refine ⟨impossible, fun above => impossible ?_⟩
  have same : (word q.2 q.1).length = (word p.2 p.1).length :=
    le_antisymm above.length_le (by simpa using shorter)
  exact above.eq_of_length same ▸ List.prefix_refl _

/-- Counts upwards from `code`, which is on `prev` bits. -/
def numbering (code prev : ℕ) : List ℕ → List (ℕ × ℕ)
  | [] => []
  | len :: rest =>
      let shifted := code * 2 ^ (len - prev)
      (len, shifted) :: numbering (shifted + 1) len rest

@[simp] theorem map_fst_numbering (code prev : ℕ) (lengths : List ℕ) :
    (numbering code prev lengths).map Prod.fst = lengths := by
  induction lengths generalizing code prev with
  | nil => rfl
  | cons len rest ih => simp [numbering, ih]

/-- The code space used so far, followed by the lengths still to be numbered. -/
def Fits (code prev : ℕ) (lengths : List ℕ) : Prop :=
  (∀ len ∈ lengths, prev ≤ len) ∧ lengths.Pairwise (· ≤ ·) ∧
    (code : ℚ) / 2 ^ prev + kraftSum lengths ≤ 1

theorem Fits.start {lengths : List ℕ} {first : ℕ} (least : ∀ len ∈ lengths, first ≤ len)
    (sorted : lengths.Pairwise (· ≤ ·)) (kraft : kraftSum lengths ≤ 1) : Fits 0 first lengths :=
  ⟨least, sorted, by simpa using kraft⟩

theorem Fits.step {code prev len : ℕ} {rest : List ℕ} (fits : Fits code prev (len :: rest)) :
    code * 2 ^ (len - prev) < 2 ^ len ∧ Fits (code * 2 ^ (len - prev) + 1) len rest := by
  obtain ⟨least, sorted, space⟩ := fits
  obtain ⟨next, sorted⟩ := List.pairwise_cons.mp sorted
  have grows : prev ≤ len := least len (by simp)
  have power : (2 : ℚ) ^ len = 2 ^ prev * 2 ^ (len - prev) := by
    rw [← pow_add, Nat.add_sub_cancel' grows]
  have shifted : ((code * 2 ^ (len - prev) : ℕ) : ℚ) / 2 ^ len = code / 2 ^ prev := by
    push_cast
    rw [power]
    field_simp
  have used : ((code * 2 ^ (len - prev) + 1 : ℕ) : ℚ) / 2 ^ len + kraftSum rest ≤ 1 := by
    calc ((code * 2 ^ (len - prev) + 1 : ℕ) : ℚ) / 2 ^ len + kraftSum rest
        = ((code * 2 ^ (len - prev) : ℕ) : ℚ) / 2 ^ len + ((1 / 2) ^ len + kraftSum rest) := by
          push_cast
          rw [one_div_pow]
          ring
      _ = code / 2 ^ prev + kraftSum (len :: rest) := by rw [shifted, kraftSum_cons]
      _ ≤ 1 := space
  refine ⟨?_, next, sorted, used⟩
  have share : ((code * 2 ^ (len - prev) + 1 : ℕ) : ℚ) / 2 ^ len ≤ 1 := by
    linarith [kraftSum_nonneg rest]
  rw [div_le_one (by positivity)] at share
  exact Nat.succ_le_iff.mp (by exact_mod_cast share)

/-- Every number lies beyond the running code and fits its own length. -/
theorem Fits.numbering_bounds {code prev : ℕ} {lengths : List ℕ} (fits : Fits code prev lengths) :
    ∀ p ∈ numbering code prev lengths, prev ≤ p.1 ∧ code * 2 ^ (p.1 - prev) ≤ p.2 ∧ p.2 < 2 ^ p.1 := by
  induction lengths generalizing code prev with
  | nil => simp [numbering]
  | cons len rest ih =>
      obtain ⟨inside, later⟩ := fits.step
      have grows : prev ≤ len := fits.1 len (by simp)
      intro p member
      rcases List.mem_cons.mp member with rfl | member
      · exact ⟨grows, le_rfl, inside⟩
      · obtain ⟨longer, beyond, bound⟩ := ih later p member
        refine ⟨grows.trans longer, le_trans ?_ beyond, bound⟩
        have split : p.1 - prev = (len - prev) + (p.1 - len) := by omega
        rw [split, Nat.pow_add, ← Nat.mul_assoc]
        exact Nat.mul_le_mul_right _ (Nat.le_succ _)

theorem Fits.numbering_separated {code prev : ℕ} {lengths : List ℕ} (fits : Fits code prev lengths) :
    (numbering code prev lengths).Pairwise Separated := by
  induction lengths generalizing code prev with
  | nil => simp [numbering]
  | cons len rest ih =>
      obtain ⟨-, later⟩ := fits.step
      refine List.pairwise_cons.mpr ⟨?_, ih later⟩
      intro q member
      obtain ⟨longer, beyond, -⟩ := later.numbering_bounds q member
      exact ⟨longer, beyond⟩

/-- Canonical numbering is prefix free. -/
theorem Fits.prefixFree {code prev : ℕ} {lengths : List ℕ} (fits : Fits code prev lengths) :
    PrefixFree ((numbering code prev lengths).map fun p => word p.2 p.1) := by
  refine List.pairwise_map.mpr (fits.numbering_separated.imp_of_mem ?_)
  intro p q hp hq apart
  exact apart.incomparable (fits.numbering_bounds p hp).2.2 (fits.numbering_bounds q hq).2.2

end Coding
