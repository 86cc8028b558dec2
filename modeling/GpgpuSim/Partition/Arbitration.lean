import GpgpuSim.Partition.Config
import Mathlib.Algebra.BigOperators.Group.Finset.Basic
import Mathlib.Algebra.Order.BigOperators.Group.Finset

/-! Credits for DRAM requests: one of its own for each sub partition, the rest
shared by all. -/
namespace GpgpuSim.Partition

structure ArbitrationMetadata where
  lastBorrower : Nat
  privateCredit : Nat → Nat
  sharedCredit : Int

namespace ArbitrationMetadata

def create (cfg : MemoryConfig) : ArbitrationMetadata := ⟨cfg.nSubPartition - 1, fun _ => 0, 0⟩

def hasCredits (cfg : MemoryConfig) (arbitration : ArbitrationMetadata) (spid : Nat) : Bool :=
  decide (arbitration.privateCredit spid < privateCreditLimit) ||
    (decide (cfg.sharedCreditLimit = 0) || decide (arbitration.sharedCredit < cfg.sharedCreditLimit))

def borrowCredit (cfg : MemoryConfig) (arbitration : ArbitrationMetadata) (spid : Nat) :
    Except Fault ArbitrationMetadata :=
  if arbitration.privateCredit spid < privateCreditLimit then
    .ok { arbitration with
      privateCredit :=
        Function.update arbitration.privateCredit spid (arbitration.privateCredit spid + 1)
      lastBorrower := spid }
  else if cfg.sharedCreditLimit = 0 ∨ arbitration.sharedCredit < cfg.sharedCreditLimit then
    .ok { arbitration with sharedCredit := arbitration.sharedCredit + 1, lastBorrower := spid }
  else .error .depletedCredit

def returnCredit (arbitration : ArbitrationMetadata) (spid : Nat) : Except Fault ArbitrationMetadata :=
  let returned :=
    if arbitration.privateCredit spid > 0 then
      { arbitration with
        privateCredit :=
          Function.update arbitration.privateCredit spid (arbitration.privateCredit spid - 1) }
    else { arbitration with sharedCredit := arbitration.sharedCredit - 1 }
  if returned.sharedCredit ≥ 0 then .ok returned else .error .creditUnderflow

/-! ## What the counters stand for -/

/-- The counters pay for the requests that are outstanding. -/
structure Covers (cfg : MemoryConfig) (arbitration : ArbitrationMetadata) (outstanding : Nat → Nat) :
    Prop where
  private_le : ∀ p, arbitration.privateCredit p ≤ privateCreditLimit
  private_le_outstanding : ∀ p, arbitration.privateCredit p ≤ outstanding p
  shared : arbitration.sharedCredit =
    ∑ p ∈ Finset.range cfg.nSubPartition, ((outstanding p : Int) - arbitration.privateCredit p)
  shared_le : 0 < cfg.sharedCreditLimit → arbitration.sharedCredit ≤ cfg.sharedCreditLimit

variable {cfg : MemoryConfig} {arbitration next : ArbitrationMetadata} {outstanding : Nat → Nat} {spid : Nat}

theorem Covers.create (cfg : MemoryConfig) : Covers cfg (create cfg) fun _ => 0 where
  private_le _ := Nat.zero_le _
  private_le_outstanding _ := le_rfl
  shared := by simp [ArbitrationMetadata.create]
  shared_le limited := limited.le

/-- A sum in which one term changes. -/
theorem sum_change {n p : Nat} (inside : p < n) {f g : Nat → Int} (others : ∀ q, q ≠ p → g q = f q) :
    ∑ q ∈ Finset.range n, g q = ∑ q ∈ Finset.range n, f q + (g p - f p) := by
  have change : ∑ q ∈ Finset.range n, (g q - f q) = g p - f p := by
    apply Finset.sum_eq_single_of_mem p (Finset.mem_range.mpr inside)
    intro q _ apart
    rw [others q apart, sub_self]
  rw [← change, Finset.sum_sub_distrib, add_sub_cancel]

/-- `borrow_credit` is only called after `has_credits`. -/
theorem borrow_of_hasCredits (granted : arbitration.hasCredits cfg spid = true) :
    ∃ next, arbitration.borrowCredit cfg spid = .ok next := by
  simp only [hasCredits, Bool.or_eq_true, decide_eq_true_eq] at granted
  unfold borrowCredit
  split
  · exact ⟨_, rfl⟩
  · rcases granted with own | shared
    · contradiction
    · exact ⟨_, if_pos shared⟩

theorem Covers.borrow (covers : Covers cfg arbitration outstanding) (inside : spid < cfg.nSubPartition)
    (borrowed : arbitration.borrowCredit cfg spid = .ok next) :
    Covers cfg next (Function.update outstanding spid (outstanding spid + 1)) := by
  have grows : ∀ p, outstanding p ≤ Function.update outstanding spid (outstanding spid + 1) p := by
    intro p
    by_cases same : p = spid
    · subst same
      simp
    · simp [same]
  unfold borrowCredit at borrowed
  split at borrowed
  · rename_i own
    cases borrowed
    constructor
    · intro p
      by_cases same : p = spid
      · subst same
        simpa only [Function.update_self] using Nat.succ_le_of_lt own
      · simpa [same] using covers.private_le p
    · intro p
      by_cases same : p = spid
      · subst same
        simpa using covers.private_le_outstanding p
      · simpa [same] using covers.private_le_outstanding p
    · dsimp only
      rw [covers.shared]
      apply Finset.sum_congr rfl
      intro p _
      by_cases same : p = spid
      · subst same
        simp
      · simp [same]
    · exact covers.shared_le
  · split at borrowed
    · rename_i granted
      cases borrowed
      constructor
      · exact covers.private_le
      · exact fun p => (covers.private_le_outstanding p).trans (grows p)
      · have change := sum_change inside
          (f := fun p => (outstanding p : Int) - arbitration.privateCredit p)
          (g := fun p => (Function.update outstanding spid (outstanding spid + 1) p : Int) -
            arbitration.privateCredit p)
          (fun q apart => by rw [Function.update_of_ne apart])
        dsimp only at change ⊢
        rw [change, covers.shared, Function.update_self]
        omega
      · intro limited
        dsimp only
        omega
    · contradiction

/-- A credit that was borrowed can be returned. -/
theorem Covers.giveBack (covers : Covers cfg arbitration outstanding) (inside : spid < cfg.nSubPartition)
    (owed : 0 < outstanding spid) :
    ∃ next, arbitration.returnCredit spid = .ok next ∧
      Covers cfg next (Function.update outstanding spid (outstanding spid - 1)) := by
  have term_nonneg : ∀ p ∈ Finset.range cfg.nSubPartition,
      0 ≤ (outstanding p : Int) - arbitration.privateCredit p := by
    intro p _
    have := covers.private_le_outstanding p
    omega
  have shared_nonneg : 0 ≤ arbitration.sharedCredit := by
    rw [covers.shared]
    exact Finset.sum_nonneg term_nonneg
  unfold returnCredit
  by_cases own : arbitration.privateCredit spid > 0
  · simp only [if_pos own, if_pos (show arbitration.sharedCredit ≥ 0 from shared_nonneg)]
    refine ⟨_, rfl, ?_⟩
    constructor
    · intro p
      have := covers.private_le p
      by_cases same : p = spid
      · subst same
        simp only [Function.update_self]
        omega
      · simpa [same] using this
    · intro p
      have := covers.private_le_outstanding p
      by_cases same : p = spid
      · subst same
        simp only [Function.update_self]
        omega
      · simpa [same] using this
    · dsimp only
      rw [covers.shared]
      apply Finset.sum_congr rfl
      intro p _
      by_cases same : p = spid
      · subst same
        simp only [Function.update_self]
        omega
      · simp [same]
    · exact covers.shared_le
  · have spent : arbitration.privateCredit spid = 0 := by omega
    have one : (1 : Int) ≤ arbitration.sharedCredit := by
      have single := Finset.single_le_sum term_nonneg (Finset.mem_range.mpr inside)
      rw [← covers.shared, spent] at single
      omega
    simp only [if_neg own, if_pos (show arbitration.sharedCredit - 1 ≥ 0 by omega)]
    refine ⟨_, rfl, ?_⟩
    constructor
    · exact covers.private_le
    · intro p
      by_cases same : p = spid
      · subst same
        simp [spent]
      · simpa [same] using covers.private_le_outstanding p
    · have owed_one := covers.private_le_outstanding spid
      have change := sum_change inside
        (f := fun p => (outstanding p : Int) - arbitration.privateCredit p)
        (g := fun p => (Function.update outstanding spid (outstanding spid - 1) p : Int) -
          arbitration.privateCredit p)
        (fun q apart => by rw [Function.update_of_ne apart])
      dsimp only at change ⊢
      rw [change, covers.shared, Function.update_self]
      omega
    · intro limited
      have := covers.shared_le limited
      dsimp only
      omega

/-- No more requests are outstanding than there are credits. -/
theorem Covers.total_le (covers : Covers cfg arbitration outstanding) (limited : 0 < cfg.sharedCreditLimit) :
    ∑ p ∈ Finset.range cfg.nSubPartition, (outstanding p : Int) ≤
      cfg.nSubPartition + cfg.sharedCreditLimit := by
  have own : ∑ p ∈ Finset.range cfg.nSubPartition, (arbitration.privateCredit p : Int) ≤
      cfg.nSubPartition := by
    have bound := Finset.sum_le_card_nsmul (Finset.range cfg.nSubPartition)
      (fun p => (arbitration.privateCredit p : Int)) 1
      (fun p _ => by exact_mod_cast covers.private_le p)
    simpa using bound
  have shared := covers.shared
  rw [Finset.sum_sub_distrib] at shared
  have := covers.shared_le limited
  omega

end ArbitrationMetadata

end GpgpuSim.Partition
