import GpgpuSim.Partition.Schedules

/-! Runs of the credit counters under any interleaving of the sub partitions. Zero as
the shared limit stands for no limit, and the constructor can also arrive at it by
subtracting the private credits from the queue sizes. -/
namespace GpgpuSim.Partition
open Transition

inductive CreditEvent
  | borrowed (spid : Nat)
  | returned (spid : Nat)
  deriving DecidableEq, Repr

/-- The counters, and the requests that wait for their credit to be returned. -/
structure CreditState where
  arbitration : ArbitrationMetadata
  outstanding : Nat → Nat

/-- `borrow_credit` guarded by `has_credits`, and `return_credit` for an outstanding request. -/
inductive CreditStep (cfg : MemoryConfig) (s : CreditState) : List CreditEvent → CreditState → Prop
  | borrow (spid : Nat) {next : ArbitrationMetadata} (inside : spid < cfg.nSubPartition)
      (granted : s.arbitration.hasCredits cfg spid = true)
      (done : s.arbitration.borrowCredit cfg spid = .ok next) :
      CreditStep cfg s [.borrowed spid]
        ⟨next, Function.update s.outstanding spid (s.outstanding spid + 1)⟩
  | giveBack (spid : Nat) {next : ArbitrationMetadata} (inside : spid < cfg.nSubPartition)
      (owed : 0 < s.outstanding spid) (done : s.arbitration.returnCredit spid = .ok next) :
      CreditStep cfg s [.returned spid]
        ⟨next, Function.update s.outstanding spid (s.outstanding spid - 1)⟩

abbrev CreditRun (cfg : MemoryConfig) (trace : List CreditEvent) (s : CreditState) : Prop :=
  Reaches (CreditStep cfg) ⟨.create cfg, fun _ => 0⟩ trace s

namespace CreditState

variable {cfg : MemoryConfig} {s : CreditState} {trace : List CreditEvent}

/-- All outstanding requests of the channel. -/
def total (cfg : MemoryConfig) (s : CreditState) : Nat := ∑ p ∈ Finset.range cfg.nSubPartition, s.outstanding p

/-- No assertion fires, the counters pay for the outstanding requests, and who has none may go on. -/
structure Sound (cfg : MemoryConfig) (s : CreditState) : Prop where
  lends : ∀ spid < cfg.nSubPartition, s.arbitration.hasCredits cfg spid = true →
    ∃ next, s.arbitration.borrowCredit cfg spid = .ok next
  takesBack : ∀ spid < cfg.nSubPartition, 0 < s.outstanding spid →
    ∃ next, s.arbitration.returnCredit spid = .ok next
  private_le : ∀ p, s.arbitration.privateCredit p ≤ 1
  balance : (s.total cfg : Int) =
    ∑ p ∈ Finset.range cfg.nSubPartition, (s.arbitration.privateCredit p : Int) + s.arbitration.sharedCredit
  progress : ∀ spid < cfg.nSubPartition, s.outstanding spid = 0 → s.arbitration.hasCredits cfg spid = true

/-- The requests that the DRAM queues of a channel have room for, and one more. -/
def capacity (cfg : MemoryConfig) : Nat :=
  cfg.dramSchedQueueSize + cfg.dramReturnQueueSize +
    (if cfg.seperateWriteQueueEnabled then cfg.dramWriteQueueSize else 0) + 1

theorem covers_of_run (run : CreditRun cfg trace s) : s.arbitration.Covers cfg s.outstanding := by
  induction run with
  | refl => exact .create cfg
  | next _ step ih =>
      cases step with
      | borrow spid inside granted done => exact ih.borrow inside done
      | giveBack spid inside owed done =>
          obtain ⟨next, returned, covers⟩ := ih.giveBack inside owed
          obtain rfl := Except.ok.inj (returned.symm.trans done)
          exact covers

theorem sound_of_covers (covers : s.arbitration.Covers cfg s.outstanding) : Sound cfg s where
  lends _ _ granted := ArbitrationMetadata.borrow_of_hasCredits granted
  takesBack _ inside owed := by
    obtain ⟨next, returned, -⟩ := covers.giveBack inside owed
    exact ⟨next, returned⟩
  private_le := covers.private_le
  balance := by
    have shared := covers.shared
    rw [Finset.sum_sub_distrib] at shared
    rw [shared, total, Nat.cast_sum]
    omega
  progress spid _ none := by
    have unused := covers.private_le_outstanding spid
    have own : s.arbitration.privateCredit spid < privateCreditLimit := by
      rw [privateCreditLimit]
      omega
    simp [ArbitrationMetadata.hasCredits, own]

/-- The limit the constructor computes when both queues are bounded. -/
theorem sharedCreditLimit_eq (sched : 0 < cfg.dramSchedQueueSize) (ret : 0 < cfg.dramReturnQueueSize) :
    cfg.nSubPartition + cfg.sharedCreditLimit = capacity cfg := by
  have bounded : ¬(cfg.dramSchedQueueSize = 0 ∨ cfg.dramReturnQueueSize = 0) := by omega
  rw [MemoryConfig.sharedCreditLimit, if_neg bounded, capacity]
  split <;> (push_cast; omega)

theorem outstanding_le_total {spid : Nat} (inside : spid < cfg.nSubPartition) :
    s.outstanding spid ≤ s.total cfg :=
  Finset.single_le_sum (f := s.outstanding) (fun _ _ => Nat.zero_le _) (Finset.mem_range.mpr inside)

/-- Without a limit a sub partition can go on borrowing. -/
theorem unlimited_run (unlimited : cfg.sharedCreditLimit = 0) (count : Nat) :
    ∃ trace s, CreditRun cfg trace s ∧ s.outstanding 0 = count := by
  induction count with
  | zero => exact ⟨[], _, .refl, rfl⟩
  | succ count ih =>
      obtain ⟨trace, s, run, count_eq⟩ := ih
      have granted : s.arbitration.hasCredits cfg 0 = true := by
        simp [ArbitrationMetadata.hasCredits, unlimited]
      obtain ⟨next, done⟩ := ArbitrationMetadata.borrow_of_hasCredits granted
      refine ⟨_, _, run.next (.borrow 0 cfg.nSubPartition_pos granted done), ?_⟩
      simp [count_eq]

/-- In every run the counters are sound; the requests of a channel stay within the capacity of its queues
exactly when the private credits do not use the capacity up. -/
theorem credits_sound_and_bounded_iff (cfg : MemoryConfig) (accepted : 0 ≤ cfg.sharedCreditLimit)
    (sched : 0 < cfg.dramSchedQueueSize) (ret : 0 < cfg.dramReturnQueueSize) :
    (∀ trace s, CreditRun cfg trace s → Sound cfg s) ∧
      ((∀ trace s, CreditRun cfg trace s → s.total cfg ≤ capacity cfg) ↔
        cfg.dramSchedQueueSize + cfg.dramReturnQueueSize +
          (if cfg.seperateWriteQueueEnabled then cfg.dramWriteQueueSize else 0) ≠ cfg.nSubPartition - 1) := by
  have limit := sharedCreditLimit_eq sched ret
  have some := cfg.nSubPartition_pos
  refine ⟨fun trace s run => sound_of_covers (covers_of_run run), ?_⟩
  constructor
  · intro bounded used
    rw [capacity, used] at limit
    have unlimited : cfg.sharedCreditLimit = 0 := by omega
    obtain ⟨trace, s, run, count⟩ := unlimited_run unlimited (capacity cfg + 1)
    have single := outstanding_le_total (s := s) some
    have := bounded trace s run
    omega
  · intro left trace s run
    have limited : 0 < cfg.sharedCreditLimit := by
      rw [capacity] at limit
      omega
    have bound := (covers_of_run run).total_le limited
    rw [limit, ← Nat.cast_sum] at bound
    exact_mod_cast bound

theorem credits_sound_and_bounded_small :
    (∀ trace s, CreditRun MemoryPartitionUnit.small trace s → Sound MemoryPartitionUnit.small s) ∧
      ((∀ trace s, CreditRun MemoryPartitionUnit.small trace s →
          s.total MemoryPartitionUnit.small ≤ capacity MemoryPartitionUnit.small) ↔ 16 + 16 + 0 ≠ 1 - 1) :=
  credits_sound_and_bounded_iff MemoryPartitionUnit.small (by decide) (by decide) (by decide)

/-- Four sub partitions over DRAM queues for three requests. -/
def crowdedChannel : MemoryConfig :=
  { MemoryPartitionUnit.small with
    nSubPartition := 4
    nSubPartition_pos := by decide
    dramSchedQueueSize := 2
    dramReturnQueueSize := 1 }

/-- The constructor accepts it, and nothing stops a fifth request. -/
theorem crowdedChannel_exceeds_capacity :
    0 ≤ crowdedChannel.sharedCreditLimit ∧ 0 < crowdedChannel.dramSchedQueueSize ∧
      0 < crowdedChannel.dramReturnQueueSize ∧
      ∃ trace s, CreditRun crowdedChannel trace s ∧ capacity crowdedChannel < s.total crowdedChannel := by
  refine ⟨by decide, by decide, by decide, ?_⟩
  obtain ⟨trace, s, run, count⟩ := @unlimited_run crowdedChannel (by decide) 5
  refine ⟨trace, s, run, ?_⟩
  have small : capacity crowdedChannel < s.outstanding 0 := by
    rw [count]
    decide
  exact small.trans_le (outstanding_le_total (by decide))

end CreditState

end GpgpuSim.Partition
