import GpgpuSim.Words.MixedRadix
import Mathlib.Algebra.Order.Monoid.Unbundled.MinMax
import Mathlib.Data.List.Induction

/-! The CTAs of a kernel and the threads of a CTA, handed out one after the other by two counters of
three digits. -/
namespace GpgpuSim.Kernel
open Words

structure Dim3 where
  x : UInt32
  y : UInt32
  z : UInt32
  deriving DecidableEq, Repr

/-- The last digit stays at its bound. -/
def incrementXThenYThenZ (i bound : Dim3) : Dim3 :=
  let i := { i with x := i.x + 1 }
  if i.x ≥ bound.x then
    let i := { i with x := 0, y := i.y + 1 }
    if i.y ≥ bound.y then
      let i := { i with y := 0 }
      if i.z < bound.z then { i with z := i.z + 1 } else i
    else i
  else i

/-- `kernel_info_t`. -/
structure KernelInfo where
  gridDim : Dim3
  blockDim : Dim3
  nextCta : Dim3 := ⟨0, 0, 0⟩
  nextTid : Dim3 := ⟨0, 0, 0⟩
  deriving DecidableEq, Repr

namespace KernelInfo

/-- The product is taken in 32 bits. -/
def numBlocks (kernel : KernelInfo) : Nat := (kernel.gridDim.x * kernel.gridDim.y * kernel.gridDim.z).toNat

def threadsPerCta (kernel : KernelInfo) : Nat := (kernel.blockDim.x * kernel.blockDim.y * kernel.blockDim.z).toNat

def incrementCtaId (kernel : KernelInfo) : KernelInfo :=
  { kernel with nextCta := incrementXThenYThenZ kernel.nextCta kernel.gridDim, nextTid := ⟨0, 0, 0⟩ }

def getNextCtaIdSingle (kernel : KernelInfo) : UInt32 :=
  kernel.nextCta.x + kernel.gridDim.x * kernel.nextCta.y + kernel.gridDim.x * kernel.gridDim.y * kernel.nextCta.z

def noMoreCtasToRun (kernel : KernelInfo) : Bool :=
  kernel.nextCta.x ≥ kernel.gridDim.x || kernel.nextCta.y ≥ kernel.gridDim.y || kernel.nextCta.z ≥ kernel.gridDim.z

def incrementThreadId (kernel : KernelInfo) : KernelInfo :=
  { kernel with nextTid := incrementXThenYThenZ kernel.nextTid kernel.blockDim }

def getNextThreadId (kernel : KernelInfo) : UInt32 :=
  kernel.nextTid.x + kernel.blockDim.x * kernel.nextTid.y + kernel.blockDim.x * kernel.blockDim.y * kernel.nextTid.z

def moreThreadsInCta (kernel : KernelInfo) : Bool :=
  kernel.nextTid.z < kernel.blockDim.z && kernel.nextTid.y < kernel.blockDim.y && kernel.nextTid.x < kernel.blockDim.x

end KernelInfo

namespace Dim3

def volume (bound : Dim3) : Nat := bound.x.toNat * bound.y.toNat * bound.z.toNat

/-- No dimension is zero, and the number of places is a 32-bit number. -/
structure Proper (bound : Dim3) : Prop where
  x : 1 ≤ bound.x
  y : 1 ≤ bound.y
  z : 1 ≤ bound.z
  small : bound.volume < 2 ^ 32

def Below (i bound : Dim3) : Prop := i.x < bound.x ∧ i.y < bound.y ∧ i.z < bound.z

/-- The place of a position in the enumeration. -/
def rank (i bound : Dim3) : Nat := mixedRadix [(i.x.toNat, bound.x.toNat), (i.y.toNat, bound.y.toNat)] i.z.toNat

/-- A counter after `n` increments: the digits of `n`, the last of which does not pass its bound. -/
structure Counted (bound : Dim3) (n : Nat) (i : Dim3) : Prop where
  x : i.x.toNat = n % bound.x.toNat
  y : i.y.toNat = n / bound.x.toNat % bound.y.toNat
  z : i.z.toNat = min (n / bound.x.toNat / bound.y.toNat) bound.z.toNat

variable {bound i j : Dim3} {n : Nat}

theorem Proper.positive (proper : bound.Proper) : 0 < bound.x.toNat ∧ 0 < bound.y.toNat ∧ 0 < bound.z.toNat := by
  obtain ⟨x, y, z, -⟩ := proper
  rw [UInt32.le_iff_toNat_le] at x y z
  exact ⟨x, y, z⟩

theorem Counted.start (bound : Dim3) : Counted bound 0 ⟨0, 0, 0⟩ where
  x := by simp
  y := by simp
  z := by simp

theorem toNat_add_one {a b : UInt32} (below : a.toNat < b.toNat) : (a + 1).toNat = a.toNat + 1 := by
  have size := b.toNat_lt
  rw [UInt32.toNat_add]
  exact Nat.mod_eq_of_lt (by simp; omega)

/-- An increment counts one on. -/
theorem Counted.step (counted : Counted bound n i) (proper : bound.Proper) :
    Counted bound (n + 1) (incrementXThenYThenZ i bound) := by
  obtain ⟨positiveX, positiveY, -⟩ := proper.positive
  obtain ⟨x, y, z⟩ := counted
  have nextX : (i.x + 1).toNat = n % bound.x.toNat + 1 := by
    rw [toNat_add_one (x ▸ Nat.mod_lt n positiveX), x]
  have nextY : (i.y + 1).toNat = n / bound.x.toNat % bound.y.toNat + 1 := by
    rw [toNat_add_one (y ▸ Nat.mod_lt _ positiveY), y]
  rcases succ_mod_div (n := n) positiveX with ⟨room, digit, rest⟩ | ⟨full, digit, rest⟩
  · have stays : ¬ i.x + 1 ≥ bound.x := by
      rw [ge_iff_le, UInt32.le_iff_toNat_le, nextX]
      omega
    simp only [incrementXThenYThenZ, if_neg stays]
    exact ⟨by rw [nextX, digit], by rw [y, rest], by rw [z, rest]⟩
  · have beyond : i.x + 1 ≥ bound.x := by
      rw [ge_iff_le, UInt32.le_iff_toNat_le, nextX]
      omega
    simp only [incrementXThenYThenZ, if_pos beyond]
    rcases succ_mod_div (n := n / bound.x.toNat) positiveY with ⟨room, digit', rest'⟩ | ⟨full, digit', rest'⟩
    · have stays : ¬ i.y + 1 ≥ bound.y := by
        rw [ge_iff_le, UInt32.le_iff_toNat_le, nextY]
        omega
      rw [if_neg stays]
      exact ⟨by simp [digit], by rw [nextY, rest, digit'], by rw [z, rest, rest']⟩
    · have beyond' : i.y + 1 ≥ bound.y := by
        rw [ge_iff_le, UInt32.le_iff_toNat_le, nextY]
        omega
      rw [if_pos beyond']
      by_cases inside : i.z < bound.z
      · rw [if_pos inside]
        rw [UInt32.lt_iff_toNat_lt] at inside
        refine ⟨by simp [digit], by simp [rest, digit'], ?_⟩
        rw [toNat_add_one inside, rest, rest']
        omega
      · rw [if_neg inside]
        rw [UInt32.lt_iff_toNat_lt] at inside
        refine ⟨by simp [digit], by simp [rest, digit'], ?_⟩
        dsimp only
        rw [z, rest, rest']
        omega

/-- The last digit is at its bound from the end of the enumeration on. -/
theorem div_lt_iff (proper : bound.Proper) : n / bound.x.toNat / bound.y.toNat < bound.z.toNat ↔ n < bound.volume := by
  obtain ⟨positiveX, positiveY, -⟩ := proper.positive
  rw [Nat.div_div_eq_div_mul, Nat.div_lt_iff_lt_mul (Nat.mul_pos positiveX positiveY), volume, Nat.mul_comm]

theorem Counted.below_iff (counted : Counted bound n i) (proper : bound.Proper) : i.Below bound ↔ n < bound.volume := by
  obtain ⟨positiveX, positiveY, -⟩ := proper.positive
  have digitX := Nat.mod_lt n positiveX
  have digitY := Nat.mod_lt (n / bound.x.toNat) positiveY
  rw [← div_lt_iff proper, Below, UInt32.lt_iff_toNat_lt, UInt32.lt_iff_toNat_lt, UInt32.lt_iff_toNat_lt,
    counted.x, counted.y, counted.z]
  omega

/-- Inside the bounds the position is the number of increments. -/
theorem Counted.rank_eq (counted : Counted bound n i) (proper : bound.Proper) (below : n < bound.volume) :
    i.rank bound = n := by
  have digitZ : i.z.toNat = n / bound.x.toNat / bound.y.toNat := by
    rw [counted.z]
    exact min_eq_left ((div_lt_iff proper).mpr below).le
  rw [rank, counted.x, counted.y, digitZ, mixedRadix_digits]

/-- The linear index of the source is the rank. -/
theorem linear_eq_rank (inside : i.rank bound < 2 ^ 32) :
    (i.x + bound.x * i.y + bound.x * bound.y * i.z).toNat = i.rank bound := by
  have sum : i.x.toNat + bound.x.toNat * i.y.toNat + bound.x.toNat * bound.y.toNat * i.z.toNat = i.rank bound := by
    simp only [rank, mixedRadix_cons, mixedRadix_nil, Nat.mul_add, Nat.mul_assoc, Nat.add_assoc]
  simp only [UInt32.toNat_add, UInt32.toNat_mul, Nat.mod_mul_mod, Nat.add_mod_mod, Nat.mod_add_mod, sum]
  exact Nat.mod_eq_of_lt inside

theorem rank_inj (below : i.Below bound) (below' : j.Below bound) (same : i.rank bound = j.rank bound) : i = j := by
  simp only [Below, UInt32.lt_iff_toNat_lt] at below below'
  obtain ⟨low, high⟩ := mixedRadix_inj
    (by simpa using ⟨below.1, below.2.1⟩) (by simpa using ⟨below'.1, below'.2.1⟩) (by simp) same
  simp only [List.cons.injEq, Prod.mk.injEq, and_true, UInt32.toNat_inj] at low high
  obtain ⟨x, y, z⟩ := i
  obtain ⟨x', y', z'⟩ := j
  simp_all

theorem rank_lt (below : i.Below bound) : i.rank bound < bound.volume := by
  simp only [Below, UInt32.lt_iff_toNat_lt] at below
  have bounded := mixedRadix_lt [(i.x.toNat, bound.x.toNat), (i.y.toNat, bound.y.toNat)]
    (by simpa using ⟨below.1, below.2.1⟩) below.2.2
  simpa [volume, rank] using bounded

end Dim3

/-- The two calls that move a kernel on. -/
inductive KernelCall where
  | incrementCtaId
  | incrementThreadId
  deriving DecidableEq, Repr

namespace KernelInfo

def perform (kernel : KernelInfo) : KernelCall → KernelInfo
  | .incrementCtaId => kernel.incrementCtaId
  | .incrementThreadId => kernel.incrementThreadId

def performAll (kernel : KernelInfo) (calls : List KernelCall) : KernelInfo := calls.foldl perform kernel

end KernelInfo

/-- The CTAs that are over. -/
def ctas (calls : List KernelCall) : Nat := calls.count .incrementCtaId

/-- The thread increments since the last CTA was over. -/
def threads (calls : List KernelCall) : Nat := (calls.reverse.takeWhile (· = .incrementThreadId)).length

/-- A kernel after these calls, for any order of them. -/
structure Progress (gridDim blockDim : Dim3) (calls : List KernelCall) (kernel : KernelInfo) : Prop where
  grid : kernel.gridDim = gridDim
  block : kernel.blockDim = blockDim
  cta : Dim3.Counted gridDim (ctas calls) kernel.nextCta
  tid : Dim3.Counted blockDim (threads calls) kernel.nextTid

variable {gridDim blockDim : Dim3} {calls : List KernelCall} {kernel : KernelInfo}

theorem Progress.perform (progress : Progress gridDim blockDim calls kernel) (grid : gridDim.Proper)
    (block : blockDim.Proper) (call : KernelCall) :
    Progress gridDim blockDim (calls ++ [call]) (kernel.perform call) := by
  obtain ⟨rfl, rfl, cta, tid⟩ := progress
  cases call with
  | incrementCtaId =>
      have counted : ctas (calls ++ [.incrementCtaId]) = ctas calls + 1 := by simp [ctas]
      have fresh : threads (calls ++ [.incrementCtaId]) = 0 := by simp [threads]
      exact ⟨rfl, rfl, counted ▸ cta.step grid, fresh ▸ Dim3.Counted.start _⟩
  | incrementThreadId =>
      have same : ctas (calls ++ [.incrementThreadId]) = ctas calls := by simp [ctas]
      have counted : threads (calls ++ [.incrementThreadId]) = threads calls + 1 := by simp [threads]
      exact ⟨rfl, rfl, same ▸ cta, counted ▸ tid.step block⟩

theorem performAll_progress (grid : gridDim.Proper) (block : blockDim.Proper) (calls : List KernelCall) :
    Progress gridDim blockDim calls (KernelInfo.performAll { gridDim, blockDim } calls) := by
  induction calls using List.reverseRecOn with
  | nil => exact ⟨rfl, rfl, Dim3.Counted.start _, Dim3.Counted.start _⟩
  | append_singleton calls call ih =>
      rw [KernelInfo.performAll, List.foldl_append]
      exact ih.perform grid block call

namespace Dim3

variable {bound i j : Dim3} {n : Nat}

theorem Proper.product (proper : bound.Proper) : (bound.x * bound.y * bound.z).toNat = bound.volume := by
  simp only [UInt32.toNat_mul, Nat.mod_mul_mod]
  exact Nat.mod_eq_of_lt proper.small

theorem Counted.linear (counted : Counted bound n i) (proper : bound.Proper) (below : n < bound.volume) :
    (i.x + bound.x * i.y + bound.x * bound.y * i.z).toNat = n := by
  have rank := counted.rank_eq proper below
  rw [linear_eq_rank (rank ▸ below.trans proper.small), rank]

/-- Counted and inside, a position is the one with that rank. -/
theorem Counted.eq_iff (counted : Counted bound n i) (proper : bound.Proper) (below : n < bound.volume)
    (inside : j.Below bound) : i = j ↔ n = j.rank bound := by
  have rank := counted.rank_eq proper below
  constructor
  · rintro rfl
    exact rank.symm
  · intro same
    exact rank_inj ((counted.below_iff proper).mpr below) inside (rank.trans same)

/-- Where every count is reached, each position inside has exactly one. -/
theorem visited_once {α : Type} {count : α → Nat} {position : α → Dim3} (proper : bound.Proper) (inside : j.Below bound)
    (counted : ∀ a, Counted bound (count a) (position a)) (reached : ∀ n, ∃ a, count a = n) :
    ∃! n, n < bound.volume ∧ ∀ a, count a < bound.volume → (position a = j ↔ count a = n) := by
  refine ⟨j.rank bound, ⟨rank_lt inside, fun a below => (counted a).eq_iff proper below inside⟩, ?_⟩
  rintro n ⟨below, visits⟩
  obtain ⟨a, rfl⟩ := reached n
  exact ((counted a).eq_iff proper below inside).mp ((visits a below).mpr rfl)

end Dim3

theorem Progress.noMoreCtasToRun_eq (progress : Progress gridDim blockDim calls kernel) (grid : gridDim.Proper) :
    kernel.noMoreCtasToRun = false ↔ ctas calls < kernel.numBlocks := by
  obtain ⟨rfl, rfl, cta, -⟩ := progress
  rw [KernelInfo.numBlocks, grid.product, ← cta.below_iff grid]
  simp [KernelInfo.noMoreCtasToRun, Dim3.Below, and_assoc]

theorem Progress.moreThreadsInCta_eq (progress : Progress gridDim blockDim calls kernel) (block : blockDim.Proper) :
    kernel.moreThreadsInCta = true ↔ threads calls < kernel.threadsPerCta := by
  obtain ⟨rfl, rfl, -, tid⟩ := progress
  rw [KernelInfo.threadsPerCta, block.product, ← tid.below_iff block]
  simp only [KernelInfo.moreThreadsInCta, Dim3.Below, Bool.and_eq_true, decide_eq_true_eq]
  tauto

/-- For any order of the two calls: the loop over the CTAs runs on exactly while fewer than all of them
are over, and the CTA it then visits is the one with that number; likewise for the threads of a CTA.
Every CTA and every thread of a CTA has exactly one such number. -/
theorem kernel_enumerates (grid : gridDim.Proper) (block : blockDim.Proper) :
    (∀ calls, let kernel := KernelInfo.performAll { gridDim, blockDim } calls
      kernel.numBlocks = gridDim.volume ∧ kernel.threadsPerCta = blockDim.volume ∧
      (kernel.noMoreCtasToRun = false ↔ ctas calls < kernel.numBlocks) ∧
      (ctas calls < kernel.numBlocks →
        kernel.nextCta.Below gridDim ∧ kernel.getNextCtaIdSingle.toNat = ctas calls) ∧
      (kernel.moreThreadsInCta = true ↔ threads calls < kernel.threadsPerCta) ∧
      (threads calls < kernel.threadsPerCta →
        kernel.nextTid.Below blockDim ∧ kernel.getNextThreadId.toNat = threads calls)) ∧
      (∀ id : Dim3, id.Below gridDim → ∃! n, n < gridDim.volume ∧
        ∀ calls, ctas calls < gridDim.volume →
          ((KernelInfo.performAll { gridDim, blockDim } calls).nextCta = id ↔ ctas calls = n)) ∧
      ∀ id : Dim3, id.Below blockDim → ∃! n, n < blockDim.volume ∧
        ∀ calls, threads calls < blockDim.volume →
          ((KernelInfo.performAll { gridDim, blockDim } calls).nextTid = id ↔ threads calls = n) := by
  refine ⟨fun calls => ?_, fun id inside => ?_, fun id inside => ?_⟩
  · have progress := performAll_progress grid block calls
    have blocks : (KernelInfo.performAll { gridDim, blockDim } calls).numBlocks = gridDim.volume := by
      rw [KernelInfo.numBlocks, progress.grid, grid.product]
    have size : (KernelInfo.performAll { gridDim, blockDim } calls).threadsPerCta = blockDim.volume := by
      rw [KernelInfo.threadsPerCta, progress.block, block.product]
    refine ⟨blocks, size, progress.noMoreCtasToRun_eq grid, fun below => ?_, progress.moreThreadsInCta_eq block,
      fun below => ?_⟩
    · rw [blocks] at below
      rw [KernelInfo.getNextCtaIdSingle, progress.grid]
      exact ⟨(progress.cta.below_iff grid).mpr below, progress.cta.linear grid below⟩
    · rw [size] at below
      rw [KernelInfo.getNextThreadId, progress.block]
      exact ⟨(progress.tid.below_iff block).mpr below, progress.tid.linear block below⟩
  · exact Dim3.visited_once grid inside (fun calls => (performAll_progress grid block calls).cta)
      fun n => ⟨.replicate n .incrementCtaId, by simp [ctas]⟩
  · exact Dim3.visited_once block inside (fun calls => (performAll_progress grid block calls).tid)
      fun n => ⟨.replicate n .incrementThreadId, by simp [threads]⟩

/-- Two CTAs of two threads each. -/
theorem kernel_enumerates_two : ({ x := 2, y := 1, z := 1 } : Dim3).Proper ∧
    ∃! n, n < 2 ∧ ∀ calls, ctas calls < 2 →
      ((KernelInfo.performAll { gridDim := ⟨2, 1, 1⟩, blockDim := ⟨1, 2, 1⟩ } calls).nextCta = ⟨1, 0, 0⟩ ↔
        ctas calls = n) :=
  have grid : ({ x := 2, y := 1, z := 1 } : Dim3).Proper := ⟨by decide, by decide, by decide, by decide⟩
  have block : ({ x := 1, y := 2, z := 1 } : Dim3).Proper := ⟨by decide, by decide, by decide, by decide⟩
  ⟨grid, (kernel_enumerates grid block).2.1 ⟨1, 0, 0⟩ (by unfold Dim3.Below; decide)⟩

end GpgpuSim.Kernel
