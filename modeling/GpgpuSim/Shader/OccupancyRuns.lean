import GpgpuSim.Shader.Occupancy

/-! Runs of CTAs coming to a core and completing. The windows of a CTA's size are searched from thread 0
on; the last one may end behind the last thread, and nothing else stands in the way of a CTA there. -/
namespace GpgpuSim.Shader
open Transition Holdings

/-- What the run gave a CTA: its kernel and its first thread. -/
structure Resident where
  kernel : KernelInfo
  start : Nat
  deriving DecidableEq

def Resident.threads (cfg : CoreConfig) (r : Resident) : Finset Nat :=
  Finset.Ico r.start (r.start + paddedCtaSize cfg r.kernel)

/-- A core with the CTAs that are resident on it, by hardware id. -/
structure OccupancyState where
  core : ShaderCore
  residents : Nat → Option Resident

inductive OccupancyEvent
  | issued (hwCta : Nat) (k : KernelInfo)
  | exited (hwCta : Nat)
  deriving DecidableEq

/-- A CTA is issued when `can_issue_1block` admits it, and the threads of a resident CTA exit. -/
inductive OccupancyStep (cfg : CoreConfig) (s : OccupancyState) : List OccupancyEvent → OccupancyState → Prop
  | issue {k : KernelInfo} {hwCta : Nat} {core : ShaderCore} :
      s.core.issueBlock2core cfg k = .ok (hwCta, core) → s.core.canIssue1block cfg k = .ok true →
      OccupancyStep cfg s [.issued hwCta k]
        ⟨core, Function.update s.residents hwCta ((core.occupiedCtaToHwtid hwCta).map fun start => ⟨k, start⟩)⟩
  | exit {hwCta : Nat} {r : Resident} {core : ShaderCore} :
      s.core.registerCtaThreadExit cfg hwCta r.kernel = .ok core → s.residents hwCta = some r →
      OccupancyStep cfg s [.exited hwCta]
        ⟨core, if core.ctaStatus hwCta = 0 then Function.update s.residents hwCta none else s.residents⟩

variable {cfg : CoreConfig}

/-- Some whole window of the size is free. -/
def WindowFits (cfg : CoreConfig) (occupied : Finset Nat) (size : Nat) : Prop :=
  ∃ j, (j + 1) * size ≤ cfg.nThreadPerShader ∧ Disjoint occupied (Finset.Ico (j * size) (j * size + size))

/-! ## The search -/

variable {occupied : Finset Nat} {hwTid remaining size step fuel j : Nat}

theorem scanWindow_true (scanned : scanWindow occupied hwTid remaining = .ok true) :
    Disjoint occupied (Finset.Ico hwTid (hwTid + remaining)) := by
  induction remaining generalizing hwTid with
  | zero => simp
  | succ remaining ih =>
      simp only [scanWindow] at scanned
      split at scanned
      · cases scanned
      · split at scanned
        · cases scanned
        · next free =>
          have rest := ih scanned
          rw [Finset.disjoint_right] at rest ⊢
          intro t inside
          obtain ⟨lower, upper⟩ := Finset.mem_Ico.mp inside
          by_cases first : t = hwTid
          · exact first ▸ free
          · exact rest (Finset.mem_Ico.mpr ⟨by omega, by omega⟩)

/-- A window below the limit of the set is scanned without an exception. -/
theorem scanWindow_ok (fits : hwTid + remaining ≤ 2048) :
    scanWindow occupied hwTid remaining =
      .ok (decide (Disjoint occupied (Finset.Ico hwTid (hwTid + remaining)))) := by
  induction remaining generalizing hwTid with
  | zero => simp [scanWindow]
  | succ remaining ih =>
      have inside : ¬ 2048 ≤ hwTid := by omega
      simp only [scanWindow, if_neg inside]
      split
      next taken =>
        refine congrArg Except.ok (decide_eq_false ?_).symm
        intro apart
        exact Finset.disjoint_left.mp apart taken (Finset.mem_Ico.mpr ⟨le_refl _, by omega⟩)
      next free =>
        rw [ih (by omega)]
        congr 2
        simp only [eq_iff_iff, Finset.disjoint_right, Finset.mem_Ico]
        constructor
        · intro apart t inside
          by_cases first : t = hwTid
          · exact first ▸ free
          · exact apart ⟨by omega, by omega⟩
        · exact fun apart t inside => apart ⟨by omega, by omega⟩

/-- What is found is a free window that starts on a multiple of the size. -/
theorem searchWindows_some (found : searchWindows cfg occupied size (j * size) fuel = .ok (some step)) :
    ∃ i, j ≤ i ∧ step = i * size ∧ step < cfg.nThreadPerShader ∧
      Disjoint occupied (Finset.Ico step (step + size)) := by
  induction fuel generalizing j with
  | zero => cases found
  | succ fuel ih =>
      simp only [searchWindows] at found
      split at found
      · next inside =>
        obtain ⟨free, scanned, found⟩ := bind_ok.mp found
        cases free with
        | true =>
            obtain rfl : j * size = step := by simpa [pure, Except.pure] using found
            exact ⟨j, le_refl j, rfl, inside, scanWindow_true scanned⟩
        | false =>
            rw [← Nat.succ_mul] at found
            obtain ⟨i, later, place⟩ := ih (by simpa using found)
            exact ⟨i, Nat.le_of_succ_le later, place⟩
      · cases found

/-- When a whole window is free, one that ends before or with it is found. -/
theorem searchWindows_fits {i : Nat} (later : j ≤ i) (enough : i < j + fuel)
    (fits : (i + 1) * size ≤ cfg.nThreadPerShader) (positive : 0 < size)
    (free : Disjoint occupied (Finset.Ico (i * size) (i * size + size))) :
    ∃ step, searchWindows cfg occupied size (j * size) fuel = .ok (some step) ∧ step + size ≤ cfg.nThreadPerShader := by
  induction fuel generalizing j with
  | zero => omega
  | succ fuel ih =>
      have bound : (j + 1) * size ≤ (i + 1) * size := Nat.mul_le_mul_right size (by omega)
      rw [Nat.succ_mul] at bound
      have inside : j * size < cfg.nThreadPerShader := by omega
      have small : j * size + size ≤ 2048 := by
        have := cfg.threads_fit
        omega
      simp only [searchWindows, if_pos inside, scanWindow_ok small]
      by_cases here : Disjoint occupied (Finset.Ico (j * size) (j * size + size))
      · refine ⟨j * size, ?_, by omega⟩
        simp [here, bind, Except.bind, pure, Except.pure]
      · have next : j ≠ i := by
          rintro rfl
          exact here free
        obtain ⟨step, found, ends⟩ := @ih (j + 1) (by omega) (by omega)
        refine ⟨step, ?_, ends⟩
        rw [Nat.succ_mul] at found
        simpa [here, bind, Except.bind] using found

/-! ## The calls -/

namespace ShaderCore

variable {core next : ShaderCore} {k : KernelInfo} {hwCta : Nat}

/-- What `occupy_shader_resource_1block` asks for. -/
structure Admits (cfg : CoreConfig) (core : ShaderCore) (k : KernelInfo) : Prop where
  threads : core.occupiedNThreads + paddedCtaSize cfg k ≤ cfg.nThreadPerShader
  window : ∃ start, searchWindows cfg core.occupiedHwtid (paddedCtaSize cfg k) 0 cfg.nThreadPerShader = .ok (some start)
  shmem : core.occupiedShmem + k.smem ≤ cfg.gpgpuShmemSize
  regs : core.occupiedRegs + usedRegs cfg k ≤ cfg.gpgpuShaderRegisters
  ctas : core.occupiedCtas + 1 ≤ cfg.maxCtaPerCore

theorem occupy_ok {occupy : Bool} (done : core.occupyShaderResource1block cfg k occupy = .ok (true, next)) :
    Admits cfg core k ∧ next = if occupy then { core with
        occupiedNThreads := core.occupiedNThreads + paddedCtaSize cfg k
        occupiedShmem := core.occupiedShmem + k.smem
        occupiedRegs := core.occupiedRegs + usedRegs cfg k
        occupiedCtas := core.occupiedCtas + 1 } else core := by
  simp only [occupyShaderResource1block] at done
  split at done
  · cases done
  · next threads =>
    obtain ⟨⟨found, unused⟩, search, done⟩ := bind_ok.mp done
    split at done
    · cases done
    · next some_window =>
      split at done
      · cases done
      · next shmem =>
        split at done
        · cases done
        · next regs =>
          split at done
          · cases done
          · next ctas =>
            have window : ∃ start,
                searchWindows cfg core.occupiedHwtid (paddedCtaSize cfg k) 0 cfg.nThreadPerShader =
                  .ok (some start) := by
              obtain ⟨result, scanned, rest⟩ := bind_ok.mp search
              cases result with
              | none =>
                  cases rest
                  exact absurd rfl some_window
              | some start => exact ⟨start, scanned⟩
            refine ⟨⟨by omega, window, by omega, by omega, by omega⟩, ?_⟩
            cases occupy with
            | true =>
                cases done
                rfl
            | false =>
                cases done
                rfl

theorem canIssue_ok (done : core.canIssue1block cfg k = .ok true) : Admits cfg core k ∧ paddedCtaSize cfg k ≠ 0 := by
  obtain ⟨count, counted, done⟩ := bind_ok.mp done
  have positive : paddedCtaSize cfg k ≠ 0 := by
    intro zero
    simp [maxCta, zero] at counted
  split at done
  · cases done
  · obtain ⟨⟨admitted, next⟩, occupied, done⟩ := bind_ok.mp done
    obtain rfl : admitted = true := pure_ok.mp done
    exact ⟨(occupy_ok occupied).1, positive⟩

/-- The core with one more CTA. -/
def withCta (cfg : CoreConfig) (core : ShaderCore) (k : KernelInfo) (hwCta start : Nat) : ShaderCore where
  occupiedNThreads := core.occupiedNThreads + paddedCtaSize cfg k
  occupiedShmem := core.occupiedShmem + k.smem
  occupiedRegs := core.occupiedRegs + usedRegs cfg k
  occupiedCtas := core.occupiedCtas + 1
  occupiedHwtid := core.occupiedHwtid ∪ Finset.Ico start (start + paddedCtaSize cfg k)
  occupiedCtaToHwtid := Function.update core.occupiedCtaToHwtid hwCta (some start)
  ctaStatus := Function.update core.ctaStatus hwCta k.threadsPerCta
  nActiveCta := core.nActiveCta + 1

theorem issue_ok (done : core.issueBlock2core cfg k = .ok (hwCta, next)) :
    Admits cfg core k ∧ hwCta < cfg.maxCtaPerCore ∧ core.ctaStatus hwCta = 0 ∧ 0 < k.threadsPerCta ∧ ∃ start,
      searchWindows cfg core.occupiedHwtid (paddedCtaSize cfg k) 0 cfg.nThreadPerShader = .ok (some start) ∧
      next = core.withCta cfg k hwCta start := by
  obtain ⟨⟨admitted, occupied⟩, counted, done⟩ := bind_ok.mp done
  cases admitted with
  | false => cases done
  | true =>
      obtain ⟨admits, rfl⟩ := occupy_ok counted
      simp only [not_true_eq_false, if_false, if_true] at done
      split at done
      · cases done
      · next free search =>
        obtain ⟨⟨found, marked⟩, window, done⟩ := bind_ok.mp done
        obtain ⟨result, scanned, rest⟩ := bind_ok.mp window
        cases result with
        | none =>
            cases rest
            cases done
        | some start =>
            cases rest
            simp only at done
            split at done
            · cases done
            · split at done
              · cases done
              · next sized =>
                cases done
                have unused := List.find?_some search
                have small := List.mem_of_find?_eq_some search
                exact ⟨admits, List.mem_range.mp small, by simpa using unused, (not_not.mp sized).1,
                  start, scanned, rfl⟩

/-- The core after a CTA has completed. -/
def withoutCta (cfg : CoreConfig) (core : ShaderCore) (k : KernelInfo) (hwCta : Nat) : ShaderCore where
  occupiedNThreads := core.occupiedNThreads - paddedCtaSize cfg k
  occupiedShmem := core.occupiedShmem - k.smem
  occupiedRegs := core.occupiedRegs - usedRegs cfg k
  occupiedCtas := core.occupiedCtas - 1
  occupiedHwtid := core.occupiedHwtid \ Finset.Ico ((core.occupiedCtaToHwtid hwCta).getD 0)
    ((core.occupiedCtaToHwtid hwCta).getD 0 + paddedCtaSize cfg k)
  occupiedCtaToHwtid := Function.update core.occupiedCtaToHwtid hwCta none
  ctaStatus := Function.update core.ctaStatus hwCta 0
  nActiveCta := core.nActiveCta - 1

theorem exit_ok (done : core.registerCtaThreadExit cfg hwCta k = .ok next) :
    (core.ctaStatus hwCta = 1 ∧ next = core.withoutCta cfg k hwCta) ∨
      (1 < core.ctaStatus hwCta ∧
        next = { core with ctaStatus := Function.update core.ctaStatus hwCta (core.ctaStatus hwCta - 1) }) := by
  simp only [registerCtaThreadExit, Function.update_self] at done
  split at done
  · cases done
  · next running =>
    split at done
    · next last =>
      simp only [releaseShaderResource1block] at done
      split at done
      · cases done
      · split at done
        · cases done
        · split at done
          · cases done
          · split at done
            · cases done
            · cases done
              rw [last]
              exact .inl ⟨by omega, rfl⟩
    · next more =>
      cases done
      exact .inr ⟨by omega, rfl⟩

/-- The assertions of a release hold when the counters cover the CTA. -/
theorem exit_returns (running : 0 < core.ctaStatus hwCta) (threads : paddedCtaSize cfg k ≤ core.occupiedNThreads)
    (shmem : k.smem ≤ core.occupiedShmem) (regs : usedRegs cfg k ≤ core.occupiedRegs) (ctas : 1 ≤ core.occupiedCtas) :
    ∃ next, core.registerCtaThreadExit cfg hwCta k = .ok next := by
  have started : ¬ ¬ core.ctaStatus hwCta > 0 := not_not.mpr running
  simp only [registerCtaThreadExit, if_neg started]
  split
  · simp only [releaseShaderResource1block, threads, shmem, regs, ctas, not_true_eq_false, if_false]
    exact ⟨_, rfl⟩
  · exact ⟨_, rfl⟩

end ShaderCore

/-! ## Occupancy over runs -/

/-- The core's bookkeeping and the resident CTAs agree. -/
structure Occupied (cfg : CoreConfig) (s : OccupancyState) : Prop where
  small : ∀ c r, s.residents c = some r → c < cfg.maxCtaPerCore
  status : ∀ c, s.core.ctaStatus c = 0 ↔ s.residents c = none
  starts : ∀ c, s.core.occupiedCtaToHwtid c = (s.residents c).map Resident.start
  inside : ∀ c r, s.residents c = some r → r.start + paddedCtaSize cfg r.kernel ≤ cfg.nThreadPerShader
  apart : ∀ c d r q, s.residents c = some r → s.residents d = some q → c ≠ d → Disjoint (r.threads cfg) (q.threads cfg)
  held : ∀ t, t ∈ s.core.occupiedHwtid ↔ ∃ c r, s.residents c = some r ∧ t ∈ r.threads cfg
  threads : s.core.occupiedNThreads =
    total (Finset.range cfg.maxCtaPerCore) s.residents fun r => paddedCtaSize cfg r.kernel
  shmem : s.core.occupiedShmem = total (Finset.range cfg.maxCtaPerCore) s.residents fun r => r.kernel.smem
  regs : s.core.occupiedRegs = total (Finset.range cfg.maxCtaPerCore) s.residents fun r => usedRegs cfg r.kernel
  ctas : s.core.occupiedCtas = total (Finset.range cfg.maxCtaPerCore) s.residents fun _ => 1
  limits : s.core.occupiedNThreads ≤ cfg.nThreadPerShader ∧ s.core.occupiedShmem ≤ cfg.gpgpuShmemSize ∧
    s.core.occupiedRegs ≤ cfg.gpgpuShaderRegisters ∧ s.core.occupiedCtas ≤ cfg.maxCtaPerCore

namespace Occupied

variable {s : OccupancyState} {k : KernelInfo} {hwCta start : Nat}

theorem empty : Occupied cfg ⟨{}, fun _ => none⟩ where
  small := by simp
  status := by simp
  starts := by simp
  inside := by simp
  apart := by simp
  held := by simp
  threads := by simp [total]
  shmem := by simp [total]
  regs := by simp [total]
  ctas := by simp [total]
  limits := by simp

/-- A CTA comes to a free id and a free window inside the core. -/
theorem take (occupied : Occupied cfg s) (admits : s.core.Admits cfg k) (small : hwCta < cfg.maxCtaPerCore)
    (free : s.residents hwCta = none) (threads : 0 < k.threadsPerCta)
    (window : Disjoint s.core.occupiedHwtid (Finset.Ico start (start + paddedCtaSize cfg k)))
    (fits : start + paddedCtaSize cfg k ≤ cfg.nThreadPerShader) :
    Occupied cfg ⟨s.core.withCta cfg k hwCta start, Function.update s.residents hwCta (some ⟨k, start⟩)⟩ := by
  have slot := Finset.mem_range.mpr small
  have clear : ∀ c r, s.residents c = some r →
    Disjoint (r.threads cfg) (Finset.Ico start (start + paddedCtaSize cfg k)) := by
    intro c r resident
    refine window.mono_left fun t inside => ?_
    exact (occupied.held t).mpr ⟨c, r, resident, inside⟩
  have old : ∀ c r, Function.update s.residents hwCta (some ⟨k, start⟩) c = some r →
      (c = hwCta ∧ r = ⟨k, start⟩) ∨ (c ≠ hwCta ∧ s.residents c = some r) := by
    intro c r resident
    by_cases here : c = hwCta
    · subst here
      rw [Function.update_self] at resident
      exact .inl ⟨rfl, (Option.some.inj resident).symm⟩
    · rw [Function.update_of_ne here] at resident
      exact .inr ⟨here, resident⟩
  constructor
  case small =>
    intro c r resident
    rcases old c r resident with ⟨rfl, -⟩ | ⟨-, before⟩
    · exact small
    · exact occupied.small c r before
  case status =>
    intro c
    by_cases here : c = hwCta
    · subst here
      simpa [ShaderCore.withCta] using threads.ne'
    · simpa [ShaderCore.withCta, here] using occupied.status c
  case starts =>
    intro c
    by_cases here : c = hwCta
    · subst here
      simp [ShaderCore.withCta]
    · simpa [ShaderCore.withCta, here] using occupied.starts c
  case inside =>
    intro c r resident
    rcases old c r resident with ⟨-, rfl⟩ | ⟨-, before⟩
    · exact fits
    · exact occupied.inside c r before
  case apart =>
    intro c d r q left right different
    rcases old c r left with ⟨rfl, rfl⟩ | ⟨-, before⟩
    · rcases old d q right with ⟨rfl, -⟩ | ⟨-, before'⟩
      · exact absurd rfl different
      · exact (clear d q before').symm
    · rcases old d q right with ⟨-, rfl⟩ | ⟨-, before'⟩
      · exact clear c r before
      · exact occupied.apart c d r q before before' different
  case held =>
    intro t
    simp only [ShaderCore.withCta, Finset.mem_union, occupied.held]
    constructor
    · rintro (⟨c, r, resident, inside⟩ | inside)
      · refine ⟨c, r, ?_, inside⟩
        rw [Function.update_of_ne, resident]
        rintro rfl
        rw [free] at resident
        cases resident
      · exact ⟨hwCta, ⟨k, start⟩, Function.update_self .., inside⟩
    · rintro ⟨c, r, resident, inside⟩
      rcases old c r resident with ⟨-, rfl⟩ | ⟨-, before⟩
      · exact .inr inside
      · exact .inl ⟨c, r, before, inside⟩
  case threads => simp only [ShaderCore.withCta, total_take slot free, occupied.threads]
  case shmem => simp only [ShaderCore.withCta, total_take slot free, occupied.shmem]
  case regs => simp only [ShaderCore.withCta, total_take slot free, occupied.regs]
  case ctas => simp only [ShaderCore.withCta, total_take slot free, occupied.ctas]
  case limits => exact ⟨admits.threads, admits.shmem, admits.regs, admits.ctas⟩

/-- The CTA gives its own threads back, and no others. -/
theorem released (occupied : Occupied cfg s) {r : Resident} (resident : s.residents hwCta = some r) :
    (s.core.withoutCta cfg r.kernel hwCta).occupiedHwtid = s.core.occupiedHwtid \ r.threads cfg := by
  simp only [ShaderCore.withoutCta, occupied.starts, resident, Option.map_some, Option.getD_some, Resident.threads]

theorem give (occupied : Occupied cfg s) {r : Resident} (resident : s.residents hwCta = some r) :
    Occupied cfg ⟨s.core.withoutCta cfg r.kernel hwCta, Function.update s.residents hwCta none⟩ := by
  have slot := Finset.mem_range.mpr (occupied.small hwCta r resident)
  have old : ∀ c q, Function.update s.residents hwCta none c = some q → c ≠ hwCta ∧ s.residents c = some q := by
    intro c q kept
    by_cases here : c = hwCta
    · subst here
      rw [Function.update_self] at kept
      cases kept
    · rw [Function.update_of_ne here] at kept
      exact ⟨here, kept⟩
  constructor
  case small => exact fun c q kept => occupied.small c q (old c q kept).2
  case status =>
    intro c
    by_cases here : c = hwCta
    · subst here
      simp [ShaderCore.withoutCta]
    · simpa [ShaderCore.withoutCta, here] using occupied.status c
  case starts =>
    intro c
    by_cases here : c = hwCta
    · subst here
      simp [ShaderCore.withoutCta]
    · simpa [ShaderCore.withoutCta, here] using occupied.starts c
  case inside => exact fun c q kept => occupied.inside c q (old c q kept).2
  case apart =>
    exact fun c d q p left right different => occupied.apart c d q p (old c q left).2 (old d p right).2 different
  case held =>
    intro t
    rw [occupied.released resident, Finset.mem_sdiff, occupied.held]
    constructor
    · rintro ⟨⟨c, q, there, inside⟩, outside⟩
      refine ⟨c, q, (Function.update_of_ne ?_ ..).trans there, inside⟩
      rintro rfl
      rw [resident] at there
      cases there
      exact outside inside
    · rintro ⟨c, q, kept, inside⟩
      obtain ⟨different, there⟩ := old c q kept
      exact ⟨⟨c, q, there, inside⟩,
        Finset.disjoint_left.mp (occupied.apart c hwCta q r there resident different) inside⟩
  case threads =>
    have sums := @total_give _ _ _ _ _ (fun r => paddedCtaSize cfg r.kernel) _ _ slot resident
    simp only [ShaderCore.withoutCta, occupied.threads]
    omega
  case shmem =>
    have sums := @total_give _ _ _ _ _ (fun r => r.kernel.smem) _ _ slot resident
    simp only [ShaderCore.withoutCta, occupied.shmem]
    omega
  case regs =>
    have sums := @total_give _ _ _ _ _ (fun r => usedRegs cfg r.kernel) _ _ slot resident
    simp only [ShaderCore.withoutCta, occupied.regs]
    omega
  case ctas =>
    have sums := @total_give _ _ _ _ _ (fun _ : Resident => 1) _ _ slot resident
    simp only [ShaderCore.withoutCta, occupied.ctas]
    omega
  case limits =>
    obtain ⟨threads, shmem, regs, ctas⟩ := occupied.limits
    simp only [ShaderCore.withoutCta]
    omega

/-- A resident CTA can complete. -/
theorem exits (occupied : Occupied cfg s) {r : Resident} (resident : s.residents hwCta = some r) :
    ∃ core, s.core.registerCtaThreadExit cfg hwCta r.kernel = .ok core := by
  have slot := Finset.mem_range.mpr (occupied.small hwCta r resident)
  refine ShaderCore.exit_returns ?_ ?_ ?_ ?_ ?_
  · refine Nat.pos_of_ne_zero fun zero => ?_
    rw [(occupied.status hwCta).mp zero] at resident
    cases resident
  · exact occupied.threads ▸ @le_total _ _ _ _ _ (fun r => paddedCtaSize cfg r.kernel) _ _ slot resident
  · exact occupied.shmem ▸ @le_total _ _ _ _ _ (fun r => r.kernel.smem) _ _ slot resident
  · exact occupied.regs ▸ @le_total _ _ _ _ _ (fun r => usedRegs cfg r.kernel) _ _ slot resident
  · exact occupied.ctas ▸ @le_total _ _ _ _ _ (fun _ : Resident => 1) _ _ slot resident

variable {t : OccupancyState} {core : ShaderCore} {trace events : List OccupancyEvent}

/-- The window that is found ends inside the core exactly when some whole window is free. -/
theorem found_inside_iff {occupied : Finset Nat} {size : Nat} (positive : 0 < size)
    (found : searchWindows cfg occupied size 0 cfg.nThreadPerShader = .ok (some start)) :
    start + size ≤ cfg.nThreadPerShader ↔ WindowFits cfg occupied size := by
  have first : searchWindows cfg occupied size (0 * size) cfg.nThreadPerShader = .ok (some start) := by
    rwa [Nat.zero_mul]
  constructor
  · intro fits
    obtain ⟨j, -, rfl, -, free⟩ := searchWindows_some first
    exact ⟨j, by rwa [Nat.succ_mul], free⟩
  · rintro ⟨i, fits, free⟩
    have bound : i * 1 ≤ i * size := Nat.mul_le_mul_left i positive
    rw [Nat.succ_mul] at fits
    obtain ⟨step, search, ends⟩ := searchWindows_fits (Nat.zero_le i)
      (show i < 0 + cfg.nThreadPerShader by omega) (by rwa [Nat.succ_mul]) positive free
    obtain rfl : step = start := by
      have same := search.symm.trans first
      simpa using same
    exact ends

theorem issue (occupied : Occupied cfg s) (issued : s.core.issueBlock2core cfg k = .ok (hwCta, core))
    (admitted : s.core.canIssue1block cfg k = .ok true)
    (fits : WindowFits cfg s.core.occupiedHwtid (paddedCtaSize cfg k)) :
    Occupied cfg ⟨core,
      Function.update s.residents hwCta ((core.occupiedCtaToHwtid hwCta).map fun start => ⟨k, start⟩)⟩ := by
  obtain ⟨admits, small, unused, threads, start, found, rfl⟩ := ShaderCore.issue_ok issued
  have positive : 0 < paddedCtaSize cfg k := Nat.pos_of_ne_zero (ShaderCore.canIssue_ok admitted).2
  have window : searchWindows cfg s.core.occupiedHwtid (paddedCtaSize cfg k) (0 * paddedCtaSize cfg k)
      cfg.nThreadPerShader = .ok (some start) := by
    rwa [Nat.zero_mul]
  obtain ⟨-, -, -, -, free⟩ := searchWindows_some window
  have taken := occupied.take admits small ((occupied.status hwCta).mp unused) threads free
    ((found_inside_iff positive found).mpr fits)
  simpa only [ShaderCore.withCta, Function.update_self, Option.map_some] using taken

theorem threadExit (occupied : Occupied cfg s) {r : Resident} (resident : s.residents hwCta = some r)
    (exited : s.core.registerCtaThreadExit cfg hwCta r.kernel = .ok core) :
    Occupied cfg ⟨core, if core.ctaStatus hwCta = 0 then Function.update s.residents hwCta none else s.residents⟩ := by
  rcases ShaderCore.exit_ok exited with ⟨-, rfl⟩ | ⟨more, rfl⟩
  · have last : (s.core.withoutCta cfg r.kernel hwCta).ctaStatus hwCta = 0 := by simp [ShaderCore.withoutCta]
    rw [if_pos last]
    exact occupied.give resident
  · have left : s.core.ctaStatus hwCta - 1 ≠ 0 := by omega
    simp only [Function.update_self, if_neg left]
    refine { occupied with status := ?_ }
    intro c
    by_cases here : c = hwCta
    · subst here
      simp [left, resident]
    · simpa [here] using occupied.status c

/-- A CTA comes where a whole window is free; the other steps are those of the core. -/
def FittingStep (cfg : CoreConfig) (s : OccupancyState) (events : List OccupancyEvent) (t : OccupancyState) : Prop :=
  OccupancyStep cfg s events t ∧
    ∀ hwCta k, .issued hwCta k ∈ events → WindowFits cfg s.core.occupiedHwtid (paddedCtaSize cfg k)

theorem fittingStep (occupied : Occupied cfg s) (stepped : FittingStep cfg s events t) : Occupied cfg t := by
  obtain ⟨stepped, fits⟩ := stepped
  cases stepped with
  | issue issued admitted => exact occupied.issue issued admitted (fits _ _ (List.mem_singleton.mpr rfl))
  | exit exited resident => exact occupied.threadExit resident exited

theorem of_run (run : Reaches (FittingStep cfg) ⟨{}, fun _ => none⟩ trace s) : Occupied cfg s :=
  @Reaches.invariant _ _ _ _ (fun _ s => Occupied cfg s) .empty
    (fun _ occupied stepped => occupied.fittingStep stepped) _ _ run

/-- As long as every CTA that is issued finds a whole window of its size free, the resident CTAs hold
disjoint ranges inside the core, the counters are their sums and keep to the limits, and a CTA that
completes gives back the range it was given. The next CTA to be issued gets a range inside the core
exactly when a whole window is free. -/
theorem occupancy_tracks_residents (run : Reaches (FittingStep cfg) ⟨{}, fun _ => none⟩ trace s) :
    (∀ c d r q, s.residents c = some r → s.residents d = some q → c ≠ d →
      Disjoint (r.threads cfg) (q.threads cfg)) ∧
    (∀ c r, s.residents c = some r → r.threads cfg ⊆ Finset.range cfg.nThreadPerShader) ∧
    (s.core.occupiedNThreads =
        total (Finset.range cfg.maxCtaPerCore) s.residents (fun r => paddedCtaSize cfg r.kernel) ∧
      s.core.occupiedShmem = total (Finset.range cfg.maxCtaPerCore) s.residents (fun r => r.kernel.smem) ∧
      s.core.occupiedRegs = total (Finset.range cfg.maxCtaPerCore) s.residents (fun r => usedRegs cfg r.kernel) ∧
      s.core.occupiedCtas = total (Finset.range cfg.maxCtaPerCore) s.residents (fun _ => 1) ∧
      ∀ c r, s.residents c = some r → c < cfg.maxCtaPerCore) ∧
    (s.core.occupiedNThreads ≤ cfg.nThreadPerShader ∧ s.core.occupiedShmem ≤ cfg.gpgpuShmemSize ∧
      s.core.occupiedRegs ≤ cfg.gpgpuShaderRegisters ∧ s.core.occupiedCtas ≤ cfg.maxCtaPerCore) ∧
    (∀ c r, s.residents c = some r → ∃ core, s.core.registerCtaThreadExit cfg c r.kernel = .ok core ∧
      core.occupiedHwtid =
        if core.ctaStatus c = 0 then s.core.occupiedHwtid \ r.threads cfg else s.core.occupiedHwtid) ∧
    ∀ k hwCta core, s.core.canIssue1block cfg k = .ok true → s.core.issueBlock2core cfg k = .ok (hwCta, core) →
      ((∀ start, core.occupiedCtaToHwtid hwCta = some start → start + paddedCtaSize cfg k ≤ cfg.nThreadPerShader) ↔
        WindowFits cfg s.core.occupiedHwtid (paddedCtaSize cfg k)) := by
  have occupied := of_run run
  refine ⟨occupied.apart, ?_, ⟨occupied.threads, occupied.shmem, occupied.regs, occupied.ctas, occupied.small⟩,
    occupied.limits, ?_, ?_⟩
  · intro c r resident t inside
    have upper := (Finset.mem_Ico.mp inside).2
    exact Finset.mem_range.mpr (by have := occupied.inside c r resident; omega)
  · intro c r resident
    obtain ⟨core, exited⟩ := occupied.exits resident
    refine ⟨core, exited, ?_⟩
    rcases ShaderCore.exit_ok exited with ⟨-, rfl⟩ | ⟨more, rfl⟩
    · have last : (s.core.withoutCta cfg r.kernel c).ctaStatus c = 0 := by simp [ShaderCore.withoutCta]
      rw [if_pos last, occupied.released resident]
    · have left : s.core.ctaStatus c - 1 ≠ 0 := by omega
      simp only [Function.update_self, if_neg left]
  · intro k hwCta core admitted issued
    obtain ⟨-, -, -, -, start, found, rfl⟩ := ShaderCore.issue_ok issued
    have positive : 0 < paddedCtaSize cfg k := Nat.pos_of_ne_zero (ShaderCore.canIssue_ok admitted).2
    rw [← found_inside_iff positive found]
    simp only [ShaderCore.withCta, Function.update_self, Option.some.injEq]
    exact ⟨fun all => all start rfl, fun ends place same => same ▸ ends⟩

/-- A core with three warps. -/
def threeWarps : CoreConfig where
  nThreadPerShader := 96
  warpSize := 32
  maxCtaPerCore := 8
  gpgpuShmemSize := 49152
  gpgpuShaderRegisters := 65536
  gpgpuIgnoreResourcesLimitation := false
  numShader := 1
  threads_fit := by decide
  whole_warps := by decide

/-- A kernel with many CTAs of the size. -/
def kernelOf (threadsPerCta : Nat) : KernelInfo := ⟨threadsPerCta, 0, 16, 1000⟩

/-- A CTA of two warps, then one of a warp. -/
theorem occupancy_tracks_residents_sample :
    ∃ trace s, Reaches (FittingStep threeWarps) ⟨{}, fun _ => none⟩ trace s ∧ s.residents 0 = some ⟨kernelOf 64, 0⟩ ∧
      s.residents 1 = some ⟨kernelOf 20, 64⟩ ∧ s.core.occupiedNThreads = 96 ∧
      ∀ c r, s.residents c = some r → r.threads threeWarps ⊆ Finset.range threeWarps.nThreadPerShader := by
  have run : ∃ trace s, Reaches (FittingStep threeWarps) ⟨{}, fun _ => none⟩ trace s ∧
      s.residents 0 = some ⟨kernelOf 64, 0⟩ ∧ s.residents 1 = some ⟨kernelOf 20, 64⟩ ∧
      s.core.occupiedNThreads = 96 := by
    refine ⟨_, _, (Reaches.refl.next ⟨@OccupancyStep.issue threeWarps _ (kernelOf 64) 0 _ rfl rfl, ?_⟩).next
      ⟨@OccupancyStep.issue threeWarps _ (kernelOf 20) 1 _ rfl rfl, ?_⟩, rfl, rfl, rfl⟩
    · intro hwCta k member
      obtain ⟨-, rfl⟩ := OccupancyEvent.issued.inj (List.mem_singleton.mp member)
      exact ⟨2, by decide, by decide⟩
    · intro hwCta k member
      obtain ⟨-, rfl⟩ := OccupancyEvent.issued.inj (List.mem_singleton.mp member)
      exact ⟨0, by decide, by decide⟩
  obtain ⟨trace, s, run, first, second, threads⟩ := run
  exact ⟨trace, s, run, first, second, threads, (occupancy_tracks_residents run).2.1⟩

/-- After a CTA of one warp, a CTA of two warps is admitted, since two warps are left; the only window
of its size that is free ends behind the last thread of the core. -/
theorem admitted_window_sticks_out :
    ∃ trace s r, Reaches (OccupancyStep threeWarps) ⟨{}, fun _ => none⟩ trace s ∧ s.residents 1 = some r ∧
      s.core.occupiedNThreads = 96 ∧ ¬ r.threads threeWarps ⊆ Finset.range threeWarps.nThreadPerShader := by
  refine ⟨_, _, ⟨kernelOf 64, 64⟩,
    (Reaches.refl.next (@OccupancyStep.issue threeWarps _ (kernelOf 32) 0 _ rfl rfl)).next
    (@OccupancyStep.issue threeWarps _ (kernelOf 64) 1 _ rfl rfl), rfl, rfl, ?_⟩
  intro inside
  exact absurd (Finset.mem_range.mp (inside (show 96 ∈ _ by decide))) (by decide)

end Occupied

end GpgpuSim.Shader
