import GpgpuSim.Containers.Holdings
import GpgpuSim.Transition.Runs
import GpgpuSim.Transition.Fallible

/-! CTAs of concurrent kernels on one shader core: the resources they occupy and the hardware
threads they run on. -/
namespace GpgpuSim.Shader

/-- What occupancy reads of `shader_core_config`, with `gpgpu_concurrent_kernel_sm` set. The
initialization rejects threads that do not fit the core's sets or are not whole warps. -/
structure CoreConfig where
  nThreadPerShader : Nat
  warpSize : Nat
  maxCtaPerCore : Nat
  gpgpuShmemSize : Nat
  gpgpuShaderRegisters : Nat
  gpgpuIgnoreResourcesLimitation : Bool
  numShader : Nat
  threads_fit : nThreadPerShader ≤ 2048
  whole_warps : nThreadPerShader % warpSize = 0

/-- What occupancy reads of a kernel and its `gpgpu_ptx_sim_info`. -/
structure KernelInfo where
  threadsPerCta : Nat
  smem : Nat
  regs : Nat
  numBlocks : Nat
  deriving DecidableEq, Repr

inductive OccupancyFault
  | assertion
  | abort
  | divisionByZero
  | outOfRange
  deriving DecidableEq, Repr

variable (cfg : CoreConfig)

/-- The threads of a CTA in whole warps. -/
def paddedCtaSize (k : KernelInfo) : Nat :=
  if k.threadsPerCta % cfg.warpSize ≠ 0 then (k.threadsPerCta / cfg.warpSize + 1) * cfg.warpSize
  else k.threadsPerCta

/-- Registers of a thread are counted in fours: `(regs + 3) & ~3`. -/
def usedRegs (k : KernelInfo) : Nat := paddedCtaSize cfg k * ((k.regs + 3) / 4 * 4)

/-- `shader_core_config::max_cta`, without its adaptive choice of an L1 configuration. The limit on
its result is `MAX_CTA_PER_SHADER`. -/
def maxCta (k : KernelInfo) : Except OccupancyFault Nat :=
  if paddedCtaSize cfg k = 0 then .error .divisionByZero
  else
    let byThreads := cfg.nThreadPerShader / paddedCtaSize cfg k
    let byShmem := if 0 < k.smem then cfg.gpgpuShmemSize / k.smem else 2 ^ 32 - 1
    let byRegs := if 0 < k.regs then cfg.gpgpuShaderRegisters / usedRegs cfg k else 2 ^ 32 - 1
    let result := min (min (min byThreads byShmem) byRegs) cfg.maxCtaPerCore
    let result :=
      if k.numBlocks < result * cfg.numShader then
        k.numBlocks / cfg.numShader + if k.numBlocks % cfg.numShader ≠ 0 then 1 else 0
      else result
    if result > 32 then .error .assertion
    else if result < 1 then if cfg.gpgpuIgnoreResourcesLimitation then .ok 1 else .error .abort
    else .ok result

structure ShaderCore where
  occupiedNThreads : Nat := 0
  occupiedShmem : Nat := 0
  occupiedRegs : Nat := 0
  occupiedCtas : Nat := 0
  occupiedHwtid : Finset Nat := ∅
  occupiedCtaToHwtid : Nat → Option Nat := fun _ => none
  ctaStatus : Nat → Nat := fun _ => 0
  nActiveCta : Nat := 0

/-- The inner loop of `find_available_hwtid`: no thread of the window is occupied. Testing a bit
beyond `MAX_THREAD_PER_SM` throws. -/
def scanWindow (occupied : Finset Nat) (hwTid : Nat) : Nat → Except OccupancyFault Bool
  | 0 => .ok true
  | remaining + 1 =>
      if 2048 ≤ hwTid then .error .outOfRange
      else if hwTid ∈ occupied then .ok false
      else scanWindow occupied (hwTid + 1) remaining

/-- The outer loop, from `step` on. -/
def searchWindows (occupied : Finset Nat) (ctaSize step : Nat) : Nat → Except OccupancyFault (Option Nat)
  | 0 => .ok none
  | fuel + 1 =>
      if step < cfg.nThreadPerShader then do
        if ← scanWindow occupied step ctaSize then pure (some step)
        else searchWindows occupied ctaSize (step + ctaSize) fuel
      else .ok none

namespace ShaderCore

/-- `none` is the result -1. A window that is found has at most `n_thread_per_shader` windows before it. -/
def findAvailableHwtid (core : ShaderCore) (ctaSize : Nat) (occupy : Bool) :
    Except OccupancyFault (Option Nat × ShaderCore) := do
  match ← searchWindows cfg core.occupiedHwtid ctaSize 0 cfg.nThreadPerShader with
  | none => pure (none, core)
  | some step =>
      if occupy then
        pure (some step, { core with occupiedHwtid := core.occupiedHwtid ∪ Finset.Ico step (step + ctaSize) })
      else pure (some step, core)

def occupyShaderResource1block (core : ShaderCore) (k : KernelInfo) (occupy : Bool) :
    Except OccupancyFault (Bool × ShaderCore) :=
  if core.occupiedNThreads + paddedCtaSize cfg k > cfg.nThreadPerShader then pure (false, core)
  else do
    let (found, _) ← core.findAvailableHwtid cfg (paddedCtaSize cfg k) false
    if found = none then pure (false, core)
    else if core.occupiedShmem + k.smem > cfg.gpgpuShmemSize then pure (false, core)
    else if core.occupiedRegs + usedRegs cfg k > cfg.gpgpuShaderRegisters then pure (false, core)
    else if core.occupiedCtas + 1 > cfg.maxCtaPerCore then pure (false, core)
    else if occupy then
      pure (true, { core with
        occupiedNThreads := core.occupiedNThreads + paddedCtaSize cfg k
        occupiedShmem := core.occupiedShmem + k.smem
        occupiedRegs := core.occupiedRegs + usedRegs cfg k
        occupiedCtas := core.occupiedCtas + 1 })
    else pure (true, core)

def canIssue1block (core : ShaderCore) (k : KernelInfo) : Except OccupancyFault Bool := do
  if (← maxCta cfg k) < 1 then pure false
  else
    let (admitted, _) ← core.occupyShaderResource1block cfg k false
    pure admitted

/-- `issue_block2core`: the id the CTA gets and the core with it. Each of its threads is initialized. -/
def issueBlock2core (core : ShaderCore) (k : KernelInfo) : Except OccupancyFault (Nat × ShaderCore) := do
  let (admitted, core) ← core.occupyShaderResource1block cfg k true
  if ¬ admitted then throw .assertion
  match (List.range cfg.maxCtaPerCore).find? fun i => core.ctaStatus i == 0 with
  | none => throw .assertion
  | some freeCtaHwId =>
      let (found, core) ← core.findAvailableHwtid cfg (paddedCtaSize cfg k) true
      match found with
      | none => throw .assertion
      | some startThread =>
          if (core.occupiedCtaToHwtid freeCtaHwId).isSome then throw .assertion
          let nthreadsInBlock := k.threadsPerCta
          if ¬ (0 < nthreadsInBlock ∧ nthreadsInBlock ≤ cfg.nThreadPerShader) then throw .assertion
          pure (freeCtaHwId, { core with
            occupiedCtaToHwtid := Function.update core.occupiedCtaToHwtid freeCtaHwId (some startThread)
            ctaStatus := Function.update core.ctaStatus freeCtaHwId nthreadsInBlock
            nActiveCta := core.nActiveCta + 1 })

/-- An id that is not in the map reads as thread 0. -/
def releaseShaderResource1block (core : ShaderCore) (hwCtaid : Nat) (k : KernelInfo) :
    Except OccupancyFault ShaderCore :=
  if ¬ core.occupiedNThreads ≥ paddedCtaSize cfg k then .error .assertion
  else if ¬ core.occupiedShmem ≥ k.smem then .error .assertion
  else if ¬ core.occupiedRegs ≥ usedRegs cfg k then .error .assertion
  else if ¬ core.occupiedCtas ≥ 1 then .error .assertion
  else
    let startThread := (core.occupiedCtaToHwtid hwCtaid).getD 0
    .ok { core with
      occupiedNThreads := core.occupiedNThreads - paddedCtaSize cfg k
      occupiedHwtid := core.occupiedHwtid \ Finset.Ico startThread (startThread + paddedCtaSize cfg k)
      occupiedCtaToHwtid := Function.update core.occupiedCtaToHwtid hwCtaid none
      occupiedShmem := core.occupiedShmem - k.smem
      occupiedRegs := core.occupiedRegs - usedRegs cfg k
      occupiedCtas := core.occupiedCtas - 1 }

/-- The last thread of a CTA that exits releases its resources. -/
def registerCtaThreadExit (core : ShaderCore) (ctaNum : Nat) (k : KernelInfo) : Except OccupancyFault ShaderCore :=
  if ¬ core.ctaStatus ctaNum > 0 then .error .assertion
  else
    let core := { core with ctaStatus := Function.update core.ctaStatus ctaNum (core.ctaStatus ctaNum - 1) }
    if core.ctaStatus ctaNum = 0 then
      { core with nActiveCta := core.nActiveCta - 1 }.releaseShaderResource1block cfg ctaNum k
    else .ok core

end ShaderCore

end GpgpuSim.Shader
