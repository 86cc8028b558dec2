import GpgpuSim.Words.MixedRadix
import Mathlib.Tactic.Ring

/-! The local memory of every thread of the GPU laid out in one region: words at the same local address
lie together, ordered by the thread and the core that own them. -/
namespace GpgpuSim.Address
open Words

def globalHeapStart : UInt64 := 0xC0000000
def sharedMemSizeMax : UInt64 := (96 : UInt64) * ((1 : UInt64) <<< 10)
def localMemSizeMax : UInt64 := (1 : UInt64) <<< 14
def maxStreamingMultiprocessors : UInt64 := 80
def maxThreadPerSm : UInt64 := (1 : UInt64) <<< 11
def totalSharedMem : UInt64 := maxStreamingMultiprocessors * sharedMemSizeMax
def totalLocalMem : UInt64 := maxStreamingMultiprocessors * maxThreadPerSm * localMemSizeMax
def sharedGenericStart : UInt64 := globalHeapStart - totalSharedMem
def localGenericStart : UInt64 := sharedGenericStart - totalLocalMem

def maxAccessesPerInsnPerThread : UInt32 := 8

/-- What the mapping reads of `shader_core_config`. -/
structure LocalMemConfig where
  gpgpuLocalMemMap : Bool
  nThreadPerShader : UInt32
  warpSize : UInt32
  deriving DecidableEq, Repr

/-- What the mapping reads of `shader_core_ctx`. -/
structure LocalMemCore where
  config : LocalMemConfig
  sid : UInt32
  kernelMaxCtaPerShader : UInt32 := 0
  kernelPaddedThreadsPerCta : UInt32 := 0
  deriving DecidableEq, Repr

/-- The assertions, in the order of the source. -/
inductive LocalMemFault
  | threadBase
  | dataSize
  | numAccesses
  | alignment
  | empty
  | nextChunk
  deriving DecidableEq, Repr

namespace LocalMemCore

/-- `maxCta` and `gpuCtaSize` are `max_cta` and `threads_per_cta` of the kernel. -/
def setMaxCta (core : LocalMemCore) (maxCta gpuCtaSize : UInt32) : LocalMemCore :=
  { core with
    kernelMaxCtaPerShader := maxCta
    kernelPaddedThreadsPerCta :=
      if gpuCtaSize % core.config.warpSize ≠ 0 then core.config.warpSize * (gpuCtaSize / core.config.warpSize + 1)
      else gpuCtaSize }

def threadBase (core : LocalMemCore) (tid numShader : UInt32) : UInt32 :=
  if core.config.gpgpuLocalMemMap then
    4 * (core.kernelPaddedThreadsPerCta * (core.sid + numShader * (tid / core.kernelPaddedThreadsPerCta)) +
      tid % core.kernelPaddedThreadsPerCta)
  else 4 * (core.config.nThreadPerShader * core.sid + tid)

def maxConcurrentThreads (core : LocalMemCore) (numShader : UInt32) : UInt32 :=
  if core.config.gpgpuLocalMemMap then core.kernelPaddedThreadsPerCta * core.kernelMaxCtaPerShader * numShader
  else numShader * core.config.nThreadPerShader

/-- The sum is taken in 64 bits and kept in 32. -/
def linearAddress (core : LocalMemCore) (localWord offset tid numShader : UInt32) : UInt32 :=
  ((localWord * core.maxConcurrentThreads numShader * 4 + offset + core.threadBase tid numShader).toUInt64 +
    localGenericStart).toUInt32

/-- The `translated_addrs`, as many as the source returns the number of. -/
def translateLocalMemaddr (core : LocalMemCore) (localaddr tid numShader datasize : UInt32) :
    Except LocalMemFault (List UInt64) := do
  unless core.threadBase tid numShader < 4 * core.maxConcurrentThreads numShader do throw .threadBase
  if datasize ≥ 4 then
    unless datasize % 4 = 0 do throw .dataSize
    let numAccesses := datasize / 4
    unless numAccesses ≤ maxAccessesPerInsnPerThread do throw .numAccesses
    unless localaddr % 4 = 0 do throw .alignment
    return (List.range numAccesses.toNat).map fun i =>
      (core.linearAddress (localaddr / 4 + UInt32.ofNat i) 0 tid numShader).toUInt64
  else
    unless datasize > 0 do throw .empty
    let localWord := localaddr / 4
    unless (localaddr + datasize - 1) / 4 = localWord do throw .nextChunk
    return [(core.linearAddress localWord (localaddr % 4) tid numShader).toUInt64]

end LocalMemCore

/-! ## The layout in numbers without a bound -/

/-- The threads of a CTA in whole warps. -/
def paddedThreads (warpSize ctaSize : Nat) : Nat :=
  if ctaSize % warpSize ≠ 0 then warpSize * (ctaSize / warpSize + 1) else ctaSize

/-- A GPU of so many cores that runs a kernel with CTAs of that size, so many of them on a core. -/
structure LocalMemLayout where
  config : LocalMemConfig
  numShader : UInt32
  maxCta : UInt32
  ctaSize : UInt32
  deriving DecidableEq, Repr

namespace LocalMemLayout

def core (layout : LocalMemLayout) (sid : UInt32) : LocalMemCore :=
  LocalMemCore.setMaxCta { config := layout.config, sid } layout.maxCta layout.ctaSize

def perCta (layout : LocalMemLayout) : Nat := paddedThreads layout.config.warpSize.toNat layout.ctaSize.toNat

/-- The threads that run on a core at once. -/
def perCore (layout : LocalMemLayout) : Nat :=
  if layout.config.gpgpuLocalMemMap then layout.perCta * layout.maxCta.toNat
  else layout.config.nThreadPerShader.toNat

def concurrent (layout : LocalMemLayout) : Nat := layout.perCore * layout.numShader.toNat

/-- The place of a thread among those that run at once. With the map, CTAs are dealt to the cores in turn. -/
def threadNumber (layout : LocalMemLayout) (sid tid : Nat) : Nat :=
  if layout.config.gpgpuLocalMemMap then
    mixedRadix [(tid % layout.perCta, layout.perCta), (sid, layout.numShader.toNat)] (tid / layout.perCta)
  else mixedRadix [(tid, layout.config.nThreadPerShader.toNat)] sid

/-- The place of a local byte of a thread in the region. -/
def place (layout : LocalMemLayout) (sid tid byte : Nat) : Nat :=
  mixedRadix [(byte % 4, 4), (layout.threadNumber sid tid, layout.concurrent)] (byte / 4)

/-- The words of every thread fit into the region. -/
def Fits (layout : LocalMemLayout) (words : Nat) : Prop := 4 * layout.concurrent * words ≤ totalLocalMem.toNat

variable {layout : LocalMemLayout} {sid tid sid' tid' byte byte' words : Nat}

theorem perCta_pos (mapped : layout.config.gpgpuLocalMemMap = true) (running : tid < layout.perCore) :
    0 < layout.perCta ∧ 0 < layout.maxCta.toNat := by
  rw [perCore, if_pos mapped] at running
  exact ⟨Nat.pos_of_mul_pos_right (Nat.zero_lt_of_lt running), Nat.pos_of_mul_pos_left (Nat.zero_lt_of_lt running)⟩

theorem threadNumber_lt (core : sid < layout.numShader.toNat) (running : tid < layout.perCore) :
    layout.threadNumber sid tid < layout.concurrent := by
  by_cases mapped : layout.config.gpgpuLocalMemMap = true
  · have positive := (perCta_pos mapped running).1
    rw [perCore, if_pos mapped] at running
    have inside := mixedRadix_lt [(tid % layout.perCta, layout.perCta), (sid, layout.numShader.toNat)]
      (by simpa using ⟨Nat.mod_lt tid positive, core⟩) (Nat.div_lt_of_lt_mul running)
    rw [threadNumber, if_pos mapped, concurrent, perCore, if_pos mapped]
    calc _ < _ := inside
      _ = _ := by simp [Nat.mul_comm, Nat.mul_left_comm]
  · rw [perCore, if_neg mapped] at running
    rw [threadNumber, if_neg mapped, concurrent, perCore, if_neg mapped]
    simpa using mixedRadix_lt [(tid, layout.config.nThreadPerShader.toNat)] (by simpa using running) core

theorem threadNumber_inj (core : sid < layout.numShader.toNat) (running : tid < layout.perCore)
    (core' : sid' < layout.numShader.toNat) (running' : tid' < layout.perCore)
    (same : layout.threadNumber sid tid = layout.threadNumber sid' tid') : sid = sid' ∧ tid = tid' := by
  by_cases mapped : layout.config.gpgpuLocalMemMap = true
  · have positive := (perCta_pos mapped running).1
    simp only [threadNumber, if_pos mapped] at same
    obtain ⟨low, high⟩ := mixedRadix_inj
      (by simpa using ⟨Nat.mod_lt tid positive, core⟩) (by simpa using ⟨Nat.mod_lt tid' positive, core'⟩) (by simp) same
    simp only [List.cons.injEq, Prod.mk.injEq, and_true] at low
    refine ⟨low.2, ?_⟩
    rw [← Nat.div_add_mod tid layout.perCta, ← Nat.div_add_mod tid' layout.perCta, low.1, high]
  · simp only [threadNumber, if_neg mapped] at same
    rw [perCore, if_neg mapped] at running running'
    obtain ⟨low, high⟩ := mixedRadix_inj (by simpa using running) (by simpa using running') (by simp) same
    exact ⟨high, by simpa using low⟩

theorem place_lt (fits : layout.Fits words) (core : sid < layout.numShader.toNat) (running : tid < layout.perCore)
    (inside : byte < 4 * words) : layout.place sid tid byte < totalLocalMem.toNat := by
  have digits : ∀ p ∈ [(byte % 4, 4), (layout.threadNumber sid tid, layout.concurrent)], p.1 < p.2 := by
    simpa using ⟨Nat.mod_lt byte (by decide), threadNumber_lt core running⟩
  have bounded := mixedRadix_lt _ digits (Nat.div_lt_of_lt_mul inside)
  exact (by simpa [place] using bounded : layout.place sid tid byte < 4 * layout.concurrent * words).trans_le fits

theorem place_inj (core : sid < layout.numShader.toNat) (running : tid < layout.perCore)
    (core' : sid' < layout.numShader.toNat) (running' : tid' < layout.perCore)
    (same : layout.place sid tid byte = layout.place sid' tid' byte') : sid = sid' ∧ tid = tid' ∧ byte = byte' := by
  obtain ⟨low, high⟩ := mixedRadix_inj
    (by simpa using ⟨Nat.mod_lt byte (by decide), threadNumber_lt core running⟩)
    (by simpa using ⟨Nat.mod_lt byte' (by decide), threadNumber_lt core' running'⟩) (by simp) same
  simp only [List.cons.injEq, Prod.mk.injEq, and_true] at low
  obtain ⟨sameCore, sameThread⟩ := threadNumber_inj core running core' running' low.2
  exact ⟨sameCore, sameThread, by rw [← Nat.div_add_mod byte 4, ← Nat.div_add_mod byte' 4, low.1, high]⟩

/-! ## No 32-bit overflow -/

variable {sid tid : UInt32}

/-- A region that holds a word of every thread has fewer words than there are 32-bit numbers. -/
theorem concurrent_small (fits : layout.Fits words) (positive : 0 < words) : 4 * layout.concurrent < 2 ^ 32 := by
  have total : totalLocalMem.toNat = 2684354560 := by decide
  have one : 4 * layout.concurrent ≤ 4 * layout.concurrent * words := Nat.le_mul_of_pos_right _ positive
  have whole := one.trans fits
  omega

theorem perCta_le_concurrent (mapped : layout.config.gpgpuLocalMemMap = true) (running : tid.toNat < layout.perCore)
    (core : sid < layout.numShader) : layout.perCta ≤ layout.concurrent := by
  have positive := (perCta_pos mapped running).2
  have cores : 0 < layout.numShader.toNat := Nat.zero_lt_of_lt (UInt32.lt_iff_toNat_lt.mp core)
  rw [concurrent, perCore, if_pos mapped]
  exact (Nat.le_mul_of_pos_right _ positive).trans (Nat.le_mul_of_pos_right _ cores)

theorem padded_toNat (sid : UInt32) (small : layout.perCta < 2 ^ 32) :
    (layout.core sid).kernelPaddedThreadsPerCta.toNat = layout.perCta := by
  simp only [core, LocalMemCore.setMaxCta, perCta, paddedThreads] at small ⊢
  by_cases whole : layout.ctaSize % layout.config.warpSize = 0
  · have whole' : layout.ctaSize.toNat % layout.config.warpSize.toNat = 0 := by
      simpa using congrArg UInt32.toNat whole
    rw [if_neg (not_not.mpr whole), if_neg (not_not.mpr whole')]
  · have whole' : layout.ctaSize.toNat % layout.config.warpSize.toNat ≠ 0 := by
      simpa [← UInt32.toNat_inj] using whole
    rw [if_pos whole'] at small
    rw [if_pos whole, if_pos whole']
    simp only [UInt32.toNat_mul, UInt32.toNat_add, UInt32.toNat_div, UInt32.toNat_one, Nat.mul_mod_mod]
    exact Nat.mod_eq_of_lt small

theorem maxConcurrentThreads_toNat (fits : layout.Fits words) (positive : 0 < words) (core : sid < layout.numShader)
    (running : tid.toNat < layout.perCore) :
    ((layout.core sid).maxConcurrentThreads layout.numShader).toNat = layout.concurrent := by
  have small := concurrent_small fits positive
  by_cases mapped : layout.config.gpgpuLocalMemMap = true
  · have padded := padded_toNat sid ((perCta_le_concurrent mapped running core).trans_lt (by omega))
    rw [concurrent, perCore, if_pos mapped] at small ⊢
    have given : (layout.core sid).kernelMaxCtaPerShader = layout.maxCta := rfl
    rw [LocalMemCore.maxConcurrentThreads, if_pos (by exact mapped), UInt32.toNat_mul, UInt32.toNat_mul, padded, given,
      Nat.mod_mul_mod]
    exact Nat.mod_eq_of_lt (by omega)
  · rw [concurrent, perCore, if_neg mapped] at small ⊢
    have given : (layout.core sid).config = layout.config := rfl
    rw [LocalMemCore.maxConcurrentThreads, if_neg (by exact mapped), UInt32.toNat_mul, Nat.mul_comm, given]
    exact Nat.mod_eq_of_lt (by omega)

theorem threadBase_toNat (fits : layout.Fits words) (positive : 0 < words) (core : sid < layout.numShader)
    (running : tid.toNat < layout.perCore) :
    ((layout.core sid).threadBase tid layout.numShader).toNat = 4 * layout.threadNumber sid.toNat tid.toNat := by
  have small := concurrent_small fits positive
  have inside := threadNumber_lt (UInt32.lt_iff_toNat_lt.mp core) running
  by_cases mapped : layout.config.gpgpuLocalMemMap = true
  · have padded := padded_toNat sid ((perCta_le_concurrent mapped running core).trans_lt (by omega))
    rw [threadNumber, if_pos mapped] at inside ⊢
    have number : layout.perCta * (sid.toNat + layout.numShader.toNat * (tid.toNat / layout.perCta)) +
        tid.toNat % layout.perCta =
        mixedRadix [(tid.toNat % layout.perCta, layout.perCta), (sid.toNat, layout.numShader.toNat)]
          (tid.toNat / layout.perCta) := by
      simp [Nat.add_comm]
    have given : (layout.core sid).sid = sid := rfl
    rw [LocalMemCore.threadBase, if_pos (by exact mapped), ← number]
    rw [← number] at inside
    simp only [UInt32.toNat_mul, UInt32.toNat_add, UInt32.toNat_div, UInt32.toNat_mod, UInt32.toNat_ofNat, padded,
      given,
      Nat.add_mod_mod, Nat.mod_add_mod, Nat.mul_mod_mod]
    exact Nat.mod_eq_of_lt (by omega)
  · rw [threadNumber, if_neg mapped] at inside ⊢
    have number : layout.config.nThreadPerShader.toNat * sid.toNat + tid.toNat =
        mixedRadix [(tid.toNat, layout.config.nThreadPerShader.toNat)] sid.toNat := by
      simp [Nat.add_comm]
    have given : (layout.core sid).sid = sid := rfl
    have given' : (layout.core sid).config = layout.config := rfl
    rw [LocalMemCore.threadBase, if_neg (by exact mapped), ← number]
    rw [← number] at inside
    simp only [UInt32.toNat_mul, UInt32.toNat_add, UInt32.toNat_ofNat, given, given', Nat.mod_add_mod, Nat.mul_mod_mod]
    exact Nat.mod_eq_of_lt (by omega)

/-- The address of a byte is its place after the start of the region. -/
theorem linearAddress_toNat (fits : layout.Fits words) (core : sid < layout.numShader)
    (running : tid.toNat < layout.perCore) {localWord : UInt32} (inside : localWord.toNat < words) (offset : UInt32)
    (within : offset.toNat < 4) :
    ((layout.core sid).linearAddress localWord offset tid layout.numShader).toNat =
      localGenericStart.toNat + layout.place sid.toNat tid.toNat (4 * localWord.toNat + offset.toNat) := by
  have positive : 0 < words := Nat.zero_lt_of_lt inside
  have below := place_lt fits (UInt32.lt_iff_toNat_lt.mp core) running
    (by omega : 4 * localWord.toNat + offset.toNat < 4 * words)
  have total : totalLocalMem.toNat = 2684354560 := by decide
  have start : localGenericStart.toNat = 529006592 := by decide
  have sum : localWord.toNat * layout.concurrent * 4 + offset.toNat + 4 * layout.threadNumber sid.toNat tid.toNat =
      layout.place sid.toNat tid.toNat (4 * localWord.toNat + offset.toNat) := by
    have digit : (4 * localWord.toNat + offset.toNat) % 4 = offset.toNat := by omega
    have word : (4 * localWord.toNat + offset.toNat) / 4 = localWord.toNat := by omega
    rw [place, digit, word, mixedRadix_cons, mixedRadix_cons, mixedRadix_nil]
    ring
  rw [← sum] at below ⊢
  simp only [LocalMemCore.linearAddress, UInt64.toNat_toUInt32, UInt64.toNat_add, UInt32.toNat_toUInt64,
    UInt32.toNat_add, UInt32.toNat_mul, UInt32.toNat_ofNat, maxConcurrentThreads_toNat fits positive core running,
    threadBase_toNat fits positive core running, Nat.mod_mul_mod, Nat.mod_add_mod, start]
  omega

/-- The bytes of a word lie one after the other. -/
theorem place_add {k : Nat} (sid tid : Nat) (within : byte % 4 + k < 4) :
    layout.place sid tid (byte + k) = layout.place sid tid byte + k := by
  have digit : (byte + k) % 4 = byte % 4 + k := by omega
  have word : (byte + k) / 4 = byte / 4 := by omega
  simp only [place, digit, word, mixedRadix_cons, Nat.add_right_comm]

end LocalMemLayout

/-! ## Accesses -/

/-- The sizes and alignments that the assertions let pass. -/
def Allowed (localaddr datasize : Nat) : Prop :=
  if 4 ≤ datasize then datasize % 4 = 0 ∧ datasize / 4 ≤ 8 ∧ localaddr % 4 = 0
  else 0 < datasize ∧ localaddr % 4 + datasize ≤ 4

/-- An access that a running thread makes to its local words. -/
structure LocalAccess (layout : LocalMemLayout) (words : Nat) where
  sid : UInt32
  tid : UInt32
  localaddr : UInt32
  datasize : UInt32
  core : sid < layout.numShader
  running : tid.toNat < layout.perCore
  allowed : Allowed localaddr.toNat datasize.toNat
  inside : localaddr.toNat + datasize.toNat ≤ 4 * words

/-- The address of the `k`-th byte of an access, four bytes to each word. -/
def byteAddress (addrs : List UInt64) (k : Nat) : Nat := (addrs.getD (k / 4) 0).toNat + k % 4

namespace LocalAccess
open LocalMemLayout

variable {layout : LocalMemLayout} {words : Nat}

def translated (access : LocalAccess layout words) : Except LocalMemFault (List UInt64) :=
  (layout.core access.sid).translateLocalMemaddr access.localaddr access.tid layout.numShader access.datasize

/-- The access to one word of an access to several. -/
def word (access : LocalAccess layout words) (i : Nat) : Except LocalMemFault (List UInt64) :=
  (layout.core access.sid).translateLocalMemaddr (access.localaddr + 4 * UInt32.ofNat i) access.tid layout.numShader 4

variable {access : LocalAccess layout words}

theorem datasize_pos (access : LocalAccess layout words) : 0 < access.datasize.toNat := by
  have allowed := access.allowed
  rw [Allowed] at allowed
  split at allowed <;> omega

theorem words_pos (access : LocalAccess layout words) : 0 < words := by
  have positive := access.datasize_pos
  have inside := access.inside
  omega

theorem end_small (fits : layout.Fits words) (access : LocalAccess layout words) :
    access.localaddr.toNat + access.datasize.toNat < 2 ^ 32 := by
  have total : totalLocalMem.toNat = 2684354560 := by decide
  have some_run := (threadNumber_lt (UInt32.lt_iff_toNat_lt.mp access.core) access.running)
  have one : 4 * words ≤ 4 * layout.concurrent * words :=
    Nat.mul_le_mul_right _ (Nat.le_mul_of_pos_right _ (Nat.zero_lt_of_lt some_run))
  exact access.inside.trans_lt ((one.trans fits).trans_lt (by omega))

theorem threadBase_inside (fits : layout.Fits words) (access : LocalAccess layout words) :
    (layout.core access.sid).threadBase access.tid layout.numShader <
      4 * (layout.core access.sid).maxConcurrentThreads layout.numShader := by
  have small := concurrent_small fits access.words_pos
  have number := threadNumber_lt (UInt32.lt_iff_toNat_lt.mp access.core) access.running
  rw [UInt32.lt_iff_toNat_lt, threadBase_toNat fits access.words_pos access.core access.running, UInt32.toNat_mul,
    maxConcurrentThreads_toNat fits access.words_pos access.core access.running]
  rw [UInt32.toNat_ofNat, Nat.mod_eq_of_lt (by omega : 4 % 2 ^ 32 * layout.concurrent < 2 ^ 32)]
  omega

/-- The words of a larger access. -/
theorem translated_words (fits : layout.Fits words) (access : LocalAccess layout words)
    (large : 4 ≤ access.datasize.toNat) :
    access.translated = .ok ((List.range (access.datasize.toNat / 4)).map fun i =>
      ((layout.core access.sid).linearAddress
        (access.localaddr / 4 + UInt32.ofNat i) 0 access.tid layout.numShader).toUInt64) := by
  have allowed := access.allowed
  rw [Allowed, if_pos large] at allowed
  have size : access.datasize % 4 = 0 := by simpa [← UInt32.toNat_inj] using allowed.1
  have count : access.datasize / 4 ≤ maxAccessesPerInsnPerThread := by
    simpa [UInt32.le_iff_toNat_le, maxAccessesPerInsnPerThread] using allowed.2.1
  have aligned : access.localaddr % 4 = 0 := by simpa [← UInt32.toNat_inj] using allowed.2.2
  have large' : access.datasize ≥ 4 := by simpa [UInt32.le_iff_toNat_le] using large
  rw [translated, LocalMemCore.translateLocalMemaddr]
  simp [threadBase_inside fits access, large', size, count, aligned]
  rfl

/-- A smaller access stays in its word. -/
theorem translated_bytes (fits : layout.Fits words) (small : access.datasize.toNat < 4) :
    access.translated = .ok [((layout.core access.sid).linearAddress (access.localaddr / 4) (access.localaddr % 4)
      access.tid layout.numShader).toUInt64] := by
  have allowed := access.allowed
  rw [Allowed, if_neg (Nat.not_le.mpr small)] at allowed
  have small' : ¬ access.datasize ≥ 4 := by simpa [UInt32.le_iff_toNat_le] using small
  have positive : access.datasize > 0 := by simpa [UInt32.lt_iff_toNat_lt] using allowed.1
  have chunk : (access.localaddr + access.datasize - 1) / 4 = access.localaddr / 4 := by
    have size := access.localaddr.toNat_lt
    have one : (1 : UInt32).toNat = 1 := rfl
    have four : (4 : UInt32).toNat = 4 := rfl
    simp only [← UInt32.toNat_inj, UInt32.toNat_div, UInt32.toNat_sub, UInt32.toNat_add, one, four]
    omega
  rw [translated, LocalMemCore.translateLocalMemaddr]
  simp [threadBase_inside fits access, small', positive, chunk]
  rfl

/-- Byte by byte an access goes to the places of its bytes. -/
theorem translated_places (fits : layout.Fits words) (access : LocalAccess layout words) :
    ∃ addrs, access.translated = .ok addrs ∧ ∀ k < access.datasize.toNat, byteAddress addrs k =
      localGenericStart.toNat + layout.place access.sid.toNat access.tid.toNat (access.localaddr.toNat + k) := by
  have allowed := access.allowed
  have inside := access.inside
  have size := access.end_small fits
  have four : (4 : UInt32).toNat = 4 := rfl
  by_cases large : 4 ≤ access.datasize.toNat
  · rw [Allowed, if_pos large] at allowed
    refine ⟨_, translated_words fits access large, fun k within => ?_⟩
    have index : k / 4 < access.datasize.toNat / 4 := by omega
    have word : (access.localaddr / 4 + UInt32.ofNat (k / 4)).toNat = access.localaddr.toNat / 4 + k / 4 := by
      rw [UInt32.toNat_add, UInt32.toNat_div, four, UInt32.toNat_ofNat']
      omega
    have start : 4 * (access.localaddr / 4 + UInt32.ofNat (k / 4)).toNat + (0 : UInt32).toNat =
        access.localaddr.toNat + 4 * (k / 4) := by
      rw [word, UInt32.toNat_zero]
      omega
    have address := linearAddress_toNat fits access.core access.running
      (by rw [word]; omega : (access.localaddr / 4 + UInt32.ofNat (k / 4)).toNat < words) 0 (by decide)
    have rest : access.localaddr.toNat + k = access.localaddr.toNat + 4 * (k / 4) + k % 4 := by omega
    rw [byteAddress, List.getD_eq_getElem?_getD, List.getElem?_map, List.getElem?_range index, Option.map_some,
      Option.getD_some, UInt32.toNat_toUInt64, address, start, rest,
      place_add _ _ (by omega : (access.localaddr.toNat + 4 * (k / 4)) % 4 + k % 4 < 4), Nat.add_assoc]
  · rw [Allowed, if_neg large] at allowed
    refine ⟨_, translated_bytes fits (Nat.not_le.mp large), fun k within => ?_⟩
    have first : k / 4 = 0 := by omega
    have whole : 4 * (access.localaddr / 4).toNat + (access.localaddr % 4).toNat = access.localaddr.toNat := by
      rw [UInt32.toNat_div, UInt32.toNat_mod, four, Nat.div_add_mod]
    have offset : (access.localaddr % 4).toNat < 4 := by
      rw [UInt32.toNat_mod, four]
      exact Nat.mod_lt _ (by decide)
    have address := linearAddress_toNat fits access.core access.running
      (by omega : (access.localaddr / 4).toNat < words) _ offset
    rw [byteAddress, first, List.getD_cons_zero, UInt32.toNat_toUInt64, address, whole,
      place_add _ _ (by omega : access.localaddr.toNat % 4 + k < 4), Nat.mod_eq_of_lt (by omega : k < 4), Nat.add_assoc]

/-- An access to several words is the accesses to each of them. -/
theorem translated_word (fits : layout.Fits words) (large : 4 ≤ access.datasize.toNat) {addrs : List UInt64}
    (ok : access.translated = .ok addrs) :
    addrs.length = access.datasize.toNat / 4 ∧ ∀ (i : Nat) (x : UInt64), addrs[i]? = some x →
      access.word i = .ok [x] := by
  rw [translated_words fits access large] at ok
  injection ok with given
  refine ⟨by rw [← given, List.length_map, List.length_range], fun i x found => ?_⟩
  have allowed := access.allowed
  have inside := access.inside
  have size := access.end_small fits
  have four : (4 : UInt32).toNat = 4 := rfl
  rw [Allowed, if_pos large] at allowed
  rw [← given, List.getElem?_map] at found
  obtain ⟨j, place, rfl⟩ := Option.map_eq_some_iff.mp found
  obtain ⟨below, rfl⟩ := List.getElem?_eq_some_iff.mp place
  rw [List.length_range] at below
  rw [List.getElem_range]
  have index : (UInt32.ofNat i).toNat = i := by
    rw [UInt32.toNat_ofNat']
    omega
  have start : (access.localaddr + 4 * UInt32.ofNat i).toNat = access.localaddr.toNat + 4 * i := by
    rw [UInt32.toNat_add, UInt32.toNat_mul, four, index]
    omega
  have single := translated_words fits {
    access with
    localaddr := access.localaddr + 4 * UInt32.ofNat i
    datasize := 4
    allowed := by rw [Allowed, start]; simp; omega
    inside := by rw [start]; simp; omega } (by simp)
  have same : (access.localaddr + 4 * UInt32.ofNat i) / 4 = access.localaddr / 4 + UInt32.ofNat i := by
    rw [← UInt32.toNat_inj, UInt32.toNat_div, start, UInt32.toNat_add, UInt32.toNat_div, four, index]
    omega
  rw [word, ← same]
  simpa [translated] using single

end LocalAccess

/-- When the local words of all running threads fit into the region, every access of a running thread is
translated, without a 32-bit overflow and inside the region, an access to several words goes where its
words go one by one, and no address belongs to two bytes. -/
theorem translate_local_memaddr_apart {layout : LocalMemLayout} {words : Nat} (fits : layout.Fits words) :
    (∀ access : LocalAccess layout words, ∃ addrs, access.translated = .ok addrs ∧
      ((layout.core access.sid).threadBase access.tid layout.numShader).toNat =
        4 * layout.threadNumber access.sid.toNat access.tid.toNat ∧
      ((layout.core access.sid).maxConcurrentThreads layout.numShader).toNat = layout.concurrent ∧
      (∀ k < access.datasize.toNat,
        byteAddress addrs k = localGenericStart.toNat +
          layout.place access.sid.toNat access.tid.toNat (access.localaddr.toNat + k) ∧
        localGenericStart.toNat ≤ byteAddress addrs k ∧ byteAddress addrs k < sharedGenericStart.toNat) ∧
      (4 ≤ access.datasize.toNat → addrs.length = access.datasize.toNat / 4 ∧
        ∀ (i : Nat) (x : UInt64), addrs[i]? = some x → access.word i = .ok [x])) ∧
    ∀ (access access' : LocalAccess layout words) (addrs addrs' : List UInt64),
      access.translated = .ok addrs → access'.translated = .ok addrs' →
      ∀ k < access.datasize.toNat, ∀ k' < access'.datasize.toNat, byteAddress addrs k = byteAddress addrs' k' →
        access.sid = access'.sid ∧ access.tid = access'.tid ∧
          access.localaddr.toNat + k = access'.localaddr.toNat + k' := by
  constructor
  · intro access
    obtain ⟨addrs, ok, places⟩ := access.translated_places fits
    refine ⟨addrs, ok, LocalMemLayout.threadBase_toNat fits access.words_pos access.core access.running,
      LocalMemLayout.maxConcurrentThreads_toNat fits access.words_pos access.core access.running, fun k within => ?_,
      fun large => LocalAccess.translated_word fits large ok⟩
    have inside : access.localaddr.toNat + k < 4 * words := (Nat.add_lt_add_left within _).trans_le access.inside
    have below := LocalMemLayout.place_lt fits (UInt32.lt_iff_toNat_lt.mp access.core) access.running inside
    have region : sharedGenericStart.toNat = localGenericStart.toNat + totalLocalMem.toNat := by decide
    rw [places k within, region]
    exact ⟨rfl, Nat.le_add_right _ _, Nat.add_lt_add_left below _⟩
  · intro access access' addrs addrs' ok ok' k within k' within' same
    obtain ⟨given, isOk, places⟩ := access.translated_places fits
    obtain ⟨given', isOk', places'⟩ := access'.translated_places fits
    obtain rfl : given = addrs := Except.ok.inj (isOk.symm.trans ok)
    obtain rfl : given' = addrs' := Except.ok.inj (isOk'.symm.trans ok')
    rw [places k within, places' k' within'] at same
    obtain ⟨core, thread, byte⟩ := LocalMemLayout.place_inj (UInt32.lt_iff_toNat_lt.mp access.core) access.running
      (UInt32.lt_iff_toNat_lt.mp access'.core) access'.running (Nat.add_left_cancel same)
    exact ⟨UInt32.toNat_inj.mp core, UInt32.toNat_inj.mp thread, byte⟩

/-- Two cores with two CTAs of three threads in warps of two, eight bytes for each thread. -/
def twoCores : LocalMemLayout where
  config := { gpgpuLocalMemMap := true, nThreadPerShader := 8, warpSize := 2 }
  numShader := 2
  maxCta := 2
  ctaSize := 3

/-- The fifth thread of the second core reads both of its words. -/
def pairAccess : LocalAccess twoCores 2 where
  sid := 1
  tid := 4
  localaddr := 0
  datasize := 8
  core := by decide
  running := by decide
  allowed := by unfold Allowed; decide
  inside := by decide

theorem translate_local_memaddr_apart_twoCores : twoCores.Fits 2 ∧ ∃ addrs, pairAccess.translated = .ok addrs ∧
    addrs = [529006640, 529006704] ∧ pairAccess.word 1 = .ok [529006704] := by
  have fits : twoCores.Fits 2 := by unfold LocalMemLayout.Fits; decide
  have ok : pairAccess.translated = .ok [529006640, 529006704] := by decide
  obtain ⟨addrs, translated, -, -, -, words⟩ := (translate_local_memaddr_apart fits).1 pairAccess
  obtain rfl : addrs = [529006640, 529006704] := Except.ok.inj (translated.symm.trans ok)
  exact ⟨fits, _, translated, rfl, (words (by decide)).2 1 529006704 rfl⟩

end GpgpuSim.Address
