import GpgpuSim.Address.Decoding
import Mathlib.Data.Set.Function
import Mathlib.Order.Interval.Set.Defs

/-! The bank of the L1 data cache that an address goes to. The hash routine of the cache sets takes the logarithm
of the line size, and the banks pass it the number of bytes. -/
namespace GpgpuSim.Cache
open Address

inductive SetIndexFunction
  | linear
  | bitwiseXoring
  | hashIpoly
  | fermiHash
  | custom
  deriving DecidableEq, Repr

/-- `addr >> shift` of a 64-bit address. -/
def shiftRight (addr shift : Nat) : Except AddrdecFault Nat :=
  if shift < 64 then .ok (addr >>> shift) else .error .undefined

/-- `cache_config::hash_function` up to its last check. -/
def setIndexOf (addr nset lineSzLog2 nsetLog2 : Nat) : SetIndexFunction → Except AddrdecFault Nat
  | .fermiHash =>
      if nset = 32 ∨ nset = 64 then do
        let lowerXor := (← shiftRight addr lineSzLog2) &&& 0x1F
        let upperXor := (addr &&& 0xE000) >>> 13
        let upperXor := upperXor ||| (addr &&& 0x20000) >>> 14
        let upperXor := upperXor ||| (addr &&& 0x80000) >>> 15
        let setIndex := lowerXor ^^^ upperXor
        return if nset = 64 then setIndex ||| (addr &&& 0x1000) >>> 7 else setIndex
      else .error .assertion
  | .bitwiseXoring => do
      let higherBits ← shiftRight addr ((lineSzLog2 + nsetLog2) % 2 ^ 32)
      let index := (← shiftRight addr lineSzLog2) &&& (nset - 1)
      return bitwiseHashFunction higherBits index nset
  | .hashIpoly => do
      let higherBits ← shiftRight addr ((lineSzLog2 + nsetLog2) % 2 ^ 32)
      let index := (← shiftRight addr lineSzLog2) &&& (nset - 1)
      ipolyHashFunction higherBits index nset
  | .custom => .ok 0
  | .linear => do
      let unit ← shiftRight addr lineSzLog2
      return unit &&& (nset - 1)

def hashFunction (addr nset lineSzLog2 nsetLog2 : Nat) (indexFunction : SetIndexFunction) :
    Except AddrdecFault Nat := do
  let setIndex ← setIndexOf addr nset lineSzLog2 nsetLog2 indexFunction
  if setIndex < nset then return setIndex else throw .assertion

/-- `LOGB2`, with the steps of `LOGB2_32`. -/
def logB2 (v : Nat) : Nat := logb2_32 v

structure L1dCacheConfig where
  l1Banks : Nat
  l1BanksLog2 : Nat
  l1BanksByteInterleaving : Nat
  banksByteInterleavingLog2 : Nat
  l1BanksHashingFunction : SetIndexFunction

namespace L1dCacheConfig

/-- The part of `l1d_cache_config::init` that is about the banks. -/
def init (l1Banks l1BanksByteInterleaving : Nat) (l1BanksHashingFunction : SetIndexFunction) : L1dCacheConfig where
  l1Banks
  l1BanksLog2 := logB2 l1Banks
  l1BanksByteInterleaving
  banksByteInterleavingLog2 := logB2 l1BanksByteInterleaving
  l1BanksHashingFunction

def setBank (cfg : L1dCacheConfig) (addr : Nat) : Except AddrdecFault Nat :=
  hashFunction addr cfg.l1Banks cfg.l1BanksByteInterleaving cfg.l1BanksLog2 cfg.l1BanksHashingFunction

/-! ## What the banks are for -/

/-- The interleaving units go around the banks. -/
def linearBank (cfg : L1dCacheConfig) (addr : Nat) : Nat := addr / cfg.l1BanksByteInterleaving % cfg.l1Banks

/-- The address above its unit and its linear bank. -/
def above (cfg : L1dCacheConfig) (addr : Nat) : Nat := addr / cfg.l1BanksByteInterleaving / cfg.l1Banks

/-- The hash takes the linear bank and the bits above it, and only exchanges banks. -/
structure Interleaves (cfg : L1dCacheConfig) : Prop where
  linear : cfg.l1BanksHashingFunction = .linear → ∀ addr < 2 ^ 64, cfg.setBank addr = .ok (cfg.linearBank addr)
  consecutive : cfg.l1BanksHashingFunction = .linear → ∀ base i j, i < j → j < cfg.l1Banks →
    base + j * cfg.l1BanksByteInterleaving < 2 ^ 64 →
      cfg.setBank (base + i * cfg.l1BanksByteInterleaving) ≠ cfg.setBank (base + j * cfg.l1BanksByteInterleaving)
  permuted : cfg.l1BanksHashingFunction ≠ .linear → ∀ high, ∃ bank : Nat → Nat,
    Set.BijOn bank (Set.Iio cfg.l1Banks) (Set.Iio cfg.l1Banks) ∧
      ∀ addr < 2 ^ 64, cfg.above addr = high → cfg.setBank addr = .ok (bank (cfg.linearBank addr))

/-- A hash that the banks can have, with a number of banks that it supports. -/
def Supported (l1Banks : Nat) (hashing : SetIndexFunction) : Prop :=
  hashing = .linear ∨ hashing = .bitwiseXoring ∨ hashing = .hashIpoly ∧ IpolyBanks l1Banks

variable {b i addr : Nat} {hashing : SetIndexFunction}

theorem logB2_two_pow (small : b < 32) : logB2 (2 ^ b) = b := by
  rw [logB2, logb2_32_eq (Nat.two_pow_pos b).ne' (Nat.pow_lt_pow_right (by decide) small), Nat.log2_two_pow]

/-- A shift by so many bytes is defined for up to 32 of them. -/
theorem interleaving_lt (small : 2 ^ i < 64) : 2 ^ i ≤ 32 := by
  have below : i < 6 := (Nat.pow_lt_pow_iff_right (by decide)).mp (small.trans_eq (show 64 = 2 ^ 6 by rfl))
  calc 2 ^ i ≤ 2 ^ 5 := Nat.pow_le_pow_right (by decide) (by omega)
    _ = 32 := rfl

theorem shiftRight_ok {shift : Nat} (small : shift < 64) : shiftRight addr shift = .ok (addr >>> shift) := if_pos small

theorem hashFunction_ok {nset lineSzLog2 nsetLog2 setIndex : Nat}
    (computed : setIndexOf addr nset lineSzLog2 nsetLog2 hashing = .ok setIndex) (inside : setIndex < nset) :
    hashFunction addr nset lineSzLog2 nsetLog2 hashing = .ok setIndex := by
  rw [hashFunction, computed]
  exact if_pos inside

/-- The code sees the address from the bit on that the number of bytes names. -/
theorem setBank_shift (banks : b < 32) (supported : Supported (2 ^ b) hashing) (small : 2 ^ i < 64) :
    ∃ bank : Nat → Nat, ∀ addr, (init (2 ^ b) (2 ^ i) hashing).setBank addr = .ok (bank (addr >>> 2 ^ i)) ∧
      bank (addr >>> 2 ^ i) < 2 ^ b := by
  have bytes := interleaving_lt small
  have both : (2 ^ i + b) % 2 ^ 32 = 2 ^ i + b := Nat.mod_eq_of_lt (by omega)
  have masked (units : Nat) : units &&& (2 ^ b - 1) < 2 ^ b := by
    rw [Nat.and_two_pow_sub_one_eq_mod]
    exact Nat.mod_lt _ (Nat.two_pow_pos b)
  rcases supported with rfl | rfl | ⟨rfl, supported⟩
  · refine ⟨fun units => units &&& (2 ^ b - 1), fun addr => ⟨hashFunction_ok ?_ (masked _), masked _⟩⟩
    simp only [init, setIndexOf, shiftRight_ok small]
    rfl
  · refine ⟨fun units => bitwiseHashFunction (units >>> b) (units &&& (2 ^ b - 1)) (2 ^ b), fun addr => ?_⟩
    have inside := (Nat.mod_le (_ ^^^ _) (2 ^ 32)).trans_lt
      (Nat.xor_lt_two_pow (masked (addr >>> 2 ^ i)) (masked (addr >>> 2 ^ i >>> b)))
    refine ⟨hashFunction_ok ?_ inside, inside⟩
    simp only [init, setIndexOf, logB2_two_pow banks, both, shiftRight_ok small,
      shiftRight_ok (show 2 ^ i + b < 64 by omega), Nat.shiftRight_add]
    rfl
  · refine ⟨fun units => (units &&& (2 ^ b - 1)) ^^^ ipolyOffset (units >>> b) (2 ^ b), fun addr => ?_⟩
    have inside := Nat.xor_lt_two_pow (masked (addr >>> 2 ^ i)) (@ipolyOffset_lt (addr >>> 2 ^ i >>> b) _ supported)
    refine ⟨hashFunction_ok ?_ inside, inside⟩
    rw [← ipolyHashFunction_eq supported (masked _)]
    simp only [init, setIndexOf, logB2_two_pow banks, both, shiftRight_ok small,
      shiftRight_ok (show 2 ^ i + b < 64 by omega), Nat.shiftRight_add]
    rfl

theorem setBank_linear (small : 2 ^ i < 64) :
    (init (2 ^ b) (2 ^ i) .linear).setBank addr = .ok (addr >>> 2 ^ i % 2 ^ b) := by
  rw [← Nat.and_two_pow_sub_one_eq_mod]
  refine hashFunction_ok ?_ ?_
  · simp only [init, setIndexOf, shiftRight_ok small]
    rfl
  · rw [Nat.and_two_pow_sub_one_eq_mod]
    exact Nat.mod_lt _ (Nat.two_pow_pos b)

/-- From 64 bytes on the shift is undefined. -/
theorem setBank_undefined (banks : b < 32) (interleaving : i < 32) (supported : Supported (2 ^ b) hashing)
    (large : ¬ 2 ^ i < 64) : (init (2 ^ b) (2 ^ i) hashing).setBank addr = .error .undefined := by
  have bounded : 2 ^ i ≤ 2 ^ 31 := Nat.pow_le_pow_right (by decide) (by omega)
  have both : (2 ^ i + b) % 2 ^ 32 = 2 ^ i + b := Nat.mod_eq_of_lt (by omega)
  have alone : shiftRight addr (2 ^ i) = .error .undefined := if_neg large
  have summed : shiftRight addr (2 ^ i + b) = .error .undefined := if_neg (by omega)
  rcases supported with rfl | rfl | ⟨rfl, -⟩
  · simp only [setBank, hashFunction, init, setIndexOf, alone]
    rfl
  · simp only [setBank, hashFunction, init, setIndexOf, logB2_two_pow banks, both, summed]
    rfl
  · simp only [setBank, hashFunction, init, setIndexOf, logB2_two_pow banks, both, summed]
    rfl

theorem shiftRight_unit : 2 ^ i >>> 2 ^ i = 0 := by
  rw [Nat.shiftRight_eq_div_pow]
  exact Nat.div_eq_of_lt (Nat.pow_lt_pow_right (by decide) i.lt_two_pow_self)

/-- The second unit goes to the bank of the first. -/
theorem Interleaves.one_bank (banks : b < 32) (supported : Supported (2 ^ b) hashing) (small : 2 ^ i < 64)
    (interleaves : (init (2 ^ b) (2 ^ i) hashing).Interleaves) : 2 ^ b = 1 := by
  obtain ⟨bank, code⟩ := @setBank_shift b i hashing banks supported small
  have positive : 0 < 2 ^ i := Nat.two_pow_pos i
  have fits : 2 ^ i < 2 ^ 64 := by omega
  by_contra several
  have two : 1 < 2 ^ b := by
    have := Nat.two_pow_pos b
    omega
  have first : (init (2 ^ b) (2 ^ i) hashing).linearBank 0 = 0 := by simp [linearBank, init]
  have second : (init (2 ^ b) (2 ^ i) hashing).linearBank (2 ^ i) = 1 := by
    simp only [linearBank, init, Nat.div_self positive, Nat.mod_eq_of_lt two]
  have same : (init (2 ^ b) (2 ^ i) hashing).setBank (2 ^ i) = (init (2 ^ b) (2 ^ i) hashing).setBank 0 := by
    rw [(code _).1, (code _).1, shiftRight_unit, Nat.zero_shiftRight]
  by_cases linear : hashing = .linear
  · rw [interleaves.linear linear _ fits, interleaves.linear linear 0 (by decide), first, second] at same
    contradiction
  · obtain ⟨permuted, onto, hashed⟩ := interleaves.permuted linear 0
    have below : (init (2 ^ b) (2 ^ i) hashing).above (2 ^ i) = 0 := by
      simp only [above, init, Nat.div_self positive, Nat.div_eq_of_lt two]
    rw [hashed _ fits below, hashed 0 (by decide) (by simp [above, init]), first, second] at same
    exact absurd (onto.injOn two (by omega : 0 < 2 ^ b) (Except.ok.inj same)) (by decide)

/-- With one bank there is nothing to tell apart. -/
theorem interleaves_of_one (banks : b < 32) (supported : Supported (2 ^ b) hashing) (one : 2 ^ b = 1)
    (small : 2 ^ i < 64) : (init (2 ^ b) (2 ^ i) hashing).Interleaves := by
  obtain ⟨bank, code⟩ := @setBank_shift b i hashing banks supported small
  have zero (addr : Nat) : (init (2 ^ b) (2 ^ i) hashing).setBank addr = .ok 0 := by
    obtain ⟨done, inside⟩ := code addr
    rw [done, show bank (addr >>> 2 ^ i) = 0 by omega]
  refine ⟨fun _ addr _ => ?_, fun _ _ _ _ later inside => ?_, fun _ high => ⟨id, Set.bijOn_id _, fun addr _ _ => ?_⟩⟩
  · rw [zero, linearBank]
    simp only [init, one, Nat.mod_one]
  · simp only [init, one] at inside
    omega
  · rw [zero, linearBank]
    simp only [init, one, Nat.mod_one, id]

/-- With linear hashing an address goes to its bank when the bits that are read are those that should be. -/
theorem setBank_linear_iff (banks : b < 32) (interleaving : i < 32) :
    (init (2 ^ b) (2 ^ i) .linear).setBank addr = .ok ((init (2 ^ b) (2 ^ i) .linear).linearBank addr) ↔
      2 ^ i < 64 ∧ ∀ j < b, addr.testBit (2 ^ i + j) = addr.testBit (i + j) := by
  by_cases small : 2 ^ i < 64
  · rw [setBank_linear small, Except.ok.injEq, linearBank]
    simp only [init, ← Nat.shiftRight_eq_div_pow, small, true_and]
    constructor
    · intro same j inside
      have bits := congrArg (fun word => word.testBit j) same
      simpa only [Nat.testBit_mod_two_pow, inside, decide_true, Bool.true_and, Nat.testBit_shiftRight] using bits
    · intro bits
      apply Nat.eq_of_testBit_eq
      intro j
      by_cases inside : j < b
      · simpa only [Nat.testBit_mod_two_pow, inside, decide_true, Bool.true_and, Nat.testBit_shiftRight] using
          bits j inside
      · simp only [Nat.testBit_mod_two_pow, inside, decide_false, Bool.false_and]
  · rw [setBank_undefined banks interleaving (.inl rfl) small]
    exact iff_of_false nofun fun both => small both.1

/-- The banks are interleaved only where there is one; with linear hashing an address goes to its bank when the
bits that are read agree with those that should be. -/
theorem setBank_interleaves_iff (banks : b < 32) (interleaving : i < 32) (supported : Supported (2 ^ b) hashing) :
    ((init (2 ^ b) (2 ^ i) hashing).Interleaves ↔ 2 ^ b = 1 ∧ 2 ^ i < 64) ∧
      (hashing = .linear → ∀ addr < 2 ^ 64,
        ((init (2 ^ b) (2 ^ i) hashing).setBank addr = .ok ((init (2 ^ b) (2 ^ i) hashing).linearBank addr) ↔
          2 ^ i < 64 ∧ ∀ j < b, addr.testBit (2 ^ i + j) = addr.testBit (i + j))) := by
  constructor
  · constructor
    · intro interleaves
      have small : 2 ^ i < 64 := by
        by_contra large
        have undefined := @setBank_undefined b i 0 hashing banks interleaving supported large
        by_cases linear : hashing = .linear
        · rw [interleaves.linear linear 0 (by decide)] at undefined
          contradiction
        · obtain ⟨_, -, hashed⟩ := interleaves.permuted linear _
          rw [hashed 0 (by decide) rfl] at undefined
          contradiction
      exact ⟨interleaves.one_bank banks supported small, small⟩
    · rintro ⟨one, small⟩
      exact interleaves_of_one banks supported one small
  · rintro rfl addr -
    exact setBank_linear_iff banks interleaving

/-- The numbers of a large configuration. -/
theorem setBank_interleaves_four :
    (init (2 ^ 2) (2 ^ 5) .linear).Interleaves ↔ 2 ^ 2 = 1 ∧ 2 ^ 5 < 64 :=
  (setBank_interleaves_iff (by decide) (by decide) (.inl rfl)).1

/-- Four banks of 32 bytes: the second unit goes to the first bank. -/
theorem setBank_collides : (init 4 32 .linear).setBank 32 = .ok 0 ∧ (init 4 32 .linear).linearBank 32 = 1 ∧
    ¬ (init 4 32 .linear).Interleaves := by
  have code : (init 4 32 .linear).setBank 32 = .ok 0 := rfl
  refine ⟨code, by decide, fun interleaves => ?_⟩
  have claimed := interleaves.linear rfl 32 (by decide)
  rw [code] at claimed
  exact absurd (Except.ok.inj claimed) (by decide)

end L1dCacheConfig

end GpgpuSim.Cache
