import GpgpuSim.Partition.SimilarityCache
import Mathlib.Data.List.Count
import Mathlib.Data.List.Forall2

/-! The text a block of memory has in the similarity cache. A byte is written without a
zero in front of it, so what tells two blocks apart is where their one-digit bytes are. -/
namespace GpgpuSim.Partition.MemoryPartitionUnit
open Containers

/-- What a stream set to `std::hex` writes for a byte. -/
def hexText (byte : UInt8) : List Char := Nat.toDigits 16 byte.toNat

def memoryToString (data : List UInt8) : String :=
  if data.all (· == 0) then "0" else String.ofList (data.flatMap hexText)

/-- What `similarity_cache_cycle` does with a block at the head of a queue. -/
def checkBlock (cache : SimilarityCache) (data : List UInt8) : Option SimilarityCache :=
  cache.checkAndUpdate (memoryToString data)

def checkBlocks (cache : SimilarityCache) (blocks : List (List UInt8)) : Option SimilarityCache :=
  blocks.foldlM checkBlock cache

/-! ## The digits of a byte -/

def oneDigit (byte : UInt8) : Bool := byte.toNat < 16

def oneDigits (data : List UInt8) : List Bool := data.map oneDigit

variable {a b : UInt8} {first second : List UInt8} {n : Nat}

theorem hexText_of_oneDigit (small : oneDigit a = true) : hexText a = [a.toNat.digitChar] :=
  Nat.toDigits_of_lt_base (of_decide_eq_true small)

theorem hexText_of_twoDigits (large : oneDigit a = false) :
    hexText a = [(a.toNat / 16).digitChar, (a.toNat % 16).digitChar] := by
  have atLeast : 16 ≤ a.toNat := Nat.le_of_not_lt (of_decide_eq_false large)
  have bounded := a.toNat_lt
  rw [hexText, Nat.toDigits_of_base_le (by decide) atLeast, Nat.toDigits_of_lt_base (by omega),
    List.singleton_append]

theorem digitChar_inj : ∀ i j : Fin 16, Nat.digitChar i = Nat.digitChar j → i = j := by decide

theorem digitChar_inj_of_lt {i j : Nat} (hi : i < 16) (hj : j < 16)
    (same : Nat.digitChar i = Nat.digitChar j) : i = j :=
  congrArg Fin.val (digitChar_inj ⟨i, hi⟩ ⟨j, hj⟩ same)

theorem length_hexText (byte : UInt8) : (hexText byte).length = if oneDigit byte then 1 else 2 := by
  cases digits : oneDigit byte with
  | true => rw [hexText_of_oneDigit digits]; rfl
  | false => rw [hexText_of_twoDigits digits]; rfl

theorem hexText_inj (places : oneDigit a = oneDigit b) (same : hexText a = hexText b) : a = b := by
  apply UInt8.toNat_inj.mp
  have boundedA := a.toNat_lt
  have boundedB := b.toNat_lt
  cases digits : oneDigit a with
  | true =>
      rw [hexText_of_oneDigit digits, hexText_of_oneDigit (places ▸ digits)] at same
      have small' : oneDigit b = true := places ▸ digits
      exact digitChar_inj_of_lt (of_decide_eq_true digits) (of_decide_eq_true small')
        (List.head_eq_of_cons_eq same)
  | false =>
      rw [hexText_of_twoDigits digits, hexText_of_twoDigits (places ▸ digits)] at same
      obtain ⟨high, low⟩ := List.cons.inj same
      have low := List.head_eq_of_cons_eq low
      have high := digitChar_inj_of_lt (by omega) (by omega) high
      have low := digitChar_inj_of_lt (by omega) (by omega) low
      omega

/-! ## The digits of a block -/

theorem length_digits (data : List UInt8) :
    (data.flatMap hexText).length + (oneDigits data).count true = 2 * data.length := by
  induction data with
  | nil => rfl
  | cons byte rest ih =>
      rw [List.flatMap_cons, List.length_append, oneDigits, List.map_cons, List.count_cons, ← oneDigits,
        length_hexText, List.length_cons]
      cases oneDigit byte with
      | true => simp only [if_true, beq_self_eq_true]; omega
      | false => simp only [Bool.false_eq_true, if_false, beq_true]; omega

/-- Digits in the same places are those of the same bytes. -/
theorem digits_inj (places : oneDigits first = oneDigits second)
    (same : first.flatMap hexText = second.flatMap hexText) : first = second := by
  induction first generalizing second with
  | nil => exact (List.map_eq_nil_iff.mp places.symm).symm
  | cons a rest ih =>
      cases second with
      | nil => cases places
      | cons b others =>
          obtain ⟨head, tail⟩ := List.cons.inj places
          have width : (hexText a).length = (hexText b).length := by
            rw [length_hexText, length_hexText, head]
          obtain ⟨text, texts⟩ := List.append_inj same width
          rw [hexText_inj head text, ih tail texts]

theorem length_le_digits (data : List UInt8) : data.length ≤ (data.flatMap hexText).length := by
  have total := length_digits data
  have some : (oneDigits data).count true ≤ data.length := by
    simpa [oneDigits] using List.count_le_length (a := true) (l := oneDigits data)
  omega

/-- Only a single zero byte has the digit a block of zeros is given. -/
theorem digits_eq_zero (zero : first.flatMap hexText = ['0']) (nonempty : first ≠ []) :
    first.all (· == 0) = true := by
  have short := length_le_digits first
  rw [zero, List.length_singleton] at short
  obtain ⟨a, rfl⟩ : ∃ a, first = [a] :=
    List.length_eq_one_iff.mp (Nat.le_antisymm short (List.length_pos_iff.mpr nonempty))
  rw [List.flatMap_singleton] at zero
  cases digits : oneDigit a with
  | false => simp [hexText_of_twoDigits digits] at zero
  | true =>
      have zero : hexText a = hexText 0 := zero
      simp [hexText_inj (b := 0) digits zero]

theorem memoryToString_of_zeros (zeros : first.all (· == 0) = true) : memoryToString first = "0" :=
  if_pos zeros

theorem memoryToString_of_nonzero (nonzero : ¬first.all (· == 0) = true) :
    memoryToString first = String.ofList (first.flatMap hexText) :=
  if_neg nonzero

theorem eq_of_zeros (length : first.length = second.length) (zeros : first.all (· == 0) = true)
    (zeros' : second.all (· == 0) = true) : first = second := by
  have all : ∀ {data : List UInt8}, data.all (· == 0) = true → data = List.replicate data.length 0 :=
    fun holds => List.eq_replicate_iff.mpr ⟨rfl, by simpa using holds⟩
  rw [all zeros, all zeros', length]

/-- Only a block of zeros has the text of one. -/
theorem zeros_of_memoryToString (nonempty : first ≠ []) (zero : memoryToString first = "0") :
    first.all (· == 0) = true := by
  by_contra nonzero
  rw [memoryToString_of_nonzero nonzero] at zero
  exact nonzero (digits_eq_zero (String.ofList_inj.mp zero) nonempty)

/-- A text that two different blocks share is not that of zeros. -/
theorem nonzero_of_memoryToString (length : first.length = second.length) (nonempty : first ≠ [])
    (other : first ≠ second) (same : memoryToString first = memoryToString second) :
    ¬first.all (· == 0) = true := by
  have nonempty' : second ≠ [] := by
    rintro rfl
    exact nonempty (List.length_eq_zero_iff.mp length)
  intro zeros
  have zeros' := zeros_of_memoryToString nonempty' (same.symm.trans (memoryToString_of_zeros zeros))
  exact other (eq_of_zeros length zeros zeros')

/-- Equal texts of two different blocks are the digits of both. -/
theorem digits_of_memoryToString (length : first.length = second.length) (nonempty : first ≠ [])
    (other : first ≠ second) (same : memoryToString first = memoryToString second) :
    first.flatMap hexText = second.flatMap hexText := by
  have nonempty' : second ≠ [] := by
    rintro rfl
    exact nonempty (List.length_eq_zero_iff.mp length)
  have nonzero := nonzero_of_memoryToString length nonempty other same
  have nonzero' := nonzero_of_memoryToString length.symm nonempty' other.symm same.symm
  rw [memoryToString_of_nonzero nonzero, memoryToString_of_nonzero nonzero'] at same
  exact String.ofList_inj.mp same

/-! ## Which blocks are told apart -/

/-- Different blocks with their one-digit bytes in these places have different texts. -/
def Apart (places places' : List Bool) : Prop :=
  ∀ first second, oneDigits first = places → oneDigits second = places' → first ≠ second →
    memoryToString first ≠ memoryToString second

/-- All different blocks of this size have different texts. -/
def TellsBlocks (size : Nat) : Prop :=
  ∀ first second : List UInt8, first.length = size → second.length = size → first ≠ second →
    memoryToString first ≠ memoryToString second

/-- A hit is only ever counted for a block that was checked before. -/
def HitsWereSeen (cacheSize size : Nat) : Prop :=
  ∀ (blocks : List (List UInt8)) (block : List UInt8) (cache next : SimilarityCache),
    (∀ data ∈ blocks, data.length = size) → block.length = size →
    checkBlocks (.create cacheSize) blocks = some cache → checkBlock cache block = some next →
    next.numHit ≠ cache.numHit → block ∈ blocks

/-- A block of ones and of bytes with two digits one. -/
def ones (places : List Bool) : List UInt8 := places.map fun single => if single then 0x01 else 0x11

theorem oneDigits_ones (places : List Bool) : oneDigits (ones places) = places := by
  rw [oneDigits, ones, List.map_map]
  conv_rhs => rw [← List.map_id places]
  refine List.map_congr_left fun single _ => ?_
  cases single <;> rfl

theorem length_ones (places : List Bool) : (ones places).length = places.length := List.length_map _

theorem length_of_oneDigits {data : List UInt8} {places : List Bool} (shape : oneDigits data = places) :
    data.length = places.length := by
  rw [← shape, oneDigits, List.length_map]

theorem digits_ones (places : List Bool) :
    (ones places).flatMap hexText = List.replicate ((ones places).flatMap hexText).length '1' := by
  refine List.eq_replicate_iff.mpr ⟨rfl, fun digit member => ?_⟩
  obtain ⟨byte, inside, written⟩ := List.mem_flatMap.mp member
  obtain ⟨single, -, rfl⟩ := List.mem_map.mp inside
  cases single with
  | true => exact List.mem_singleton.mp written
  | false =>
      have both : digit ∈ ['1', '1'] := written
      simpa using both

/-- The text of a block of ones is its number of digits. -/
theorem memoryToString_ones {places places' : List Bool} (nonempty : places ≠ []) (nonempty' : places' ≠ [])
    (length : places.length = places'.length) (counts : places.count true = places'.count true) :
    memoryToString (ones places) = memoryToString (ones places') := by
  have nonzero : ∀ {places : List Bool}, places ≠ [] → ¬(ones places).all (· == 0) = true := by
    intro places nonempty zeros
    obtain ⟨single, rest, rfl⟩ := List.exists_cons_of_ne_nil nonempty
    cases single <;> simp [ones] at zeros
  have total := length_digits (ones places)
  have total' := length_digits (ones places')
  rw [oneDigits_ones, length_ones] at total total'
  have same : ((ones places).flatMap hexText).length = ((ones places').flatMap hexText).length := by omega
  rw [memoryToString_of_nonzero (nonzero nonempty), memoryToString_of_nonzero (nonzero nonempty'),
    digits_ones places, digits_ones places', same]

/-- Blocks are told apart where the one-digit bytes stand in the same places, or are not as many. -/
theorem apart_iff {places places' : List Bool} (nonempty : places ≠ []) (length : places.length = places'.length) :
    Apart places places' ↔ places = places' ∨ places.count true ≠ places'.count true := by
  have nonempty' : places' ≠ [] := by
    rintro rfl
    exact nonempty (List.length_eq_zero_iff.mp length)
  constructor
  · intro apart
    by_contra shapes
    obtain ⟨differ, counts⟩ := not_or.mp shapes
    refine apart (ones places) (ones places') (oneDigits_ones _) (oneDigits_ones _) ?_
      (memoryToString_ones nonempty nonempty' length (not_ne_iff.mp counts))
    intro same
    exact differ (by rw [← oneDigits_ones places, same, oneDigits_ones])
  · rintro shapes first second rfl rfl differ same
    have lengths : first.length = second.length := by
      simpa [oneDigits] using length
    have nonempty : first ≠ [] := by
      rintro rfl
      exact nonempty rfl
    have digits := digits_of_memoryToString lengths nonempty differ same
    rcases shapes with places | counts
    · exact differ (digits_inj places digits)
    · have total := length_digits first
      have total' := length_digits second
      rw [digits, lengths] at total
      omega

/-- Only single bytes are always told apart. -/
theorem tellsBlocks_iff (positive : 1 ≤ n) : TellsBlocks n ↔ n = 1 := by
  constructor
  · intro tells
    by_contra several
    obtain ⟨rest, rfl⟩ : ∃ rest, n = rest + 2 := ⟨n - 2, by omega⟩
    let places := true :: false :: List.replicate rest true
    let places' := false :: true :: List.replicate rest true
    have apart : Apart places places' := by
      intro first second shape shape'
      refine tells first second ?_ ?_
      · simpa [places] using length_of_oneDigits shape
      · simpa [places'] using length_of_oneDigits shape'
    rcases (apart_iff (by simp [places]) (by simp [places, places'])).mp apart with same | counts
    · cases (List.cons.inj same).1
    · exact counts (by simp [places, places'])
  · rintro rfl first second length length' differ
    obtain ⟨a, rfl⟩ := List.length_eq_one_iff.mp length
    obtain ⟨b, rfl⟩ := List.length_eq_one_iff.mp length'
    refine (apart_iff (by simp [oneDigits]) (by simp [oneDigits])).mpr ?_ [a] [b] rfl rfl differ
    cases single : oneDigit a <;> cases single' : oneDigit b <;> simp [oneDigits, single, single']

/-! ## Hits -/

variable {cacheSize size : Nat}

/-- Any blocks can be checked, and the hit counter moves with the strings of the blocks. -/
theorem checkBlock_hit (held : SimilarityCache.toInt cacheSize = n) (positive : 1 ≤ n)
    (blocks : List (List UInt8)) (block : List UInt8) :
    ∃ cache next, checkBlocks (.create cacheSize) blocks = some cache ∧ checkBlock cache block = some next ∧
      (next.numHit ≠ cache.numHit ↔ SimilarityCache.IsHit n (blocks.map memoryToString) (memoryToString block)) := by
  obtain ⟨cache, done, tracks⟩ :=
    SimilarityCache.checkAndUpdateAll_tracks held positive (blocks.map memoryToString)
  obtain ⟨next, called, tracks'⟩ := tracks.call positive (memoryToString block)
  refine ⟨cache, next, ?_, called, ?_⟩
  · rw [← done, SimilarityCache.checkAndUpdateAll, List.foldlM_map]
    rfl
  · rw [tracks'.numHit, SimilarityCache.hits_append_singleton, ← tracks.numHit]
    split <;> simp_all

theorem hitsWereSeen_of_tellsBlocks (held : SimilarityCache.toInt cacheSize = n) (positive : 1 ≤ n)
    (tells : TellsBlocks size) : HitsWereSeen cacheSize size := by
  intro blocks block cache next lengths length done called hit
  obtain ⟨cache', next', done', called', iff⟩ := checkBlock_hit held positive blocks block
  obtain rfl : cache' = cache := Option.some.inj (done'.symm.trans done)
  obtain rfl : next' = next := Option.some.inj (called'.symm.trans called)
  obtain ⟨-, recently⟩ := iff.mp hit
  have seen := mem_recent.mp (List.mem_of_mem_take recently)
  obtain ⟨data, member, same⟩ := List.mem_map.mp (List.mem_of_mem_filter seen)
  by_contra unseen
  have other : data ≠ block := fun same => unseen (same ▸ member)
  exact tells data block (lengths data member) length other same

/-- The second of two blocks that share a text is a hit. -/
theorem tellsBlocks_of_hitsWereSeen (held : SimilarityCache.toInt cacheSize = n) (positive : 1 ≤ n)
    (nonempty : 1 ≤ size) (seen : HitsWereSeen cacheSize size) : TellsBlocks size := by
  intro first second length length' differ same
  obtain ⟨cache, next, done, called, iff⟩ := checkBlock_hit held positive [first] second
  have nonempty' : second ≠ [] := List.length_pos_iff.mp (length' ▸ nonempty)
  have nonzero : memoryToString second ≠ "0" := fun zero =>
    nonzero_of_memoryToString (length'.trans length.symm) nonempty' differ.symm same.symm
      (zeros_of_memoryToString nonempty' zero)
  obtain ⟨last, rfl⟩ : ∃ last, n = last + 1 := ⟨n - 1, by omega⟩
  have hit : SimilarityCache.IsHit (last + 1) [memoryToString first] (memoryToString second) := by
    refine ⟨nonzero, ?_⟩
    have requested : SimilarityCache.requests [memoryToString first] = [memoryToString second] := by
      simp [SimilarityCache.requests, same, nonzero]
    simp [requested, recent]
  have member := seen [first] second cache next (by simpa using length) length' done called (iff.mpr hit)
  exact differ (List.mem_singleton.mp member).symm

/-- For blocks of any size: those with one-digit bytes in the same places, or in different numbers, have
different texts, all blocks only if they are single bytes, and so it is with the hits of a similarity cache. -/
theorem memory_to_string_tells_iff (size : Nat) (nonempty : 1 ≤ size) :
    (∀ places places' : List Bool, places.length = size → places'.length = size →
      (Apart places places' ↔ places = places' ∨ places.count true ≠ places'.count true)) ∧
    (TellsBlocks size ↔ size = 1) ∧
    ∀ cacheSize n : Nat, SimilarityCache.toInt cacheSize = n → 1 ≤ n →
      (HitsWereSeen cacheSize size ↔ size = 1) := by
  refine ⟨?_, tellsBlocks_iff nonempty, ?_⟩
  · intro places places' length length'
    exact apart_iff (List.length_pos_iff.mp (length ▸ nonempty)) (length.trans length'.symm)
  · intro cacheSize n held positive
    rw [← tellsBlocks_iff nonempty]
    exact ⟨tellsBlocks_of_hitsWereSeen held positive nonempty, hitsWereSeen_of_tellsBlocks held positive⟩

/-- The blocks of a turn have 32 bytes. -/
theorem memory_to_string_tells_iff_at_turn :
    (∀ places places' : List Bool, places.length = 32 → places'.length = 32 →
      (Apart places places' ↔ places = places' ∨ places.count true ≠ places'.count true)) ∧
    (TellsBlocks 32 ↔ 32 = 1) ∧
    ∀ cacheSize n : Nat, SimilarityCache.toInt cacheSize = n → 1 ≤ n →
      (HitsWereSeen cacheSize 32 ↔ 32 = 1) :=
  memory_to_string_tells_iff 32 (by decide)

/-- The 32 bytes of a turn, all but the first two zero. -/
def padded (a b : UInt8) : List UInt8 := a :: b :: List.replicate 30 0

/-- `01 23` and `12 03` are both written `123`: the second block is a hit though only the first was seen. -/
theorem padded_share_text :
    (padded 0x01 0x23).length = 32 ∧ (padded 0x12 0x03).length = 32 ∧ padded 0x01 0x23 ≠ padded 0x12 0x03 ∧
      memoryToString (padded 0x01 0x23) = memoryToString (padded 0x12 0x03) ∧
      (checkBlocks (.create 4) [padded 0x01 0x23, padded 0x12 0x03]).map SimilarityCache.numHit = some 1 := by
  decide

end GpgpuSim.Partition.MemoryPartitionUnit
