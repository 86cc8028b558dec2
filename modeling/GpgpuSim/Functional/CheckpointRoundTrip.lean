import GpgpuSim.Functional.MemoryCheckpoint
import Mathlib.Tactic.IntervalCases

/-! What loading a checkpoint gives. When `index` keeps its value from pass to pass, the loaded
memory has the bytes of the stored one; whatever `index` may hold, only a memory of zeros is safe. -/
namespace GpgpuSim.Functional
open FlatMemory Transition Text

/-! ## The reads of equal bytes -/

namespace MemorySpaceImpl

variable {k count : Nat} {space other : MemorySpaceImpl (2 ^ k)} {addr length start current remain position fuel : Nat}
  {data : Buffer}

/-- A block read depends on the bytes only. -/
theorem readSingleBlock_eq (blocks : Blocks (2 ^ k) count) (addressed : addr < 2 ^ 32) (short : length < 2 ^ 63) :
    space.readSingleBlock (addr / 2 ^ k) addr length data start =
      if addr + length ≤ (addr / 2 ^ k + 1) * 2 ^ k % 2 ^ 32 then
        .ok (copy data start (shift space.byte addr) length)
      else .error (.thrown 1) := by
  split
  · next fast =>
      refine read_block blocks (fast_fits fast) ?_
      have known := blocks.index_lt addressed
      by_contra late
      have last : addr / 2 ^ k + 1 = count := by omega
      have several := blocks.several
      rw [blocks.limit known, if_pos last] at fast
      have zero : addr = 0 := by omega
      rw [zero, Nat.zero_div] at last
      omega
  · next behind => exact read_behind (Nat.lt_of_not_le behind) (by omega)

theorem readBlocks_congr (blocks : Blocks (2 ^ k) count) (log2 : space.log2BlockSize = k)
    (log2' : other.log2BlockSize = k) (bytes : other.byte = space.byte) (addressed : current < 2 ^ 32) :
    other.readBlocks data current position remain fuel = space.readBlocks data current position remain fuel := by
  induction fuel generalizing data current position remain with
  | zero => rfl
  | succ fuel ih =>
      have tx : txBytes (2 ^ k) (current % 2 ^ k) remain < 2 ^ 63 :=
        (Nat.mod_lt _ (by decide)).trans (by decide : 2 ^ 32 < 2 ^ 63)
      have rest : ∀ data tx position remain,
          other.readBlocks data ((current + tx) % 2 ^ 32) position remain fuel =
            space.readBlocks data ((current + tx) % 2 ^ 32) position remain fuel :=
        fun _ _ _ _ => ih (Nat.mod_lt _ (by decide))
      simp only [readBlocks, Nat.shiftRight_eq_div_pow, log2, log2', Nat.and_two_pow_sub_one_eq_mod,
        readSingleBlock_eq blocks addressed tx, bytes, rest]

theorem read_congr (blocks : Blocks (2 ^ k) count) (log2 : space.log2BlockSize = k) (log2' : other.log2BlockSize = k)
    (bytes : other.byte = space.byte) : SameReads space other := by
  intro addr length data addressed short
  have wide : addr + length < 2 ^ 64 := by omega
  simp only [read, Nat.shiftRight_eq_div_pow, log2, log2', readSingleBlock_eq blocks addressed short, bytes,
    readBlocks_congr blocks log2 log2' bytes addressed]

/-- A read of one byte below the last block shows it. -/
theorem byte_of_sameReads (blocks : Blocks (2 ^ k) count) (log2 : space.log2BlockSize = k)
    (log2' : other.log2BlockSize = k) (same : SameReads space other) (clear : addr + 1 + 2 ^ k ≤ 2 ^ 32) :
    other.byte addr = space.byte addr := by
  have pos := Nat.two_pow_pos k
  have reads := same addr 1 (fun _ => 0) (by omega) (by decide)
  rw [read_ok blocks log2' (by omega) (by omega) (.inr clear), read_ok blocks log2 (by omega) (by omega) (.inr clear)]
    at reads
  have first := congrFun (Except.ok.inj reads) 0
  simpa [copy, shift] using first

/-- The block of an address and the offset in it. -/
theorem block_offset {i o : Nat} (inside : o < 2 ^ k) : (2 ^ k * i + o) / 2 ^ k = i ∧ (2 ^ k * i + o) % 2 ^ k = o := by
  constructor
  · rw [Nat.mul_add_div (Nat.two_pow_pos k), Nat.div_eq_of_lt inside, Nat.add_zero]
  · rw [Nat.mul_add_mod, Nat.mod_eq_of_lt inside]

theorem byte_block {storage : MemStorage (2 ^ k)} {i o : Nat} (held : space.data i = some storage)
    (inside : o < 2 ^ k) :
    space.byte (2 ^ k * i + o) = storage.data o := by
  obtain ⟨block, offset⟩ := block_offset (i := i) inside
  simp only [byte, block, offset, held]

end MemorySpaceImpl

/-! ## What a line of data writes -/

section
variable {k : Nat} {space : MemorySpaceImpl (2 ^ k)} {state after : LoadState (2 ^ k)} {word : BitVec 32}

theorem wordBytes_word {storage : MemStorage (2 ^ k)} {d j : Nat} (small : j < 4) :
    wordBytes (storage.word d) j = storage.data (4 * d + j) := by
  have b₀ := (storage.data (4 * d)).toNat_lt
  have b₁ := (storage.data (4 * d + 1)).toNat_lt
  have b₂ := (storage.data (4 * d + 2)).toNat_lt
  have b₃ := (storage.data (4 * d + 3)).toNat_lt
  apply UInt8.toNat_inj.mp
  simp only [wordBytes, MemStorage.word, UInt8.toNat_ofNat', BitVec.toNat_ofNat]
  interval_cases j
  · change _ = (storage.data (4 * d)).toNat
    omega
  all_goals omega

theorem LoadState.data_ok (state : LoadState (2 ^ k)) (fits : state.offset.toNat + 4 ≤ 2 ^ k) (word : BitVec 32) :
    ∃ after, state.data word = .ok after ∧ after.index = state.index ∧ after.offset = state.offset + 4 ∧
      after.space.log2BlockSize = state.space.log2BlockSize ∧
      after.space.byte = copy state.space.byte (2 ^ k * state.index.toNat + state.offset.toNat) (wordBytes word) 4 := by
  obtain ⟨block, offset⟩ :=
    MemorySpaceImpl.block_offset (i := state.index.toNat) (by omega : state.offset.toNat < 2 ^ k)
  obtain ⟨written, done, log2, bytes⟩ := @MemorySpaceImpl.byte_writeBlock k state.space
    (2 ^ k * state.index.toNat + state.offset.toNat) 4 (wordBytes word) (by rw [offset]; exact fits)
  rw [block, offset] at done
  refine ⟨{ state with space := written, offset := state.offset + 4 }, ?_, rfl, rfl, log2, bytes⟩
  rw [LoadState.data, MemorySpaceImpl.writeOnly, done]
  rfl

theorem LoadState.data_fits (done : state.data word = .ok after) : state.offset.toNat + 4 ≤ 2 ^ k := by
  by_contra behind
  simp only [LoadState.data, MemorySpaceImpl.writeOnly, MemorySpaceImpl.writeBlock, MemStorage.write, if_neg behind]
    at done
  contradiction

theorem copy_other_block {bytes source : Buffer} {i o length a : Nat} (fits : o + length ≤ 2 ^ k)
    (other : a / 2 ^ k ≠ i) : copy bytes (2 ^ k * i + o) source length a = bytes a := by
  refine copy_outside ?_
  rintro ⟨lower, upper⟩
  refine other (Nat.div_eq_of_lt_le ?_ ?_)
  · rw [Nat.mul_comm]
    omega
  · rw [Nat.succ_mul, Nat.mul_comm]
    omega

/-- A block copied over from a memory. -/
theorem copy_block {bytes source : Buffer} {i a : Nat} :
    copy bytes (2 ^ k * i) (shift source (2 ^ k * i)) (2 ^ k) a = if i = a / 2 ^ k then source a else bytes a := by
  split
  · next inBlock =>
      have split := Nat.div_add_mod a (2 ^ k)
      have bound := Nat.mod_lt a (Nat.two_pow_pos k)
      rw [inBlock, copy_inside (by omega) (by omega), shift]
      congr 1
      omega
  · next other => exact copy_other_block (o := 0) (by omega) (Ne.symm other)

end

/-! ## Loading record by record -/

section
variable {k j n : Nat} {start : StartIndex} {state after : LoadState (2 ^ k)} {records more : List Record}

theorem loadRecords_append : loadRecords start j state (records ++ more) =
    loadRecords start j state records >>= fun state => loadRecords start (j + records.length) state more := by
  induction records generalizing j state with
  | nil => rfl
  | cons record records ih =>
      simp only [List.cons_append, loadRecords, bind_assoc, ih, List.length_cons]
      refine bind_congr fun _ => bind_congr fun _ => ?_
      rw [Nat.add_assoc, Nat.add_comm 1]

/-- The lines of a block's data, with what holds after the first `d` of them. -/
theorem loadRecords_range (start : StartIndex) (j : Nat) {inv : Nat → LoadState (2 ^ k) → Prop}
    {words : Nat → BitVec 32} (base : inv 0 state) (step : ∀ d < n, ∀ j state, inv d state →
      ∃ after, LoadState.data { state with index := start j state.index } (words d) = .ok after ∧ inv (d + 1) after) :
    ∃ after, loadRecords start j state ((List.range n).map fun d => .data (words d)) = .ok after ∧ inv n after := by
  induction n with
  | zero => exact ⟨state, rfl, base⟩
  | succ n ih =>
      obtain ⟨middle, earlier, holds⟩ := ih fun d small => step d (Nat.lt_succ_of_lt small)
      obtain ⟨after, done, last⟩ := step n (Nat.lt_succ_self n) (j + n) middle holds
      refine ⟨after, ?_, last⟩
      rw [List.range_succ, List.map_append, loadRecords_append, earlier]
      simp only [List.length_map, List.length_range]
      change loadRecords start (j + n) middle [.data (words n)] = .ok after
      rw [loadRecords, Record.perform, done]
      rfl

/-- While `index` starts each pass with one value, no other block is written. -/
theorem loadRecords_elsewhere (index : BitVec 32)
    (fixed : ∀ i, j ≤ i → i < j + records.length → ∀ last, start i last = index)
    (done : loadRecords start j state records = .ok after) :
    after.space.log2BlockSize = state.space.log2BlockSize ∧
      ∀ a, a / 2 ^ k ≠ index.toNat → after.space.byte a = state.space.byte a := by
  induction records generalizing j state with
  | nil =>
      cases done
      exact ⟨rfl, fun _ _ => rfl⟩
  | cons record records ih =>
      rw [List.length_cons] at fixed
      obtain ⟨middle, first, rest⟩ := bind_ok.mp done
      have later := ih (fun i lower upper => fixed i (by omega) (by omega)) rest
      rw [fixed j (Nat.le_refl j) (by omega)] at first
      cases record with
      | header page =>
          cases first
          exact later
      | data word =>
          have fits := LoadState.data_fits first
          obtain ⟨written, again, -, -, log2, bytes⟩ := LoadState.data_ok _ fits word
          obtain rfl := Except.ok.inj (again.symm.trans first)
          refine ⟨later.1.trans log2, fun a other => ?_⟩
          rw [later.2 a other, bytes, copy_other_block fits other]

end

/-! ## A stored memory -/

section
variable {k j : Nat} {start : StartIndex} {name : List Char} {pages : List (BitVec 32)}
  {space empty loaded : MemorySpaceImpl (2 ^ k)} {storage : MemStorage (2 ^ k)} {page : BitVec 32}
  {state : LoadState (2 ^ k)}

theorem words_fill (word : 2 ≤ k) : 4 * (2 ^ k / 4) = 2 ^ k :=
  Nat.mul_div_cancel' (pow_dvd_pow 2 word)

theorem block_lt (small : k < 32) : 2 ^ k < 2 ^ 32 := Nat.pow_lt_pow_right (by decide) small

/-- The offset behind the words of a block that are loaded. -/
theorem offset_succ {d : Nat} (small : k < 32) (word : 2 ≤ k) (inside : d < 2 ^ k / 4) {offset : BitVec 32}
    (at_ : offset.toNat = 4 * d) : offset.toNat + 4 ≤ 2 ^ k ∧ (offset + 4).toNat = 4 * (d + 1) := by
  have fill := words_fill word
  have bound := block_lt small
  have fits : offset.toNat + 4 ≤ 2 ^ k := by omega
  have four : (4 : BitVec 32).toNat = 4 := rfl
  refine ⟨fits, ?_⟩
  rw [BitVec.toNat_add, four]
  omega

/-- The block has its first `d` words over the bytes that were there. -/
structure WordsLoaded (space : MemorySpaceImpl (2 ^ k)) (page : BitVec 32) (state : LoadState (2 ^ k)) (d : Nat)
    (loading : LoadState (2 ^ k)) : Prop where
  index : loading.index = page
  offset : loading.offset.toNat = 4 * d
  log2 : loading.space.log2BlockSize = state.space.log2BlockSize
  bytes : loading.space.byte =
    copy state.space.byte (2 ^ k * page.toNat) (shift space.byte (2 ^ k * page.toNat)) (4 * d)

theorem WordsLoaded.data {loading : LoadState (2 ^ k)} {d : Nat} (loaded : WordsLoaded space page state d loading)
    (small : k < 32) (word : 2 ≤ k) (held : space.data page.toNat = some storage) (inside : d < 2 ^ k / 4) :
    ∃ after, loading.data (storage.word d) = .ok after ∧ WordsLoaded space page state (d + 1) after := by
  have fill := words_fill word
  obtain ⟨fits, next⟩ := offset_succ small word inside loaded.offset
  obtain ⟨after, done, index, offset, log2, bytes⟩ := loading.data_ok fits (storage.word d)
  refine ⟨after, done, index.trans loaded.index, by rw [offset, next], log2.trans loaded.log2, ?_⟩
  have source : ∀ i < 4, wordBytes (storage.word d) i = shift (shift space.byte (2 ^ k * page.toNat)) (4 * d) i := by
    intro i least
    have inBlock : 4 * d + i < 2 ^ k := by omega
    rw [wordBytes_word least, shift_shift, shift, Nat.add_assoc, MemorySpaceImpl.byte_block held inBlock]
  rw [bytes, loaded.bytes, loaded.index, loaded.offset, copy_congr source, copy_append, Nat.mul_succ]

/-- A block that is loaded with the index of its header. -/
theorem loadRecords_block (j : Nat) (state : LoadState (2 ^ k)) (small : k < 32) (word : 2 ≤ k)
    (held : space.data page.toNat = some storage) :
    ∃ after, loadRecords keptIndex j state (storage.records page) = .ok after ∧
      after.space.log2BlockSize = state.space.log2BlockSize ∧
      after.space.byte =
        copy state.space.byte (2 ^ k * page.toNat) (shift space.byte (2 ^ k * page.toNat)) (2 ^ k) := by
  have first : WordsLoaded space page state 0 (state.header page) := ⟨rfl, rfl, rfl, copy_zero.symm⟩
  obtain ⟨after, done, loaded⟩ := loadRecords_range keptIndex (j + 1) first
    fun d inside _ loading loaded => loaded.data small word held inside
  refine ⟨after, done, loaded.log2, ?_⟩
  rw [loaded.bytes, words_fill word]

theorem records_cons (held : space.data page.toNat = some storage) :
    space.records (page :: pages) = storage.records page ++ space.records pages := by
  simp only [MemorySpaceImpl.records, List.flatMap_cons, held]

/-- Loading the blocks of a list gives their bytes. -/
theorem loadRecords_kept (j : Nat) (state : LoadState (2 ^ k)) (small : k < 32) (word : 2 ≤ k)
    (held : ∀ page ∈ pages, (space.data page.toNat).isSome) :
    ∃ after, loadRecords keptIndex j state (space.records pages) = .ok after ∧
      after.space.log2BlockSize = state.space.log2BlockSize ∧
      ∀ a, after.space.byte a =
        if ∃ page ∈ pages, page.toNat = a / 2 ^ k then space.byte a else state.space.byte a := by
  induction pages generalizing j state with
  | nil => exact ⟨state, rfl, rfl, fun a => by simp⟩
  | cons page pages ih =>
      obtain ⟨here, held⟩ := List.forall_mem_cons.mp held
      obtain ⟨storage, stored⟩ := Option.isSome_iff_exists.mp here
      obtain ⟨middle, first, log2, bytes⟩ := loadRecords_block j state small word stored
      obtain ⟨after, rest, log2', bytes'⟩ := ih (j + (storage.records page).length) middle held
      refine ⟨after, ?_, log2'.trans log2, fun a => ?_⟩
      · rw [records_cons stored, loadRecords_append, first]
        exact rest
      · rw [bytes' a, bytes, copy_block]
        simp only [List.exists_mem_cons_iff]
        by_cases later : ∃ page ∈ pages, page.toNat = a / 2 ^ k
        · rw [if_pos later, if_pos (.inr later)]
        · simp only [later, or_false, if_false]

/-- The first `d` words of a block of zeros went somewhere. -/
structure ZerosLoaded (state : LoadState (2 ^ k)) (d : Nat) (loading : LoadState (2 ^ k)) : Prop where
  offset : loading.offset.toNat = 4 * d
  log2 : loading.space.log2BlockSize = state.space.log2BlockSize
  bytes : loading.space.byte = fun _ => 0

theorem ZerosLoaded.data {loading : LoadState (2 ^ k)} {d : Nat} (loaded : ZerosLoaded state d loading) (small : k < 32)
    (word : 2 ≤ k) (zeros : ∀ o < 2 ^ k, storage.data o = 0) (inside : d < 2 ^ k / 4) (index : BitVec 32) :
    ∃ after, LoadState.data { loading with index } (storage.word d) = .ok after ∧ ZerosLoaded state (d + 1) after := by
  have fill := words_fill word
  obtain ⟨fits, next⟩ := offset_succ small word inside loaded.offset
  obtain ⟨after, done, -, offset, log2, bytes⟩ := LoadState.data_ok { loading with index } fits (storage.word d)
  refine ⟨after, done, by rw [offset, next], log2.trans loaded.log2, ?_⟩
  have source : ∀ i < 4, wordBytes (storage.word d) i = (fun _ => 0 : Buffer) i := by
    intro i least
    rw [wordBytes_word least, zeros _ (by omega)]
  rw [bytes, loaded.bytes, copy_congr source]
  funext a
  simp [copy]

/-- Words of zeros leave a memory of zeros, wherever they go. -/
theorem loadRecords_zeroBlock (start : StartIndex) (j : Nat) (page : BitVec 32) (small : k < 32) (word : 2 ≤ k)
    (zeros : ∀ o < 2 ^ k, storage.data o = 0) (blank : state.space.byte = fun _ => 0) :
    ∃ after, loadRecords start j state (storage.records page) = .ok after ∧
      after.space.log2BlockSize = state.space.log2BlockSize ∧ after.space.byte = fun _ => 0 := by
  have first : ZerosLoaded state 0 (state.header page) := ⟨rfl, rfl, blank⟩
  obtain ⟨after, done, loaded⟩ := loadRecords_range start (j + 1) first
    fun d inside i loading loaded => loaded.data small word zeros inside (start i loading.index)
  exact ⟨after, done, loaded.log2, loaded.bytes⟩

theorem loadRecords_zeros (start : StartIndex) (j : Nat) (state : LoadState (2 ^ k)) (small : k < 32) (word : 2 ≤ k)
    (zeros : ∀ page ∈ pages, ∀ storage, space.data page.toNat = some storage → ∀ o < 2 ^ k, storage.data o = 0)
    (blank : state.space.byte = fun _ => 0) :
    ∃ after, loadRecords start j state (space.records pages) = .ok after ∧
      after.space.log2BlockSize = state.space.log2BlockSize ∧ after.space.byte = fun _ => 0 := by
  induction pages generalizing j state with
  | nil => exact ⟨state, rfl, rfl, blank⟩
  | cons page pages ih =>
      obtain ⟨here, zeros⟩ := List.forall_mem_cons.mp zeros
      cases stored : space.data page.toNat with
      | none =>
          have same : space.records (page :: pages) = space.records pages := by
            simp only [MemorySpaceImpl.records, List.flatMap_cons, stored, List.nil_append]
          rw [same]
          exact ih j state zeros blank
      | some storage =>
          obtain ⟨middle, first, log2, bytes⟩ :=
            loadRecords_zeroBlock start j page small word (here storage stored) blank
          obtain ⟨after, rest, log2', bytes'⟩ := ih (j + (storage.records page).length) middle zeros bytes
          refine ⟨after, ?_, log2'.trans log2, bytes'⟩
          rw [records_cons stored, loadRecords_append, first]
          exact rest

/-! ## What an index that strays shows -/

theorem roundTrip_iff (valid : HeaderName name) : RoundTrip start name pages space empty ↔
    ∀ offset index, ∃ state, loadRecords start 0 { space := empty, offset, index } (space.records pages) = .ok state ∧
      SameReads space state.space := by
  refine forall_congr' fun offset => forall_congr' fun index => ?_
  rw [loadGlobalMem_eq valid]
  constructor
  · rintro ⟨loaded, done, same⟩
    obtain ⟨state, loaded', rfl⟩ := map_ok.mp done
    exact ⟨state, loaded', same⟩
  · rintro ⟨state, done, same⟩
    exact ⟨state.space, by rw [done]; rfl, same⟩

/-- With the index of the last header every stored memory comes back. -/
theorem roundTrip_kept (small : k < 32) (word : 2 ≤ k) (valid : HeaderName name) (log2 : space.log2BlockSize = k)
    (log2' : empty.log2BlockSize = k) (blank : empty.byte = fun _ => 0) (listed : Lists pages space) :
    RoundTrip keptIndex name pages space empty := by
  refine (roundTrip_iff valid).mpr fun offset index => ?_
  obtain ⟨state, done, kept, bytes⟩ := loadRecords_kept 0 { space := empty, offset, index } small word
    fun page mem => (listed page.toNat).mpr ⟨page, mem, rfl⟩
  have same : state.space.byte = space.byte := by
    funext a
    rw [bytes a]
    split
    · rfl
    · next absent =>
        have none : space.data (a / 2 ^ k) = none := by
          rw [← Option.not_isSome_iff_eq_none]
          exact fun held => absent ((listed _).mp held)
        exact (congrFun blank a).trans (by simp only [MemorySpaceImpl.byte, none])
  exact ⟨state, done, MemorySpaceImpl.read_congr (Blocks.of_pow small) log2 (kept.trans log2') same⟩

/-- A memory of zeros comes back with any index. -/
theorem roundTrip_zeros (small : k < 32) (word : 2 ≤ k) (valid : HeaderName name) (log2 : space.log2BlockSize = k)
    (log2' : empty.log2BlockSize = k) (blank : empty.byte = fun _ => 0)
    (zeros : ∀ i storage, space.data i = some storage → ∀ o < 2 ^ k, storage.data o = 0) :
    RoundTrip start name pages space empty := by
  refine (roundTrip_iff valid).mpr fun offset index => ?_
  obtain ⟨state, done, kept, bytes⟩ := loadRecords_zeros start 0 { space := empty, offset, index } small word
    (fun page _ storage held => zeros page.toNat storage held) blank
  have same : state.space.byte = space.byte := by
    funext a
    rw [bytes, MemorySpaceImpl.byte]
    cases held : space.data (a / 2 ^ k) with
    | none => rfl
    | some storage => exact (zeros _ storage held _ (Nat.mod_lt a (Nat.two_pow_pos k))).symm
  exact ⟨state, done, MemorySpaceImpl.read_congr (Blocks.of_pow small) log2 (kept.trans log2') same⟩

/-- No address lies in the block with the last index of 32 bits. -/
theorem index_ne_allOnes {a : Nat} (word : 2 ≤ k) (addressed : a < 2 ^ 32) : a / 2 ^ k ≠ (BitVec.allOnes 32).toNat := by
  have four : 2 ^ 2 ≤ 2 ^ k := Nat.pow_le_pow_right (by decide) word
  have least : a / 2 ^ k ≤ a / 4 := Nat.div_le_div_left four (by decide)
  rw [BitVec.toNat_allOnes]
  omega

/-- When all data strays out of the address space, the reads that agree are zero. -/
theorem byte_eq_zero (blocks : Blocks (2 ^ k) (2 ^ (32 - k))) (word : 2 ≤ k) (valid : HeaderName name)
    (log2 : space.log2BlockSize = k) (log2' : empty.log2BlockSize = k) (blank : empty.byte = fun _ => 0)
    (roundTrip : RoundTrip (fun _ _ => BitVec.allOnes 32) name pages space empty) {a : Nat}
    (clear : a + 1 + 2 ^ k ≤ 2 ^ 32) : space.byte a = 0 := by
  have pos := Nat.two_pow_pos k
  obtain ⟨state, done, same⟩ := (roundTrip_iff valid).mp roundTrip 0 0
  obtain ⟨kept, elsewhere⟩ := loadRecords_elsewhere (BitVec.allOnes 32) (fun _ _ _ _ => rfl) done
  have shown := MemorySpaceImpl.byte_of_sameReads blocks log2 (kept.trans log2') same clear
  rw [← shown, elsewhere a (index_ne_allOnes word (by omega)), blank]

/-- A word that is not zero shows when it is the only one that strays into the address space. -/
theorem zeros_of_roundTrip (blocks : Blocks (2 ^ k) (2 ^ (32 - k))) (word : 2 ≤ k) (valid : HeaderName name)
    (log2 : space.log2BlockSize = k) (log2' : empty.log2BlockSize = k) (blank : empty.byte = fun _ => 0)
    (listed : Lists pages space) (every : ∀ start, RoundTrip start name pages space empty) {i o : Nat}
    (held : space.data i = some storage) (inside : o < 2 ^ k) : storage.data o = 0 := by
  by_contra nonzero
  have half := blocks.twice_le
  obtain ⟨page, mem, same⟩ := (listed i).mp (by rw [held]; rfl)
  have there : Record.data (storage.word (o / 4)) ∈ space.records pages := by
    have fill := words_fill word
    refine List.mem_flatMap.mpr ⟨page, mem, ?_⟩
    rw [same, held]
    exact List.mem_cons_of_mem _ (List.mem_map.mpr ⟨o / 4, List.mem_range.mpr (by omega), rfl⟩)
  obtain ⟨before, later, split⟩ := List.append_of_mem there
  -- only the pass of this word starts with an index of the address space
  let start : StartIndex := fun j _ => if j = 0 + before.length then 0 else BitVec.allOnes 32
  obtain ⟨state, done, reads⟩ := (roundTrip_iff valid).mp (every start) 0 0
  rw [split, loadRecords_append] at done
  obtain ⟨middle, first, rest⟩ := bind_ok.mp done
  obtain ⟨written, step, rest⟩ := bind_ok.mp rest
  obtain ⟨kept, -⟩ := loadRecords_elsewhere (BitVec.allOnes 32)
    (fun j _ upper _ => if_neg (by omega)) first
  obtain ⟨kept', elsewhere⟩ := loadRecords_elsewhere (BitVec.allOnes 32)
    (fun j lower _ _ => if_neg (by omega)) rest
  have fits := LoadState.data_fits step
  obtain ⟨again, writes, -, -, kept'', bytes⟩ := LoadState.data_ok _ fits (storage.word (o / 4))
  obtain rfl := Except.ok.inj (writes.symm.trans step)
  have block : (start (0 + before.length) middle.index).toNat = 0 := congrArg BitVec.toNat (if_pos rfl)
  simp only [block] at bytes fits
  rw [Nat.mul_zero, Nat.zero_add] at bytes
  have least : o % 4 < 4 := Nat.mod_lt o (by decide)
  have shown : again.space.byte (middle.offset.toNat + o % 4) = storage.data o := by
    rw [bytes, copy_inside (by omega) (by omega), Nat.add_sub_cancel_left, wordBytes_word least, Nat.div_add_mod]
  have log2State : state.space.log2BlockSize = k := by rw [kept', kept'', kept, log2']
  have loaded := MemorySpaceImpl.byte_of_sameReads blocks log2 log2State reads
    (by omega : middle.offset.toNat + o % 4 + 1 + 2 ^ k ≤ 2 ^ 32)
  have zero : space.byte (middle.offset.toNat + o % 4) = 0 :=
    byte_eq_zero blocks word valid log2 log2' blank (every _) (by omega)
  rw [elsewhere _ (index_ne_allOnes word (by omega)), shown, zero] at loaded
  exact nonzero loaded

end

/-! ## The block sizes of a constructor that returns -/

section
variable {bsize n : Nat}

/-- The search ends with the only bit that is set. -/
theorem search_ok {bits : List Nat} {found result : Option Nat} (done : bits.foldlM (fun found n =>
      if bsize.testBit n then
        if found = none then Except.ok (some n) else .error MemoryFault.assertion
      else .ok found) found = .ok result) :
    (result = found ∧ ∀ m ∈ bits, bsize.testBit m = false) ∨
      found = none ∧ ∃ n ∈ bits, result = some n ∧ bsize.testBit n = true ∧
        ∀ m ∈ bits, bsize.testBit m = true → m = n := by
  induction bits generalizing found with
  | nil =>
      cases done
      exact .inl ⟨rfl, fun _ mem => absurd mem List.not_mem_nil⟩
  | cons bit bits ih =>
      obtain ⟨next, step, rest⟩ := bind_ok.mp done
      cases set : bsize.testBit bit with
      | false =>
          simp only [set, Bool.false_eq_true, if_false] at step
          cases step
          rcases ih rest with ⟨same, clear⟩ | ⟨unset, n, mem, result, isSet, only⟩
          · exact .inl ⟨same, List.forall_mem_cons.mpr ⟨set, clear⟩⟩
          · refine .inr ⟨unset, n, List.mem_cons_of_mem bit mem, result, isSet, List.forall_mem_cons.mpr ⟨?_, only⟩⟩
            intro other
            rw [set] at other
            contradiction
      | true =>
          simp only [set, if_true] at step
          split at step
          · next unset =>
              cases step
              rcases ih rest with ⟨same, clear⟩ | ⟨set', -⟩
              · refine .inr ⟨unset, bit, List.mem_cons_self, same, set, List.forall_mem_cons.mpr ⟨fun _ => rfl, ?_⟩⟩
                intro m mem other
                rw [clear m mem] at other
                contradiction
              · contradiction
          · contradiction

theorem log2BlockSize_ok (width : bsize < 2 ^ 32) (done : log2BlockSize bsize = .ok n) : bsize = 2 ^ n ∧ n < 32 := by
  obtain ⟨found, search, last⟩ := bind_ok.mp done
  cases found with
  | none => contradiction
  | some m =>
      cases last
      rcases search_ok search with ⟨unset, -⟩ | ⟨-, n, mem, same, set, only⟩
      · contradiction
      · obtain rfl := Option.some.inj same
        refine ⟨Nat.eq_of_testBit_eq fun j => ?_, List.mem_range.mp mem⟩
        rw [Nat.testBit_two_pow]
        by_cases small : j < 32
        · have iff := only j (List.mem_range.mpr small)
          by_cases here : n = j
          · rw [← here, set, decide_eq_true rfl]
          · rw [decide_eq_false here]
            cases bit : bsize.testBit j with
            | false => rfl
            | true => exact absurd (iff bit).symm here
        · have large : bsize < 2 ^ j := width.trans_le (Nat.pow_le_pow_right (by decide) (by omega))
          have other : n ≠ j := by
            have bound := List.mem_range.mp mem
            omega
          rw [Nat.testBit_lt_two_pow large, decide_eq_false other]

end

/-- A stored memory is loaded back when `index` keeps its value. Over everything that `index` may hold, it is
loaded back exactly when each of its words is zero. -/
theorem load_store_global_mem {bsize : Nat} {space empty : MemorySpaceImpl bsize} {name : List Char}
    {pages : List (BitVec 32)} (words : 4 ∣ bsize) (width : bsize < 2 ^ 32)
    (made : MemorySpaceImpl.new bsize = .ok empty) (log2 : space.log2BlockSize = empty.log2BlockSize)
    (valid : HeaderName name) (listed : Lists pages space) :
    RoundTrip keptIndex name pages space empty ∧
      ((∀ start, RoundTrip start name pages space empty) ↔
        ∀ i storage, space.data i = some storage → ∀ o < bsize, storage.data o = 0) := by
  obtain ⟨k, search, last⟩ := bind_ok.mp made
  obtain ⟨rfl, small⟩ := log2BlockSize_ok width search
  cases last
  have word : 2 ≤ k := (Nat.pow_dvd_pow_iff_le_right (by decide : 1 < 2)).mp words
  refine ⟨roundTrip_kept small word valid log2 rfl rfl listed, ?_, ?_⟩
  · intro every i storage held o inside
    exact zeros_of_roundTrip (Blocks.of_pow small) word valid log2 rfl rfl listed every held inside
  · intro zeros start
    exact roundTrip_zeros small word valid log2 rfl rfl zeros

/-- One block, with its first byte set. -/
def sampleSpace : MemorySpaceImpl (2 ^ 5) where
  log2BlockSize := 5
  data i := if i = 0 then some { data := fun o => if o = 0 then 1 else 0 } else none

def sampleEmpty : MemorySpaceImpl (2 ^ 5) where
  log2BlockSize := 5
  data _ := none

def sampleName : List Char := ['g', 'l', 'o', 'b', 'a', 'l']

theorem sample_valid : HeaderName sampleName := ⟨by decide, by decide, by decide, by decide⟩

theorem sample_lists : Lists [0] sampleSpace := by
  intro i
  constructor
  · intro held
    refine ⟨0, List.mem_singleton_self 0, ?_⟩
    by_contra other
    have away : i ≠ 0 := Ne.symm other
    simp only [sampleSpace, if_neg away] at held
    contradiction
  · rintro ⟨page, mem, rfl⟩
    rw [List.mem_singleton.mp mem]
    rfl

theorem sample_made : MemorySpaceImpl.new (2 ^ 5) = .ok sampleEmpty := by
  simp only [MemorySpaceImpl.new, log2BlockSize_two_pow (by decide : 5 < 32)]
  rfl

theorem load_store_global_mem_sample : RoundTrip keptIndex sampleName [0] sampleSpace sampleEmpty :=
  (load_store_global_mem (by decide) (by decide) sample_made (rfl : sampleSpace.log2BlockSize = 5) sample_valid
    sample_lists).1

/-- An index that is not the header's leaves the block of the header out. -/
theorem load_strays : ¬ RoundTrip (fun _ _ => BitVec.allOnes 32) sampleName [0] sampleSpace sampleEmpty := by
  intro roundTrip
  have zero := byte_eq_zero (k := 5) (a := 0) (Blocks.of_pow (by decide)) (by decide) sample_valid rfl rfl rfl
    roundTrip (by decide)
  revert zero
  decide

end GpgpuSim.Functional
