import GpgpuSim.Memory.MemFetch
import GpgpuSim.Words.Masks
import Std.Data.TreeMap.Lemmas

/-! Coalescing: the memory accesses of the threads of a warp are gathered into
transactions on aligned segments, and each transaction is cut down to the half or
the quarter of its segment that it uses. -/
namespace GpgpuSim.Simt
open GpgpuSim.Memory Words

inductive CoalescingFault
  | assertion
  deriving DecidableEq, Repr

/-- `MAX_ACCESSES_PER_INSN_PER_THREAD`. -/
def maxAccessesPerInsnPerThread : Nat := 8

def maxMemoryAccessSize : Nat := 128

def sectorSize : Nat := 32

/-- The spaces whose accesses are coalesced. -/
inductive MemorySpace
  | globalSpace
  | localSpace
  | paramSpaceLocal
  deriving DecidableEq, Repr

/-- What the coalescing rules read of `core_config`. -/
structure CoreConfig where
  warpSize : Nat
  memWarpParts : Nat
  gpgpuCoalesceArch : Nat
  gmemSkipL1D : Bool

/-- A load or store of a warp. `addrs` is what `set_addr` was given for each
thread; the rest of `memreqaddr` is zero. -/
structure WarpInst where
  space : MemorySpace
  dataSize : Nat
  cacheGlobal : Bool
  warpActiveMask : BitVec 32
  addrs : Nat → List Nat

/-- `mem_access_t`. -/
structure MemAccess where
  type : MemAccessType
  addr : Nat
  reqSize : Nat
  write : Bool
  warpMask : BitVec 32
  byteMask : BitVec 128
  sectorMask : BitVec 4
  deriving DecidableEq, Repr

structure TransactionInfo where
  chunks : BitVec 4 := 0
  bytes : BitVec 128 := 0
  active : BitVec 32 := 0

/-- `address & ~(line_size - 1)`, cut to the 32 bits of an `address_type`. -/
def lineSizeBasedTagFunc (address lineSize : Nat) : Nat :=
  (address &&& (2 ^ 64 - lineSize) % 2 ^ 64) % 2 ^ 32

namespace WarpInst

def memreqaddr (inst : WarpInst) (thread access : Nat) : Nat := (inst.addrs thread).getD access 0

def active (inst : WarpInst) (thread : Nat) : Bool := inst.warpActiveMask.getLsbD thread

def isLocal (inst : WarpInst) : Bool :=
  match inst.space with
  | .localSpace | .paramSpaceLocal => true
  | .globalSpace => false

def sectorSegmentSize (cfg : CoreConfig) (inst : WarpInst) : Bool :=
  if 20 ≤ cfg.gpgpuCoalesceArch ∧ cfg.gpgpuCoalesceArch < 39 then cfg.gmemSkipL1D || inst.cacheGlobal
  else decide (40 ≤ cfg.gpgpuCoalesceArch)

/-- Zero for the data sizes that the switch does not list. -/
def segmentSize (cfg : CoreConfig) (inst : WarpInst) : Nat :=
  match inst.dataSize with
  | 1 => 32
  | 2 => if inst.sectorSegmentSize cfg then 32 else 64
  | 4 | 8 | 16 => if inst.sectorSegmentSize cfg then 32 else 128
  | _ => 0

def splits (inst : WarpInst) : Bool := inst.isLocal && decide (4 ≤ inst.dataSize)

def dataSizeCoales (inst : WarpInst) : Nat := if inst.splits then 4 else inst.dataSize

def numAccesses (inst : WarpInst) : Nat := if inst.splits then inst.dataSize / 4 else 1

/-- The addresses the loop over `memreqaddr` reaches: a zero ends it. -/
def accessed (inst : WarpInst) (thread : Nat) : List Nat :=
  ((List.range maxAccessesPerInsnPerThread).map (inst.memreqaddr thread)).takeWhile (· != 0)

end WarpInst

/-- One thread's access at `addr` is noted in the transaction of its segment. -/
def TransactionInfo.record (thread addr size : Nat) (info : TransactionInfo) : TransactionInfo where
  chunks := setBit info.chunks (addr % 128 / sectorSize)
  active := setBit info.active thread
  bytes := setRange info.bytes (addr % 128) size

/-- `subwarp_transactions`. -/
abbrev Transactions := Std.TreeMap Nat TransactionInfo

namespace Transactions

/-- `map[key]`, changed in place. -/
def update (txns : Transactions) (key : Nat) (change : TransactionInfo → TransactionInfo) :
    Transactions :=
  txns.alter key fun info => some (change (info.getD {}))

/-- An access that ends in another segment is noted there again, from its last byte on. -/
def access (segment size thread : Nat) (txns : Transactions) (addr : Nat) : Transactions :=
  let block := lineSizeBasedTagFunc addr segment
  let txns := txns.update block (.record thread addr size)
  let last := (addr + size - 1) % 2 ^ 64
  if block ≠ lineSizeBasedTagFunc last segment then
    txns.update (lineSizeBasedTagFunc last segment) (.record thread last size)
  else txns

end Transactions

namespace WarpInst

/-- Step 1: the transactions of a subwarp. -/
def thread (segment : Nat) (inst : WarpInst) (txns : Transactions) (t : Nat) : Transactions :=
  (inst.accessed t).foldl (Transactions.access segment inst.dataSizeCoales t) txns

def subwarpThreads (subwarpSize : Nat) (inst : WarpInst) (subwarp : Nat) : List Nat :=
  ((List.range subwarpSize).map fun i => subwarp * subwarpSize + i).filter inst.active

def subwarpTransactions (segment subwarpSize : Nat) (inst : WarpInst) (subwarp : Nat) : Transactions :=
  (inst.subwarpThreads subwarpSize subwarp).foldl (inst.thread segment) ∅

end WarpInst

/-- The lower or upper part of `size / 2` bytes that is in use, or all of it. -/
def halve (lower upper : Bool) (addr size : Nat) : Except CoalescingFault (Nat × Nat) :=
  match lower, upper with
  | true, false => .ok (addr, size / 2)
  | false, true => .ok (addr + size / 2, size / 2)
  | true, true => .ok (addr, size)
  | false, false => .error .assertion

/-- The part of a segment that holds the chunks `q`: its first byte and its size. -/
def reduce (q : BitVec 4) (addr segment : Nat) : Except CoalescingFault (Nat × Nat) :=
  if segment = 128 then do
    let (start, size) ← halve (q.getLsbD 0 || q.getLsbD 1) (q.getLsbD 2 || q.getLsbD 3) addr 128
    if size = 64 then
      if start = addr then halve (q.getLsbD 0) (q.getLsbD 1) start 64
      else halve (q.getLsbD 2) (q.getLsbD 3) start 64
    else return (start, size)
  else if segment = 64 then
    if addr % 128 = 0 then halve (q.getLsbD 0) (q.getLsbD 1) addr 64
    else if addr % 128 = 64 then halve (q.getLsbD 2) (q.getLsbD 3) addr 64
    else .error .assertion
  else .ok (addr, segment)

/-- Step 2: the access of a transaction, as small as its chunks allow. -/
def memoryCoalescingArchReduceAndSend (isWrite : Bool) (accessType : MemAccessType)
    (info : TransactionInfo) (addr segment : Nat) : Except CoalescingFault MemAccess :=
  if addr % segment ≠ 0 ∨ info.chunks = 0 then .error .assertion
  else (reduce info.chunks addr segment).map fun (start, size) =>
    ⟨accessType, start, size, isWrite, info.active, info.bytes, info.chunks⟩

/-- What is appended to `m_accessq`, subwarp by subwarp in ascending order of segments. -/
def memoryCoalescingArch (cfg : CoreConfig) (inst : WarpInst) (isWrite : Bool)
    (accessType : MemAccessType) : Except CoalescingFault (List MemAccess) := do
  let segment := inst.segmentSize cfg
  let subwarpSize := cfg.warpSize / cfg.memWarpParts
  let threads := (List.range cfg.memWarpParts).flatMap (inst.subwarpThreads subwarpSize)
  if threads ≠ [] ∧ maxAccessesPerInsnPerThread < inst.numAccesses then throw .assertion
  let sent ← (List.range cfg.memWarpParts).mapM fun subwarp =>
    (inst.subwarpTransactions segment subwarpSize subwarp).toList.mapM fun (addr, info) =>
      memoryCoalescingArchReduceAndSend isWrite accessType info addr segment
  return sent.flatten

/-! ## What the transactions of a subwarp hold -/

section

variable {segment size t : Nat} {addr k : Nat}

/-- The sizes a segment can have. -/
def SegmentSize (segment : Nat) : Prop := segment = 32 ∨ segment = 64 ∨ segment = 128

theorem lineSizeBasedTagFunc_eq (sized : SegmentSize segment) (addr : Nat) :
    lineSizeBasedTagFunc addr segment = addr % 2 ^ 32 / segment * segment := by
  have rounded : ∀ k, k = 5 ∨ k = 6 ∨ k = 7 →
      lineSizeBasedTagFunc addr (2 ^ k) = addr % 2 ^ 32 / 2 ^ k * 2 ^ k := by
    intro k small
    have fits : k ≤ 64 := by omega
    have mask : (2 ^ 64 - 2 ^ k) % 2 ^ 64 = 2 ^ 64 - 2 ^ k := by
      apply Nat.mod_eq_of_lt
      exact Nat.sub_lt (Nat.two_pow_pos 64) (Nat.two_pow_pos k)
    rw [lineSizeBasedTagFunc, mask, and_two_pow_sub_two_pow addr fits]
    rcases small with rfl | rfl | rfl <;> omega
  rcases sized with rfl | rfl | rfl
  · exact rounded 5 (.inl rfl)
  · exact rounded 6 (.inr (.inl rfl))
  · exact rounded 7 (.inr (.inr rfl))

theorem Transactions.getElem?_update (txns : Transactions) (key k : Nat)
    (change : TransactionInfo → TransactionInfo) :
    (txns.update key change)[k]? =
      if key = k then some (change (txns[key]?.getD {})) else txns[k]? := by
  rw [Transactions.update, Std.TreeMap.getElem?_alter]
  by_cases same : key = k
  · subst same
    simp
  · simp [same]

/-- An access aligned to its size ends in the segment it starts in. -/
theorem tag_end (sized : SegmentSize segment) (power : size = 1 ∨ size = 2 ∨ size = 4 ∨ size = 8 ∨ size = 16)
    (aligned : size ∣ addr) :
    lineSizeBasedTagFunc addr segment = lineSizeBasedTagFunc ((addr + size - 1) % 2 ^ 64) segment := by
  rw [lineSizeBasedTagFunc_eq sized, lineSizeBasedTagFunc_eq sized]
  obtain ⟨n, rfl⟩ := aligned
  rcases sized with rfl | rfl | rfl <;> rcases power with rfl | rfl | rfl | rfl | rfl <;> omega

theorem Transactions.access_aligned (sized : SegmentSize segment)
    (power : size = 1 ∨ size = 2 ∨ size = 4 ∨ size = 8 ∨ size = 16) (aligned : size ∣ addr) (txns : Transactions) :
    txns.access segment size t addr =
      txns.update (lineSizeBasedTagFunc addr segment) (.record t addr size) := by
  rw [Transactions.access, if_neg (not_not.mpr (tag_end sized power aligned))]

/-- A transaction notes exactly the accesses `here`, given as thread and address. -/
structure Noted (size : Nat) (here : List (Nat × Nat)) (info : TransactionInfo) : Prop where
  chunk : ∀ c, info.chunks.getLsbD c = true ↔ ∃ p ∈ here, c = p.2 % 128 / sectorSize
  active : ∀ t, info.active.getLsbD t = true ↔ ∃ p ∈ here, t = p.1
  byte : ∀ j, info.bytes.getLsbD j = true ↔
    ∃ p ∈ here, p.2 % 128 ≤ j ∧ j < p.2 % 128 + size ∧ j < 128

theorem Noted.empty : Noted size [] {} := by
  constructor <;> simp

theorem Noted.record {here : List (Nat × Nat)} {info : TransactionInfo} (noted : Noted size here info)
    (lane : t < 32) : Noted size (here ++ [(t, addr)]) (info.record t addr size) := by
  have one_more : ∀ P : Nat × Nat → Prop,
      (∃ p ∈ here ++ [(t, addr)], P p) ↔ (∃ p ∈ here, P p) ∨ P (t, addr) := by
    intro P
    simp [or_and_right, exists_or]
  constructor
  · intro c
    have small : addr % 128 / sectorSize < 4 := by
      unfold sectorSize
      omega
    rw [TransactionInfo.record, getLsbD_setBit, noted.chunk, one_more]
    simp [small]
  · intro t
    rw [TransactionInfo.record, getLsbD_setBit, noted.active, one_more]
    simp [lane]
  · intro j
    rw [TransactionInfo.record, getLsbD_setRange, noted.byte, one_more]

/-- The accesses to the segment `k`. -/
def within (segment : Nat) (seen : List (Nat × Nat)) (k : Nat) : List (Nat × Nat) :=
  seen.filter fun p => lineSizeBasedTagFunc p.2 segment == k

theorem mem_within {seen : List (Nat × Nat)} {p : Nat × Nat} :
    p ∈ within segment seen k ↔ p ∈ seen ∧ lineSizeBasedTagFunc p.2 segment = k := by
  simp [within]

theorem within_append_singleton (seen : List (Nat × Nat)) (p : Nat × Nat) (k : Nat) :
    within segment (seen ++ [p]) k =
      within segment seen k ++ if lineSizeBasedTagFunc p.2 segment = k then [p] else [] := by
  by_cases same : lineSizeBasedTagFunc p.2 segment = k <;> simp [within, List.filter_append, same]

/-- The transactions note exactly the accesses `seen`. -/
structure Notes (segment size : Nat) (seen : List (Nat × Nat)) (txns : Transactions) : Prop where
  present : ∀ k, txns[k]? ≠ none ↔ within segment seen k ≠ []
  noted : ∀ k, Noted size (within segment seen k) (txns[k]?.getD {})

theorem Notes.empty : Notes segment size [] ∅ := by
  constructor
  · simp [within]
  · intro k
    simpa [within] using Noted.empty

/-- One more access is noted. -/
theorem Notes.access {seen : List (Nat × Nat)} {txns : Transactions} (sized : SegmentSize segment)
    (power : size = 1 ∨ size = 2 ∨ size = 4 ∨ size = 8 ∨ size = 16) (aligned : size ∣ addr)
    (notes : Notes segment size seen txns) (lane : t < 32) :
    Notes segment size (seen ++ [(t, addr)]) (txns.access segment size t addr) := by
  rw [Transactions.access_aligned sized power aligned]
  constructor
  · intro k
    rw [Transactions.getElem?_update, within_append_singleton]
    split
    · simp
    · simpa using notes.present k
  · intro k
    rw [Transactions.getElem?_update, within_append_singleton]
    split
    · rename_i same
      subst same
      exact (notes.noted _).record lane
    · simpa using notes.noted k

/-- The accesses of a subwarp, in the order of its threads. -/
def WarpInst.subwarpAccesses (subwarpSize : Nat) (inst : WarpInst) (subwarp : Nat) : List (Nat × Nat) :=
  (inst.subwarpThreads subwarpSize subwarp).flatMap fun t => (inst.accessed t).map (Prod.mk t)

theorem WarpInst.subwarpTransactions_notes {inst : WarpInst} (sized : SegmentSize segment)
    (power : inst.dataSizeCoales = 1 ∨ inst.dataSizeCoales = 2 ∨ inst.dataSizeCoales = 4 ∨
      inst.dataSizeCoales = 8 ∨ inst.dataSizeCoales = 16)
    (aligned : ∀ t, inst.active t = true → ∀ addr ∈ inst.accessed t, inst.dataSizeCoales ∣ addr)
    (subwarpSize subwarp : Nat) :
    Notes segment inst.dataSizeCoales (inst.subwarpAccesses subwarpSize subwarp)
      (inst.subwarpTransactions segment subwarpSize subwarp) := by
  -- one thread, by induction on the addresses it still has to note
  have one : ∀ t, t < 32 → ∀ addrs : List Nat, (∀ addr ∈ addrs, inst.dataSizeCoales ∣ addr) → ∀ seen txns,
      Notes segment inst.dataSizeCoales seen txns →
      Notes segment inst.dataSizeCoales (seen ++ addrs.map (Prod.mk t))
        (addrs.foldl (Transactions.access segment inst.dataSizeCoales t) txns) := by
    intro t lane addrs
    induction addrs with
    | nil =>
        intro _ seen txns notes
        simpa using notes
    | cons addr rest ih =>
        intro aligned seen txns notes
        have noted := notes.access sized power (aligned addr List.mem_cons_self) lane (t := t)
        have later := ih (fun other member => aligned other (List.mem_cons_of_mem _ member)) _ _ noted
        simpa using later
  have all : ∀ threads : List Nat, (∀ t ∈ threads, inst.active t = true) → ∀ seen txns,
      Notes segment inst.dataSizeCoales seen txns →
      Notes segment inst.dataSizeCoales
        (seen ++ threads.flatMap fun t => (inst.accessed t).map (Prod.mk t))
        (threads.foldl (inst.thread segment) txns) := by
    intro threads
    induction threads with
    | nil =>
        intro _ seen txns notes
        simpa using notes
    | cons t rest ih =>
        intro awake seen txns notes
        have lane : t < 32 := BitVec.lt_of_getLsbD (awake t List.mem_cons_self)
        have noted := one t lane _ (aligned t (awake t List.mem_cons_self)) seen txns notes
        have later := ih (fun other member => awake other (List.mem_cons_of_mem _ member)) _ _ noted
        simpa [WarpInst.thread] using later
  have awake : ∀ t ∈ inst.subwarpThreads subwarpSize subwarp, inst.active t = true := by
    intro t member
    exact (List.mem_filter.mp member).2
  have notes := all _ awake [] ∅ Notes.empty
  simpa [WarpInst.subwarpTransactions, WarpInst.subwarpAccesses] using notes

theorem halve_ok (addr half : Nat) {lower upper : Bool} (used : lower = true ∨ upper = true) :
    ∃ start size, halve lower upper addr (2 * half) = .ok (start, size) ∧
      addr ≤ start ∧ start + size ≤ addr + 2 * half ∧
      (lower = true → start = addr ∧ half ≤ size) ∧
      (upper = true → start + size = addr + 2 * half ∧ half ≤ size) ∧
      (size = 2 * half ∨ (size = half ∧ (lower = true → upper = false) ∧
        (upper = true → start = addr + half))) := by
  cases lower <;> cases upper
  · simp at used
  · refine ⟨addr + half, half, ?_, ?_⟩
    · simp [halve]
    · simp
      omega
  · refine ⟨addr, half, ?_, ?_⟩
    · simp [halve]
    · simp
      omega
  · refine ⟨addr, 2 * half, rfl, ?_⟩
    simp
    omega

/-- The chunk `c` of the 128 bytes around `k` lies in `size` bytes from `start` on. -/
def HoldsChunk (k start size c : Nat) : Prop :=
  start ≤ k / 128 * 128 + 32 * c ∧ k / 128 * 128 + 32 * c + 32 ≤ start + size

/-- The two chunks from `first` on, cut down to the ones in use. -/
theorem halve_chunks {q : BitVec 4} (start first : Nat) (here : k / 128 * 128 + 32 * first = start)
    (used : ∃ c, q.getLsbD c = true) (only : ∀ c, q.getLsbD c = true → c = first ∨ c = first + 1) :
    ∃ addr size, halve (q.getLsbD first) (q.getLsbD (first + 1)) start 64 = .ok (addr, size) ∧
      start ≤ addr ∧ addr + size ≤ start + 64 ∧
      ∀ c, q.getLsbD c = true → HoldsChunk k addr size c := by
  have touched : q.getLsbD first = true ∨ q.getLsbD (first + 1) = true := by
    obtain ⟨c, chunk⟩ := used
    rcases only c chunk with rfl | rfl
    · exact .inl chunk
    · exact .inr chunk
  obtain ⟨addr, size, cut, low, high, lower, upper, -⟩ := halve_ok start 32 touched
  refine ⟨addr, size, cut, low, high, ?_⟩
  intro c chunk
  unfold HoldsChunk
  rcases only c chunk with rfl | rfl
  · have := lower chunk
    omega
  · have := upper chunk
    omega

/-- All the chunks in use are kept, and nothing outside the segment. -/
theorem reduce_ok {q : BitVec 4} (sized : SegmentSize segment) (aligned : segment ∣ k)
    (used : ∃ c, q.getLsbD c = true)
    (chunks : ∀ c, q.getLsbD c = true → k % 128 ≤ 32 * c ∧ 32 * c < k % 128 + segment) :
    ∃ addr size, reduce q k segment = .ok (addr, size) ∧ k ≤ addr ∧ addr + size ≤ k + segment ∧
      ∀ c, q.getLsbD c = true → HoldsChunk k addr size c := by
  rcases sized with rfl | rfl | rfl
  · refine ⟨k, 32, rfl, Nat.le_refl _, Nat.le_refl _, ?_⟩
    intro c chunk
    have := chunks c chunk
    unfold HoldsChunk
    omega
  · by_cases first : k % 128 = 0
    · obtain ⟨addr, size, cut, rest⟩ := halve_chunks (k := k) k 0 (by omega) used
        fun c chunk => by have := chunks c chunk; omega
      exact ⟨addr, size, by simpa [reduce, first] using cut, rest⟩
    · have second : k % 128 = 64 := by omega
      obtain ⟨addr, size, cut, rest⟩ := halve_chunks (k := k) k 2 (by omega) used
        fun c chunk => by have := chunks c chunk; omega
      exact ⟨addr, size, by simpa [reduce, second] using cut, rest⟩
  · have four : ∀ c, q.getLsbD c = true → c = 0 ∨ c = 1 ∨ c = 2 ∨ c = 3 := by
      intro c chunk
      have := BitVec.lt_of_getLsbD chunk
      omega
    have touched : (q.getLsbD 0 || q.getLsbD 1) = true ∨ (q.getLsbD 2 || q.getLsbD 3) = true := by
      obtain ⟨c, chunk⟩ := used
      rcases four c chunk with rfl | rfl | rfl | rfl <;> simp [chunk]
    obtain ⟨start, size, cut, low, high, lower, upper, shape⟩ :=
      halve_ok k 64 touched
    have cut_128 : reduce q k 128 = if size = 64 then
        if start = k then halve (q.getLsbD 0) (q.getLsbD 1) start 64
        else halve (q.getLsbD 2) (q.getLsbD 3) start 64
        else .ok (start, size) := by
      rw [reduce, if_pos rfl, cut]
      rfl
    rw [cut_128]
    rcases shape with rfl | ⟨rfl, no_upper, at_middle⟩
    · refine ⟨start, 128, by rfl, low, high, ?_⟩
      intro c chunk
      have := BitVec.lt_of_getLsbD chunk
      unfold HoldsChunk
      omega
    · rw [if_pos rfl]
      by_cases first : (q.getLsbD 0 || q.getLsbD 1) = true
      · have start_eq := (lower first).1
        have unused := no_upper first
        rw [if_pos start_eq]
        obtain ⟨addr, size, cut, inside, upto, holds⟩ :=
          halve_chunks (k := k) start 0 (by omega) used fun c chunk => by
            rcases four c chunk with rfl | rfl | rfl | rfl <;> simp_all
        exact ⟨addr, size, cut, by omega, by omega, holds⟩
      · have start_eq := at_middle (touched.resolve_left first)
        rw [if_neg (by omega)]
        obtain ⟨addr, size, cut, inside, upto, holds⟩ :=
          halve_chunks (k := k) start 2 (by omega) used fun c chunk => by
            rcases four c chunk with rfl | rfl | rfl | rfl <;> simp_all
        exact ⟨addr, size, cut, by omega, by omega, holds⟩

/-- What a transaction is sent as: all the chunks it uses and nothing outside its segment. -/
structure Sent (info : TransactionInfo) (k segment : Nat) (access : MemAccess) : Prop where
  warpMask : access.warpMask = info.active
  byteMask : access.byteMask = info.bytes
  sectorMask : access.sectorMask = info.chunks
  inside : k ≤ access.addr ∧ access.addr + access.reqSize ≤ k + segment
  holds : ∀ c, info.chunks.getLsbD c = true → HoldsChunk k access.addr access.reqSize c

/-- A transaction whose chunks lie in its segment is sent. -/
theorem reduceAndSend_ok (isWrite : Bool) (accessType : MemAccessType) {info : TransactionInfo}
    (sized : SegmentSize segment) (aligned : segment ∣ k) (used : ∃ c, info.chunks.getLsbD c = true)
    (chunks : ∀ c, info.chunks.getLsbD c = true → k % 128 ≤ 32 * c ∧ 32 * c < k % 128 + segment) :
    ∃ access, memoryCoalescingArchReduceAndSend isWrite accessType info k segment = .ok access ∧
      Sent info k segment access := by
  have some_chunk : info.chunks ≠ 0 := by
    rintro none
    obtain ⟨c, here⟩ := used
    simp [none] at here
  have no_remainder : k % segment = 0 := Nat.mod_eq_zero_of_dvd aligned
  obtain ⟨addr, size, cut, low, high, holds⟩ := reduce_ok sized aligned used chunks
  refine ⟨⟨accessType, addr, size, isWrite, info.active, info.bytes, info.chunks⟩, ?_, ?_⟩
  · rw [memoryCoalescingArchReduceAndSend, if_neg (not_or.mpr ⟨not_not.mpr no_remainder, some_chunk⟩), cut]
    rfl
  · exact ⟨rfl, rfl, rfl, ⟨low, high⟩, holds⟩

end

end GpgpuSim.Simt
