import GpgpuSim.Huffman.FrequencyTable
import GpgpuSim.Words.Rounding

/-! The codebook and its three builders. Code bits are lists, most significant
first; `size_t` arithmetic on code values is explicit modulo `2 ^ 64`. A shift by
64 or more, which C++ leaves undefined, moves every bit out. -/
namespace GpgpuSim.Huffman
open Containers

structure CodeEntry where
  bits : List Bool
  length : Nat
  deriving DecidableEq, Repr

def CodeEntry.ofBits (bits : List Bool) : CodeEntry := ⟨bits, bits.length⟩

/-- `single` is the root made for a one-symbol table: its right child is null. -/
inductive HuffmanNode
  | leaf (symbol frequency : Nat)
  | node (frequency : Nat) (left right : HuffmanNode)
  | single (frequency : Nat) (left : HuffmanNode)
  deriving DecidableEq, Repr

namespace HuffmanNode

def frequency : HuffmanNode → Nat
  | leaf _ frequency => frequency
  | node frequency _ _ => frequency
  | single frequency _ => frequency

/-- The constructor for internal nodes. -/
def join (left right : HuffmanNode) : HuffmanNode :=
  .node ((left.frequency + right.frequency) % 2 ^ 64) left right

/-- `b > a`: the priority queue is a minimum heap. -/
def lighter (a b : HuffmanNode) : Bool := decide (b.frequency > a.frequency)

theorem lighter_order : WeakOrder lighter := WeakOrder.of_key frequency

end HuffmanNode

open HuffmanNode (lighter)

/-- The order of ties, which the standard library leaves open. -/
structure Choices where
  ascending : Sorter lessFrequent
  descending : Sorter moreFrequent
  queue : PriorityQueue lighter

/-- Stable sorts and a queue that scans for its least element. -/
def Choices.stable : Choices where
  ascending := .insertion _ lessFrequent_order
  descending := .insertion _ moreFrequent_order
  queue := .scan _ HuffmanNode.lighter_order

structure HuffmanCodebook where
  codes : AList fun _ : Nat => CodeEntry
  maxCodeLength : Nat
  mag : Nat
  freqTable : FrequencyValueTable

namespace HuffmanCodebook

def create (checkingTableSize finalTableSize symbolLength mag : Nat) : Except String HuffmanCodebook := do
  let freqTable ← FrequencyValueTable.create checkingTableSize finalTableSize symbolLength
  return ⟨∅, 0, mag, freqTable⟩

def size (codebook : HuffmanCodebook) : Nat := codebook.codes.size

def hasCode (codebook : HuffmanCodebook) (symbol : Nat) : Bool := (codebook.codes.lookup symbol).isSome

def getCodeBits (codebook : HuffmanCodebook) (symbol : Nat) : List Bool :=
  match codebook.codes.lookup symbol with
  | some entry => entry.bits
  | none => []

def getCodeLength (codebook : HuffmanCodebook) (symbol : Nat) : Nat :=
  match codebook.codes.lookup symbol with
  | some entry => entry.length
  | none => 0

def clearCodes (codebook : HuffmanCodebook) : HuffmanCodebook :=
  { codebook with codes := ∅, maxCodeLength := 0 }

/-- `m_codes[symbol] = code_entry(code)` with the running maximum. -/
def record (codebook : HuffmanCodebook) (symbol : Nat) (code : List Bool) : HuffmanCodebook :=
  { codebook with
    codes := codebook.codes.insert symbol (.ofBits code)
    maxCodeLength := max codebook.maxCodeLength code.length }

/-! ## Canonical renumbering -/

/-- Shorter codes first, then smaller symbols. -/
def canonicalBefore (a b : Nat × Nat) : Bool := decide (a.2 < b.2 ∨ (a.2 = b.2 ∧ a.1 < b.1))

theorem canonicalBefore_order : WeakOrder canonicalBefore where
  asymm a b h := by
    simp only [canonicalBefore, decide_eq_true_eq, decide_eq_false_iff_not] at h ⊢
    omega
  trans a b c hab hbc := by
    simp only [canonicalBefore, decide_eq_false_iff_not] at hab hbc ⊢
    omega

/-- The symbols are distinct, so every sort gives this result. -/
def canonicalOrder : Sorter canonicalBefore := .insertion _ canonicalBefore_order

/-- The loop over the sorted code lengths: each symbol with its length and the
value of `code` it is given. -/
def numberCodes (code prevLen : Nat) : List (Nat × Nat) → List (Nat × Nat × Nat)
  | [] => []
  | (symbol, len) :: rest =>
      let shifted := (code <<< (len - prevLen)) % 2 ^ 64
      (symbol, len, shifted) :: numberCodes ((shifted + 1) % 2 ^ 64) len rest

def codeBits (code len : Nat) : List Bool :=
  (List.range len).map fun i => (code &&& ((1 <<< (len - 1 - i)) % 2 ^ 64)) != 0

def canonicalCodes (codeLengths : List (Nat × Nat)) : AList fun _ : Nat => CodeEntry :=
  let sorted := canonicalOrder.sort codeLengths
  let firstLen := (sorted.head?.map Prod.snd).getD 0
  AList.insertAll ∅ ((numberCodes 0 firstLen sorted).map fun (symbol, len, code) =>
    (symbol, .ofBits (codeBits code len)))

def makeCanonicalCodes (codebook : HuffmanCodebook) : HuffmanCodebook :=
  if codebook.size = 0 then codebook
  else
    let codeLengths := codebook.codes.pairs.map fun entry => (entry.1, entry.2.length)
    { codebook with codes := canonicalCodes codeLengths }

/-! ## Huffman codes -/

/-- While more than one node is left, the two lightest are joined. One round of
`fuel` joins two nodes, so the number of nodes is always enough. -/
def mergeNodes (queue : PriorityQueue lighter) : Nat → List HuffmanNode → Option HuffmanNode
  | 0, _ => none
  | fuel + 1, nodes =>
      if nodes.length > 1 then do
        let (left, rest) ← queue.pop nodes
        let (right, rest) ← queue.pop rest
        mergeNodes queue fuel (left.join right :: rest)
      else (queue.pop nodes).map Prod.fst

def buildTree (queue : PriorityQueue lighter) (freqPairs : List (Nat × Nat)) : Option HuffmanNode :=
  match freqPairs.map fun pair => HuffmanNode.leaf pair.1 pair.2 with
  | [leaf] => some (.single leaf.frequency leaf)
  | nodes => mergeNodes queue nodes.length nodes

def generateCodesFromTree : HuffmanNode → List Bool → HuffmanCodebook → HuffmanCodebook
  | .leaf symbol _, code, codebook => codebook.record symbol code
  | .node _ left right, code, codebook =>
      generateCodesFromTree right (code ++ [true]) (generateCodesFromTree left (code ++ [false]) codebook)
  | .single _ left, code, codebook => generateCodesFromTree left (code ++ [false]) codebook

/-- The codes of the tree, before renumbering. -/
def assignHuffmanCodes (choices : Choices) (codebook : HuffmanCodebook)
    (freqPairs : List (Nat × Nat)) : HuffmanCodebook :=
  match buildTree choices.queue (choices.ascending.sort freqPairs) with
  | some root => generateCodesFromTree root [] codebook.clearCodes
  | none => codebook.clearCodes

def generateHuffmanCodes (choices : Choices) (codebook : HuffmanCodebook) : HuffmanCodebook × Nat :=
  let freqPairs := codebook.freqTable.getTopFrequencies choices.descending
  if freqPairs.isEmpty then (codebook.clearCodes, 0)
  else
    let canonical := (assignHuffmanCodes choices codebook freqPairs).makeCanonicalCodes
    (canonical, canonical.size)

/-! ## Shannon-Fano codes -/

/-- `std::abs(static_cast<int64_t>(freq * 2 - total))`. -/
def imbalance (freq total : Nat) : Nat := (Int.bmod (2 * freq - total) (2 ^ 64)).natAbs

/-- The scan for the last index up to which the first part grows towards half the total. -/
def splitScan (totalFreq currFreq i splitPoint : Nat) : List (Nat × Nat) → Nat
  | [] => splitPoint
  | pair :: rest =>
      let nextFreq := (currFreq + pair.2) % 2 ^ 64
      if imbalance nextFreq totalFreq ≤ imbalance currFreq totalFreq then
        splitScan totalFreq nextFreq (i + 1) i rest
      else splitPoint

def rangeTotal (symbols : List (Nat × Nat)) : Nat :=
  symbols.foldl (fun total pair => (total + pair.2) % 2 ^ 64) 0

/-- The last index of the first part of a range that starts at index zero. -/
def splitPoint (symbols : List (Nat × Nat)) : Nat :=
  let found := splitScan (rangeTotal symbols) 0 0 0 symbols
  if found = symbols.length - 1 then (symbols.length - 1) / 2 else found

theorem splitScan_le (totalFreq currFreq i split : Nat) (symbols : List (Nat × Nat)) (start : split ≤ i) :
    splitScan totalFreq currFreq i split symbols ≤ i + (symbols.length - 1) := by
  induction symbols generalizing currFreq i split with
  | nil => simpa [splitScan] using start
  | cons pair rest ih =>
      simp only [splitScan]
      split
      · cases rest with
        | nil => simp [splitScan]
        | cons next rest =>
            have := ih ((currFreq + pair.2) % 2 ^ 64) (i + 1) i (Nat.le_succ i)
            simp only [List.length_cons] at this ⊢
            omega
      · omega

/-- Both parts of a split are non-empty. -/
theorem splitPoint_lt {symbols : List (Nat × Nat)} (long : 2 ≤ symbols.length) :
    splitPoint symbols + 1 < symbols.length := by
  have := splitScan_le (rangeTotal symbols) 0 0 0 symbols le_rfl
  simp only [splitPoint]
  split <;> omega

/-- The recursion on the range `[start, end]`, given as the list of its symbols. -/
def shannonFanoEncode (symbols : List (Nat × Nat)) (code : List Bool) (codebook : HuffmanCodebook) :
    HuffmanCodebook :=
  match symbols with
  | [] => codebook
  | [a] => codebook.record a.1 code
  | [a, b] => (codebook.record a.1 (code ++ [false])).record b.1 (code ++ [true])
  | a :: b :: c :: rest =>
      let range := a :: b :: c :: rest
      let left := range.take (splitPoint range + 1)
      let right := range.drop (splitPoint range + 1)
      shannonFanoEncode right (code ++ [true]) (shannonFanoEncode left (code ++ [false]) codebook)
  termination_by symbols.length
  decreasing_by
    all_goals
      have := splitPoint_lt (show 2 ≤ (a :: b :: c :: rest).length by simp)
      simp only [List.length_take, List.length_drop]
      omega

def assignShannonFanoCodes (codebook : HuffmanCodebook) (freqPairs : List (Nat × Nat)) : HuffmanCodebook :=
  shannonFanoEncode freqPairs [] codebook.clearCodes

def generateShannonFanoCodes (choices : Choices) (codebook : HuffmanCodebook) : HuffmanCodebook × Nat :=
  let freqPairs := codebook.freqTable.getTopFrequencies choices.descending
  if freqPairs.isEmpty then (codebook.clearCodes, 0)
  else
    let canonical := (assignShannonFanoCodes codebook freqPairs).makeCanonicalCodes
    (canonical, canonical.size)

end HuffmanCodebook

/-! ## Shannon codes -/

/-- Conversions of a code length to `size_t` that C++ leaves undefined. -/
inductive LengthFault
  | zeroProbability
  | unboundedProbability
  | negativeLength
  deriving DecidableEq, Repr

/-- What the Shannon builder uses of `double`: rounding to nearest, and the
composition of `std::log2`, negation and `std::ceil`. -/
structure FloatArithmetic where
  round : ℚ → ℚ
  round_mono : ∀ p q, p ≤ q → round p ≤ round q
  round_zero : round 0 = 0
  round_two_pow : ∀ k : ℕ, k ≤ 64 → round (2 ^ k) = 2 ^ k
  round_half_pow : ∀ k : ℕ, k ≤ 64 → round ((1 / 2) ^ k) = (1 / 2) ^ k
  ceilNegLog2 : ℚ → ℤ
  ceilNegLog2_anti : ∀ p q, 0 < p → p ≤ q → ceilNegLog2 q ≤ ceilNegLog2 p
  ceilNegLog2_half_pow : ∀ k : ℕ, k ≤ 64 → ceilNegLog2 ((1 / 2) ^ k) = k

/-- Arithmetic without rounding errors. -/
def FloatArithmetic.exact : FloatArithmetic where
  round p := p
  round_mono _ _ h := h
  round_zero := rfl
  round_two_pow _ _ := rfl
  round_half_pow _ _ := rfl
  ceilNegLog2 p := -Int.log 2 p
  ceilNegLog2_anti _ _ positive h := Int.neg_le_neg (Int.log_mono_right positive h)
  ceilNegLog2_half_pow k _ := by
    have power : ((1 : ℚ) / 2) ^ k = ((2 : ℕ) : ℚ) ^ (-(k : ℤ)) := by
      rw [zpow_neg, zpow_natCast, one_div, inv_pow, Nat.cast_ofNat]
    rw [power, Int.log_zpow (by decide), neg_neg]

/-- Doubles round to 53 bits. The logarithm is not rounded, which on powers of two makes no difference. -/
def FloatArithmetic.double : FloatArithmetic where
  round := Words.roundTo 53
  round_mono _ _ le := Words.roundTo_mono (by decide) le
  round_zero := by decide +kernel
  round_two_pow k _ := by exact_mod_cast Words.roundTo_zpow (by decide) k
  round_half_pow k _ := by
    have power : ((1 : ℚ) / 2) ^ k = 2 ^ (-(k : ℤ)) := by rw [zpow_neg, zpow_natCast, one_div, inv_pow]
    rw [power, Words.roundTo_zpow (by decide)]
  ceilNegLog2 := FloatArithmetic.exact.ceilNegLog2
  ceilNegLog2_anti := FloatArithmetic.exact.ceilNegLog2_anti
  ceilNegLog2_half_pow := FloatArithmetic.exact.ceilNegLog2_half_pow

namespace HuffmanCodebook

def shannonLength (fp : FloatArithmetic) (frequency totalFrequency : Nat) : Except LengthFault Nat :=
  if totalFrequency = 0 then .error .unboundedProbability
  else
    let probability := fp.round (fp.round frequency / fp.round totalFrequency)
    if probability = 0 then .error .zeroProbability
    else if fp.ceilNegLog2 probability < 0 then .error .negativeLength
    else .ok (max (fp.ceilNegLog2 probability).toNat 1)

def shannonLengths (fp : FloatArithmetic) (freqPairs : List (Nat × Nat)) :
    Except LengthFault (List (Nat × Nat)) :=
  freqPairs.mapM fun pair => do
    let codeLength ← shannonLength fp pair.2 (rangeTotal freqPairs)
    return (pair.1, codeLength)

def generateShannonCodes (choices : Choices) (fp : FloatArithmetic) (codebook : HuffmanCodebook) :
    Except LengthFault (HuffmanCodebook × Nat) := do
  let freqPairs := codebook.freqTable.getTopFrequencies choices.descending
  if freqPairs.isEmpty then return (codebook.clearCodes, 0)
  let codeLengths ← shannonLengths fp freqPairs
  let codes := canonicalCodes codeLengths
  let maxCodeLength := codeLengths.foldl (fun longest pair => max longest pair.2) 0
  return ({ codebook with codes, maxCodeLength }, codes.size)

end HuffmanCodebook

/-- `codebook_build_method`. -/
inductive CodebookBuildMethod
  | huffman
  | shannonFano
  | shannon
  deriving DecidableEq, Repr

/-- The switch on the build method. -/
def HuffmanCodebook.generateCodebook (choices : Choices) (fp : FloatArithmetic)
    (method : CodebookBuildMethod) (codebook : HuffmanCodebook) :
    Except LengthFault (HuffmanCodebook × Nat) :=
  match method with
  | .huffman => .ok (codebook.generateHuffmanCodes choices)
  | .shannonFano => .ok (codebook.generateShannonFanoCodes choices)
  | .shannon => codebook.generateShannonCodes choices fp

end GpgpuSim.Huffman
