import Mathlib.Algebra.Group.Int.Defs
import Mathlib.Algebra.Group.Nat.Defs
import Mathlib.Data.List.TakeWhile
import Mathlib.Data.Nat.Init
import Mathlib.Order.Lattice

/-! Numbers in text: signed decimals, and hexadecimals padded with zeros. A number is read
off the front of a text, over white space and up to the first character that is no digit. -/
namespace Text

/-- White space of the C locale. -/
def isSpace (c : Char) : Bool := c ∈ [' ', '\t', '\n', '\x0b', '\x0c', '\r']

/-- Whether there is a minus sign, and the text after the sign. -/
def sign : List Char → Bool × List Char
  | '-' :: text => (true, text)
  | '+' :: text => (false, text)
  | text => (false, text)

/-! ## Decimals -/

def decimal (i : Int) : List Char :=
  if i < 0 then '-' :: Nat.toDigits 10 i.natAbs else Nat.toDigits 10 i.natAbs

/-- Zero when the text does not start with a number. -/
def readDecimal (text : List Char) : Int :=
  let (negative, text) := sign (text.dropWhile isSpace)
  let n : Int := Nat.ofDigitChars 10 (text.takeWhile Char.isDigit) 0
  if negative then -n else n

/-- `strtol` to a base of ten and 64 bits: a number out of range becomes the end of the range next to it. -/
def strtol (text : List Char) : Int := max (-2 ^ 63) (min (readDecimal text) (2 ^ 63 - 1))

/-- `atoi`: the low bits of what `strtol` reads. -/
def atoi (text : List Char) : BitVec 32 := BitVec.ofInt 32 (strtol text)

/-! ## Hexadecimals -/

def hexadecimal (width n : Nat) : List Char :=
  List.replicate (width - (Nat.toDigits 16 n).length) '0' ++ Nat.toDigits 16 n

def hexDigit (c : Char) : Option Nat :=
  if c.isDigit then some (c.toNat - '0'.toNat)
  else if 'a' ≤ c ∧ c ≤ 'f' then some (c.toNat - 'a'.toNat + 10)
  else if 'A' ≤ c ∧ c ≤ 'F' then some (c.toNat - 'A'.toNat + 10)
  else none

/-- Goes on from `n` up to the first character that is no digit. -/
def readHexDigits (n : Nat) : List Char → Nat
  | [] => n
  | c :: text =>
      match hexDigit c with
      | some d => readHexDigits (16 * n + d) text
      | none => n

/-- The text after `0x`. -/
def skipBase : List Char → List Char
  | '0' :: 'x' :: text => text
  | '0' :: 'X' :: text => text
  | text => text

/-- What a stream set to `std::hex` extracts into an `unsigned`: a number out of range becomes the largest. -/
def extractHex (text : List Char) : BitVec 32 :=
  let (negative, text) := sign (text.dropWhile isSpace)
  let n := readHexDigits 0 (skipBase text)
  if 2 ^ 32 ≤ n then BitVec.allOnes 32
  else if negative then -BitVec.ofNat 32 n
  else BitVec.ofNat 32 n

attribute [local simp] sign readHexDigits

variable {b n width : Nat} {i : Int} {c : Char} {text digits rest : List Char}

theorem digit_of_mem (base : 1 < b) (mem : c ∈ Nat.toDigits b n) : ∃ d < b, c = d.digitChar := by
  induction n using Nat.strong_induction_on with
  | _ n ih =>
      rw [Nat.toDigits_eq_if base] at mem
      split at mem
      · next small => exact ⟨n, small, List.mem_singleton.mp mem⟩
      · next large =>
          rcases List.mem_append.mp mem with before | last
          · exact ih (n / b) (Nat.div_lt_self (by omega) base) before
          · exact ⟨n % b, Nat.mod_lt n (by omega), List.mem_singleton.mp last⟩

theorem sign_digits (head : ∀ c ∈ text.head?, c ≠ '-' ∧ c ≠ '+') : sign text = (false, text) := by
  cases text with
  | nil => rfl
  | cons c text =>
      obtain ⟨minus, plus⟩ := head c rfl
      simp [sign, minus, plus]

theorem dropWhile_isSpace (head : ∀ c ∈ text.head?, isSpace c = false) : text.dropWhile isSpace = text := by
  cases text with
  | nil => rfl
  | cons c text => simp [head c rfl]

/-! ## Reading decimals -/

theorem isDigit_facts (digit : c.isDigit = true) : isSpace c = false ∧ c ≠ '-' ∧ c ≠ '+' := by
  have lower : 48 ≤ c.toNat := by simp [Char.isDigit, UInt32.le_iff_toNat_le] at digit; exact digit.1
  refine ⟨?_, ?_, ?_⟩
  · simp only [isSpace, decide_eq_false_iff_not, List.mem_cons, List.not_mem_nil, or_false, not_or]
    refine ⟨?_, ?_, ?_, ?_, ?_, ?_⟩ <;> rintro rfl <;> simp at lower
  · rintro rfl
    simp at lower
  · rintro rfl
    simp at lower

theorem isDigit_toDigits (n : Nat) : ∀ c ∈ Nat.toDigits 10 n, c.isDigit = true :=
  fun _ mem => Nat.isDigit_of_mem_toDigits (by decide) (by decide) mem

theorem takeWhile_toDigits (n : Nat) : (Nat.toDigits 10 n).takeWhile Char.isDigit = Nat.toDigits 10 n :=
  List.takeWhile_eq_self_iff.mpr (isDigit_toDigits n)

theorem readDecimal_decimal (i : Int) : readDecimal (decimal i) = i := by
  by_cases negative : i < 0
  · have text : decimal i = '-' :: Nat.toDigits 10 i.natAbs := if_pos negative
    have blank : isSpace '-' = false := by decide
    rw [text, readDecimal, dropWhile_isSpace (by simp [blank])]
    simp only [sign, takeWhile_toDigits, Nat.ofDigitChars_ten_toDigits, if_true]
    omega
  · have text : decimal i = Nat.toDigits 10 i.natAbs := if_neg negative
    have facts : ∀ c ∈ (Nat.toDigits 10 i.natAbs).head?, isSpace c = false ∧ c ≠ '-' ∧ c ≠ '+' :=
      fun c head => isDigit_facts (isDigit_toDigits _ c (List.mem_of_mem_head? head))
    rw [text, readDecimal, dropWhile_isSpace fun c head => (facts c head).1, sign_digits fun c head => (facts c head).2]
    simp only [takeWhile_toDigits, Nat.ofDigitChars_ten_toDigits, Bool.false_eq_true, if_false]
    omega

theorem atoi_decimal (lower : -2 ^ 63 ≤ i) (upper : i < 2 ^ 63) : atoi (decimal i) = BitVec.ofInt 32 i := by
  have inside : max (-2 ^ 63) (min i (2 ^ 63 - 1)) = i := by omega
  rw [atoi, strtol, readDecimal_decimal, inside]

theorem mem_decimal (mem : c ∈ decimal i) : c = '-' ∨ c.isDigit = true := by
  rw [decimal] at mem
  split at mem
  · rcases List.mem_cons.mp mem with minus | digit
    · exact .inl minus
    · exact .inr (isDigit_toDigits _ c digit)
  · exact .inr (isDigit_toDigits _ c mem)

theorem decimal_ne_nil (i : Int) : decimal i ≠ [] := by
  rw [decimal]
  split <;> simp

theorem length_decimal {k : Nat} (pos : 0 < k) (bound : i.natAbs < 10 ^ k) : (decimal i).length ≤ k + 1 := by
  have digits := (Nat.length_toDigits_le_iff (by decide : 1 < 10) pos).mpr bound
  rw [decimal]
  split
  · exact Nat.succ_le_succ digits
  · omega

/-! ## Reading hexadecimals -/

/-- A fact about the sixteen digits holds of every character of a hexadecimal. -/
theorem forall_hexadecimal {p : Char → Prop} (every : ∀ d : Fin 16, p (Nat.digitChar d)) (width n : Nat) :
    ∀ c ∈ hexadecimal width n, p c := by
  intro c mem
  rcases List.mem_append.mp mem with padding | digit
  · rw [(List.mem_replicate.mp padding).2]
    exact every 0
  · obtain ⟨d, small, rfl⟩ := digit_of_mem (by decide) digit
    exact every ⟨d, small⟩

theorem length_hexadecimal (pos : 0 < width) (bound : n < 16 ^ width) : (hexadecimal width n).length = width := by
  have digits := (Nat.length_toDigits_le_iff (by decide : 1 < 16) pos).mpr bound
  simp only [hexadecimal, List.length_append, List.length_replicate]
  omega

theorem hexDigit_digitChar : ∀ d : Fin 16, hexDigit (Nat.digitChar d) = some d.val := by decide

theorem readHexDigits_append (isHex : ∀ c ∈ digits, (hexDigit c).isSome) :
    readHexDigits n (digits ++ rest) = readHexDigits (readHexDigits n digits) rest := by
  induction digits generalizing n with
  | nil => rfl
  | cons c digits ih =>
      obtain ⟨first, isHex⟩ := List.forall_mem_cons.mp isHex
      obtain ⟨d, value⟩ := Option.isSome_iff_exists.mp first
      simp only [List.cons_append, readHexDigits, value, ih isHex]

theorem readHexDigits_stop (stop : ∀ c ∈ rest.head?, hexDigit c = none) : readHexDigits n rest = n := by
  cases rest with
  | nil => rfl
  | cons c rest => simp only [readHexDigits, stop c rfl]

theorem readHexDigits_toDigits (n : Nat) : readHexDigits 0 (Nat.toDigits 16 n) = n := by
  have isHex : ∀ m, ∀ c ∈ Nat.toDigits 16 m, (hexDigit c).isSome := by
    intro m c mem
    obtain ⟨d, small, rfl⟩ := digit_of_mem (by decide) mem
    rw [hexDigit_digitChar ⟨d, small⟩]
    rfl
  induction n using Nat.strong_induction_on with
  | _ n ih =>
      rw [Nat.toDigits_eq_if (by decide)]
      split
      · next small => simp [readHexDigits, hexDigit_digitChar ⟨n, small⟩]
      · next large =>
          have low := hexDigit_digitChar ⟨n % 16, Nat.mod_lt n (by decide)⟩
          rw [readHexDigits_append (isHex _), ih (n / 16) (by omega)]
          simp only [readHexDigits, low]
          omega

theorem readHexDigits_zeros (k : Nat) : readHexDigits 0 (List.replicate k '0' ++ rest) = readHexDigits 0 rest := by
  induction k with
  | zero => rfl
  | succ k ih =>
      have zero : hexDigit '0' = some 0 := hexDigit_digitChar 0
      rw [List.replicate_succ, List.cons_append, readHexDigits]
      simp only [zero, ih]

theorem readHexDigits_hexadecimal (stop : ∀ c ∈ rest.head?, hexDigit c = none) :
    readHexDigits 0 (hexadecimal width n ++ rest) = n := by
  have isHex : ∀ c ∈ hexadecimal width n, (hexDigit c).isSome := forall_hexadecimal (by decide) width n
  rw [readHexDigits_append isHex, readHexDigits_stop stop, hexadecimal, readHexDigits_zeros,
    readHexDigits_toDigits]

theorem skipBase_digits (two : 2 ≤ digits.length) (noBase : ∀ c ∈ digits, c ≠ 'x' ∧ c ≠ 'X') :
    skipBase (digits ++ rest) = digits ++ rest := by
  match digits, two with
  | c :: d :: digits, _ =>
      obtain ⟨small, large⟩ := noBase d (by simp)
      simp [skipBase, small, large]

theorem extractHex_hexadecimal (v : BitVec 32) (stop : ∀ c ∈ rest.head?, hexDigit c = none) :
    extractHex (hexadecimal 8 v.toNat ++ rest) = v := by
  have plain := forall_hexadecimal (p := fun c => (isSpace c = false ∧ c ≠ '-' ∧ c ≠ '+') ∧ c ≠ 'x' ∧ c ≠ 'X')
    (by decide) 8 v.toNat
  have length : (hexadecimal 8 v.toNat).length = 8 := length_hexadecimal (by decide) v.isLt
  have head : ∀ c ∈ (hexadecimal 8 v.toNat ++ rest).head?, isSpace c = false ∧ c ≠ '-' ∧ c ≠ '+' := by
    intro c mem
    obtain ⟨first, text, split⟩ := List.exists_cons_of_length_pos (by omega : 0 < (hexadecimal 8 v.toNat).length)
    rw [split, List.cons_append, List.head?_cons, Option.mem_some_iff] at mem
    exact (plain c (by rw [split, ← mem]; exact List.mem_cons_self)).1
  have base : skipBase (hexadecimal 8 v.toNat ++ rest) = hexadecimal 8 v.toNat ++ rest :=
    skipBase_digits (by omega) fun c mem => (plain c mem).2
  rw [extractHex, dropWhile_isSpace fun c mem => (head c mem).1, sign_digits fun c mem => (head c mem).2]
  simp only [base, readHexDigits_hexadecimal stop]
  rw [if_neg (Nat.not_le.mpr v.isLt)]
  simp

end Text
