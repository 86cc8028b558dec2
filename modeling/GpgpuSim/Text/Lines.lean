import Mathlib.Data.List.Basic

/-! Text read through a buffer: the lines that repeated reads give, and the words between
blanks of a line. -/
namespace Text

/-- One read: up to and with the next line end, but at most `room` characters. -/
def takeLine : Nat → List Char → List Char × List Char
  | 0, text => ([], text)
  | _ + 1, [] => ([], [])
  | room + 1, c :: text =>
      if c = '\n' then ([c], text)
      else
        let (line, rest) := takeLine room text
        (c :: line, rest)

/-- At most `fuel` reads, up to the end of the text. -/
def readLines (room : Nat) : Nat → List Char → List (List Char)
  | 0, _ => []
  | fuel + 1, text =>
      if text = [] then []
      else
        let (line, rest) := takeLine room text
        line :: readLines room fuel rest

/-- The reads until the text ends; each takes a character when there is room for one. -/
def lines (room : Nat) (text : List Char) : List (List Char) := readLines room text.length text

/-- The words of a line, in order: the longest runs of characters other than a blank. -/
def words (line : List Char) : List (List Char) := (line.splitOnP (· == ' ')).filter (· ≠ [])

/-- The text of these lines, each with its end. -/
def joinLines (bodies : List (List Char)) : List Char := bodies.flatMap fun body => body ++ ['\n']

/-- The words with a blank after each. -/
def joinWords (tokens : List (List Char)) : List Char := tokens.flatMap fun token => token ++ [' ']

/-- A text that is one word. -/
structure IsWord (token : List Char) : Prop where
  nonempty : token ≠ []
  noBlank : ' ' ∉ token

variable {room fuel : Nat} {body rest token last : List Char} {bodies tokens : List (List Char)}

theorem takeLine_append (noEnd : '\n' ∉ body) (fits : body.length < room) :
    takeLine room (body ++ '\n' :: rest) = (body ++ ['\n'], rest) := by
  induction body generalizing room with
  | nil =>
      obtain ⟨room, rfl⟩ := Nat.exists_eq_succ_of_ne_zero (Nat.ne_of_gt fits)
      rfl
  | cons c body ih =>
      obtain ⟨room, rfl⟩ := Nat.exists_eq_succ_of_ne_zero (Nat.ne_of_gt (Nat.zero_lt_of_lt fits))
      simp only [List.mem_cons, not_or] at noEnd
      have read := ih noEnd.2 (Nat.lt_of_succ_lt_succ fits)
      rw [List.cons_append, takeLine, if_neg (Ne.symm noEnd.1), read]
      rfl

theorem length_joinLines_cons : (joinLines (body :: bodies)).length = body.length + 1 + (joinLines bodies).length := by
  simp only [joinLines, List.flatMap_cons, List.length_append, List.length_singleton]

/-- Lines that fit the buffer are read back one by one. -/
theorem readLines_joinLines (noEnd : ∀ body ∈ bodies, '\n' ∉ body) (fits : ∀ body ∈ bodies, body.length < room)
    (enough : (joinLines bodies).length ≤ fuel) :
    readLines room fuel (joinLines bodies) = bodies.map (· ++ ['\n']) := by
  induction bodies generalizing fuel with
  | nil => cases fuel <;> rfl
  | cons body bodies ih =>
      rw [length_joinLines_cons] at enough
      obtain ⟨fuel, rfl⟩ := Nat.exists_eq_succ_of_ne_zero (Nat.ne_of_gt (by omega : 0 < fuel))
      obtain ⟨ends, noEnd⟩ := List.forall_mem_cons.mp noEnd
      obtain ⟨short, fits⟩ := List.forall_mem_cons.mp fits
      have split : joinLines (body :: bodies) = body ++ '\n' :: joinLines bodies := by simp [joinLines]
      have nonempty : body ++ '\n' :: joinLines bodies ≠ [] := by simp
      rw [split, readLines, if_neg nonempty, takeLine_append ends short, List.map_cons]
      have left : (joinLines bodies).length ≤ fuel := by omega
      exact congrArg _ (ih noEnd fits left)

theorem lines_joinLines (noEnd : ∀ body ∈ bodies, '\n' ∉ body) (fits : ∀ body ∈ bodies, body.length < room) :
    lines room (joinLines bodies) = bodies.map (· ++ ['\n']) :=
  readLines_joinLines noEnd fits (Nat.le_refl _)

/-- A text whose line ends stand before the lines ends its last line too. -/
theorem joinLines_cons (body : List Char) (bodies : List (List Char)) :
    joinLines (body :: bodies) = body ++ bodies.flatMap (fun line => '\n' :: line) ++ ['\n'] := by
  induction bodies generalizing body with
  | nil => simp [joinLines]
  | cons next bodies ih =>
      calc joinLines (body :: next :: bodies)
        _ = body ++ '\n' :: joinLines (next :: bodies) := by simp [joinLines]
        _ = body ++ (next :: bodies).flatMap (fun line => '\n' :: line) ++ ['\n'] := by rw [ih]; simp

theorem words_word (word : IsWord token) : words token = [token] := by
  have single : token.splitOnP (· == ' ') = [token] := by
    refine List.splitOnP_eq_singleton fun c mem => beq_false_of_ne ?_
    rintro rfl
    exact word.noBlank mem
  rw [words, single]
  simp [word.nonempty]

theorem words_append : words (token ++ ' ' :: rest) = words token ++ words rest := by
  have split : (token ++ ' ' :: rest).splitOnP (· == ' ') = token.splitOnP (· == ' ') ++ rest.splitOnP (· == ' ') :=
    List.splitOnP_append_cons token rest (beq_self_eq_true ' ')
  rw [words, split, List.filter_append]
  rfl

/-- The words of a line are the words it was written from. -/
theorem words_joinWords (word : ∀ token ∈ tokens, IsWord token) (lastWord : IsWord last) :
    words (joinWords tokens ++ last) = tokens ++ [last] := by
  induction tokens with
  | nil => exact words_word lastWord
  | cons token tokens ih =>
      obtain ⟨first, word⟩ := List.forall_mem_cons.mp word
      have split : joinWords (token :: tokens) ++ last = token ++ ' ' :: (joinWords tokens ++ last) := by
        simp [joinWords]
      rw [split, words_append, words_word first, ih word]
      rfl

end Text
