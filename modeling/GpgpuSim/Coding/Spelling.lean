import GpgpuSim.Coding.Canonical

/-! Sequences of words of one length as one string of bits, each word with its most
significant bit first. Two sequences of different word lengths can spell the same string. -/
namespace Coding

def spelling (len : ℕ) (values : List ℕ) : List Bool := values.flatMap (word · len)

variable {len wide p : ℕ} {values others : List ℕ}

theorem spelling_cons (value : ℕ) (values : List ℕ) :
    spelling len (value :: values) = word value len ++ spelling len values := rfl

@[simp] theorem length_spelling (len : ℕ) (values : List ℕ) :
    (spelling len values).length = len * values.length := by
  induction values with
  | nil => rfl
  | cons value values ih =>
      rw [spelling_cons, List.length_append, length_word, ih, List.length_cons, Nat.mul_succ, Nat.add_comm]

/-- A position of the string is a place in one of the words. -/
theorem getElem?_spelling (inside : p < len * values.length) :
    (spelling len values)[p]? = some ((values.getD (p / len) 0).testBit (len - 1 - p % len)) := by
  have positive : 0 < len := Nat.pos_of_mul_pos_right (Nat.zero_lt_of_lt inside)
  induction values generalizing p with
  | nil => exact absurd inside (Nat.not_lt_zero p)
  | cons value values ih =>
      rw [spelling_cons]
      by_cases first : p < len
      · have within : p < (word value len).length := by rwa [length_word]
        rw [List.getElem?_append_left within, List.getElem?_eq_getElem within, getElem_word,
          Nat.div_eq_of_lt first, Nat.mod_eq_of_lt first, List.getD_cons_zero]
      · have beyond : len ≤ p := Nat.le_of_not_lt first
        have later : p - len < len * values.length := by
          rw [List.length_cons, Nat.mul_succ] at inside
          omega
        have next : p / len = (p - len) / len + 1 := Nat.div_eq_sub_div positive beyond
        have place : p % len = (p - len) % len := Nat.mod_eq_sub_mod beyond
        rw [List.getElem?_append_right (by rwa [length_word]), length_word, ih later, next, place,
          List.getD_cons_succ]

/-- Words that have the bits of other words, place by place, spell the beginning of the same string. -/
theorem spelling_eq_take (fits : len * values.length ≤ wide * others.length)
    (bits : ∀ p < len * values.length, (values.getD (p / len) 0).testBit (len - 1 - p % len) =
      (others.getD (p / wide) 0).testBit (wide - 1 - p % wide)) :
    spelling len values = (spelling wide others).take (len * values.length) := by
  apply List.ext_getElem?
  intro p
  by_cases inside : p < len * values.length
  · rw [List.getElem?_take_of_lt inside, getElem?_spelling inside, getElem?_spelling (inside.trans_le fits),
      bits p inside]
  · have outside : len * values.length ≤ p := Nat.le_of_not_lt inside
    rw [List.getElem?_eq_none (by rwa [length_spelling]),
      List.getElem?_eq_none ((List.length_take_le _ _).trans outside)]

end Coding
