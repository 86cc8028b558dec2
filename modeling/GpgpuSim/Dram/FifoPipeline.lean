import Mathlib.Data.List.Basic
import Mathlib.Tactic.Linarith

/-! The pipeline queues of the memory controller. Empty nodes hold data back: a
pipeline is kept at a minimum length, and data pushed into it takes the last node
when that is empty. -/
namespace GpgpuSim.Dram

universe u

/-- `fifo_pipeline`, its nodes from `m_head` to `m_tail`; `m_length` is their number. -/
structure FifoPipeline (α : Type u) where
  minLen : Nat
  maxLen : Nat
  nodes : List (Option α) := []
  deriving DecidableEq, Repr

inductive FifoFault
  | assertion
  deriving DecidableEq, Repr

namespace FifoPipeline

variable {α : Type u}

def length (pipe : FifoPipeline α) : Nat := pipe.nodes.length

def full (pipe : FifoPipeline α) : Bool := decide (pipe.maxLen ≠ 0 ∧ pipe.maxLen ≤ pipe.length)

def empty (pipe : FifoPipeline α) : Bool := pipe.nodes.isEmpty

/-- `none` for a null pointer. -/
def top (pipe : FifoPipeline α) : Option α := pipe.nodes.head?.join

/-- The last node takes the data when it is empty and the pipeline long enough. -/
def push (data : Option α) (pipe : FifoPipeline α) : Except FifoFault (FifoPipeline α) :=
  if pipe.length < pipe.maxLen then
    match pipe.nodes.getLast? with
    | none => .ok { pipe with nodes := [data] }
    | some last =>
        if last.isSome ∨ pipe.length < pipe.minLen then .ok { pipe with nodes := pipe.nodes ++ [data] }
        else .ok { pipe with nodes := pipe.nodes.dropLast ++ [data] }
  else .error .assertion

def pop (pipe : FifoPipeline α) : Except FifoFault (Option α × FifoPipeline α) :=
  match pipe.nodes with
  | [] => .ok (none, pipe)
  | data :: rest =>
      if pipe.minLen ≠ 0 ∧ rest.length < pipe.minLen then
        (push none { pipe with nodes := rest }).map fun popped => (data, popped)
      else .ok (data, { pipe with nodes := rest })

/-- `count` empty nodes, as the constructor and `set_min_length` push them. -/
def pad : Nat → FifoPipeline α → Except FifoFault (FifoPipeline α)
  | 0, pipe => .ok pipe
  | count + 1, pipe =>
      match push none pipe with
      | .error fault => .error fault
      | .ok padded => pad count padded

/-- Deletes empty nodes at the tail while the pipeline is longer than its minimum,
which for a single node is what `pop` does. -/
def trim : Nat → FifoPipeline α → FifoPipeline α
  | 0, pipe => pipe
  | fuel + 1, pipe =>
      match pipe.nodes.getLast? with
      | some none =>
          if pipe.minLen < pipe.length then trim fuel { pipe with nodes := pipe.nodes.dropLast } else pipe
      | _ => pipe

def create (minLen maxLen : Nat) : Except FifoFault (FifoPipeline α) :=
  if maxLen ≠ 0 then pad minLen { minLen, maxLen } else .error .assertion

def setMinLength (newMinLen : Nat) (pipe : FifoPipeline α) : Except FifoFault (FifoPipeline α) :=
  if newMinLen = pipe.minLen then .ok pipe
  else if pipe.minLen < newMinLen then pad (newMinLen - pipe.length) { pipe with minLen := newMinLen }
  else if pipe.nodes ≠ [] then .ok (trim pipe.length { pipe with minLen := newMinLen })
  else .error .assertion

variable {pipe : FifoPipeline α}

/-- A queue that holds nothing back takes the data at its end. -/
theorem push_append (filled : none ∉ pipe.nodes) (room : pipe.length < pipe.maxLen)
    (a : α) : push (some a) pipe = .ok { pipe with nodes := pipe.nodes ++ [some a] } := by
  unfold push
  rw [if_pos room]
  cases last : pipe.nodes.getLast? with
  | none =>
      rw [List.getLast?_eq_none_iff.mp last]
      rfl
  | some node =>
      have is_some : node.isSome := by
        cases node with
        | none => exact absurd (List.mem_of_getLast? last) filled
        | some _ => rfl
      dsimp only
      rw [if_pos (.inl is_some)]

theorem pop_front (no_min : pipe.minLen = 0) {a : Option α} {rest : List (Option α)}
    (nodes : pipe.nodes = a :: rest) :
    pop pipe = .ok (a, { pipe with nodes := rest }) := by
  unfold pop
  rw [nodes]
  dsimp only
  rw [if_neg fun both => both.1 no_min]

theorem room_of_not_full (bounded : pipe.maxLen ≠ 0) (not_full : pipe.full = false) :
    pipe.length < pipe.maxLen := by
  simp only [full, decide_eq_false_iff_not, not_and, Nat.not_le] at not_full
  exact not_full bounded

variable [DecidableEq α]

/-- How often a pointer stands in the pipeline. -/
def copies (pipe : FifoPipeline α) (a : α) : Nat := pipe.nodes.count (some a)

structure Sound (pipe : FifoPipeline α) : Prop where
  min : pipe.minLen ≤ pipe.length
  max : pipe.length ≤ pipe.maxLen

theorem dropLast_count {nodes : List (Option α)} (last : nodes.getLast? = some none) (a : α) :
    nodes.dropLast.count (some a) = nodes.count (some a) := by
  obtain ⟨front, rfl⟩ := List.getLast?_eq_some_iff.mp last
  simp

omit [DecidableEq α] in
theorem length_pos_of_last {nodes : List (Option α)} {last : Option α} (is_last : nodes.getLast? = some last) :
    0 < nodes.length := by
  obtain ⟨front, rfl⟩ := List.getLast?_eq_some_iff.mp is_last
  simp

theorem push_ok (pipe : FifoPipeline α) (room : pipe.length < pipe.maxLen) (data : Option α) :
    ∃ pushed, push data pipe = .ok pushed ∧ pushed.minLen = pipe.minLen ∧ pushed.maxLen = pipe.maxLen ∧
      pipe.length ≤ pushed.length ∧ pushed.length ≤ pipe.maxLen ∧
      (pipe.length < pipe.minLen → pushed.length = pipe.length + 1) ∧
      ∀ a, pushed.copies a = pipe.copies a + if data = some a then 1 else 0 := by
  unfold push length copies at *
  rw [if_pos room]
  cases is_last : pipe.nodes.getLast? with
  | none =>
      have empty : pipe.nodes = [] := List.getLast?_eq_none_iff.mp is_last
      refine ⟨_, rfl, rfl, rfl, by simp [empty], by simp; omega, by simp [empty], ?_⟩
      simp [empty, List.count_singleton]
  | some last =>
      dsimp only
      split
      next appended =>
        refine ⟨_, rfl, rfl, rfl, by simp, by simp; omega, by simp, ?_⟩
        simp [List.count_append, List.count_singleton]
      next replaced =>
        obtain rfl : last = none := by
          cases last with
          | none => rfl
          | some _ => simp at replaced
        have some_node := length_pos_of_last is_last
        have long : ¬ pipe.nodes.length < pipe.minLen := fun short => replaced (.inr short)
        refine ⟨_, rfl, rfl, rfl, by simp; omega, by simp; omega, fun short => absurd short long, ?_⟩
        intro a
        simp [List.count_append, List.count_singleton, dropLast_count is_last a]

theorem pad_ok (pipe : FifoPipeline α) (count : Nat) (short : pipe.length + count ≤ pipe.minLen)
    (room : pipe.minLen ≤ pipe.maxLen) :
    ∃ padded, pad count pipe = .ok padded ∧ padded.minLen = pipe.minLen ∧ padded.maxLen = pipe.maxLen ∧
      padded.length = pipe.length + count ∧ ∀ a, padded.copies a = pipe.copies a := by
  induction count generalizing pipe with
  | zero => exact ⟨pipe, rfl, rfl, rfl, rfl, fun _ => rfl⟩
  | succ count ih =>
      obtain ⟨pushed, ok, min, max, -, -, longer, copies⟩ := push_ok pipe (by omega) none
      have one_longer := longer (by omega)
      obtain ⟨padded, ok', min', max', length, copies'⟩ := ih pushed (by omega) (by omega)
      refine ⟨padded, ?_, by omega, by omega, by omega, ?_⟩
      · rw [pad, ok]
        exact ok'
      · intro a
        rw [copies', copies]
        simp

theorem create_ok {minLen maxLen : Nat} (some : maxLen ≠ 0) (room : minLen ≤ maxLen) :
    ∃ pipe : FifoPipeline α, create minLen maxLen = .ok pipe ∧ pipe.Sound ∧ pipe.minLen = minLen ∧
      pipe.maxLen = maxLen ∧ ∀ a, pipe.copies a = 0 := by
  obtain ⟨padded, ok, min, max, length, copies⟩ := pad_ok (⟨minLen, maxLen, []⟩ : FifoPipeline α) minLen
    (by simp [FifoPipeline.length]) room
  simp only [FifoPipeline.length, List.length_nil, Nat.zero_add] at length min max
  refine ⟨padded, ?_, ⟨?_, ?_⟩, min, max, fun a => by simpa [FifoPipeline.copies] using copies a⟩
  · rw [create, if_pos some]
    exact ok
  · unfold FifoPipeline.length
    omega
  · unfold FifoPipeline.length
    omega

theorem pop_ok (sound : pipe.Sound) :
    ∃ data popped, pop pipe = .ok (data, popped) ∧ popped.Sound ∧ popped.minLen = pipe.minLen ∧
      popped.maxLen = pipe.maxLen ∧ popped.length ≤ pipe.length ∧
      ∀ a, pipe.copies a = popped.copies a + if data = some a then 1 else 0 := by
  obtain ⟨min, max⟩ := sound
  unfold pop
  cases nodes : pipe.nodes with
  | nil => exact ⟨none, pipe, rfl, ⟨min, max⟩, rfl, rfl, le_refl _, by simp⟩
  | cons data rest =>
      have length : pipe.length = rest.length + 1 := by simp [FifoPipeline.length, nodes]
      dsimp only
      split
      next short =>
        obtain ⟨pushed, ok, min', max', -, -, longer, copies⟩ :=
          push_ok { pipe with nodes := rest } (by simp [FifoPipeline.length]; omega) none
        have one_longer := longer short.2
        dsimp only [FifoPipeline.length] at one_longer length min max min' max'
        refine ⟨data, pushed, by rw [ok]; rfl, ⟨?_, ?_⟩, min', max', ?_, ?_⟩
        · simp only [FifoPipeline.length]
          omega
        · simp only [FifoPipeline.length]
          omega
        · simp only [FifoPipeline.length]
          omega
        · intro a
          rw [copies]
          simp [FifoPipeline.copies, nodes, List.count_cons]
      next long =>
        refine ⟨data, _, rfl, ⟨?_, ?_⟩, rfl, rfl, by simp [FifoPipeline.length] at *; omega, ?_⟩
        · simp only [FifoPipeline.length] at *
          omega
        · simp only [FifoPipeline.length] at *
          omega
        · intro a
          simp [FifoPipeline.copies, nodes, List.count_cons]

theorem trim_ok (pipe : FifoPipeline α) (fuel : Nat) (min : pipe.minLen ≤ pipe.length) :
    (trim fuel pipe).minLen = pipe.minLen ∧ (trim fuel pipe).maxLen = pipe.maxLen ∧
      pipe.minLen ≤ (trim fuel pipe).length ∧ (trim fuel pipe).length ≤ pipe.length ∧
      ∀ a, (trim fuel pipe).copies a = pipe.copies a := by
  induction fuel generalizing pipe with
  | zero => exact ⟨rfl, rfl, min, le_refl _, fun _ => rfl⟩
  | succ fuel ih =>
      rw [trim]
      split
      next is_last =>
        split
        next longer =>
          have some_node := length_pos_of_last is_last
          obtain ⟨min', max', bound, shorter, copies⟩ := ih { pipe with nodes := pipe.nodes.dropLast }
            (by simp [FifoPipeline.length] at *; omega)
          refine ⟨min', max', bound, ?_, ?_⟩
          · simp only [FifoPipeline.length, List.length_dropLast] at *
            omega
          · intro a
            rw [copies]
            exact dropLast_count is_last a
        next short => exact ⟨rfl, rfl, min, le_refl _, fun _ => rfl⟩
      next => exact ⟨rfl, rfl, min, le_refl _, fun _ => rfl⟩

/-- A change of the minimum length loses nothing. -/
theorem setMinLength_ok (sound : pipe.Sound) {newMinLen : Nat} (room : newMinLen ≤ pipe.maxLen) :
    ∃ changed, setMinLength newMinLen pipe = .ok changed ∧ changed.Sound ∧ changed.minLen = newMinLen ∧
      changed.maxLen = pipe.maxLen ∧ changed.length ≤ max pipe.length newMinLen ∧
      ∀ a, changed.copies a = pipe.copies a := by
  obtain ⟨min, max⟩ := sound
  unfold setMinLength
  split
  next same => exact ⟨pipe, rfl, ⟨min, max⟩, same.symm, rfl, le_max_left .., fun _ => rfl⟩
  next differs =>
    split
    next grows =>
      by_cases long : newMinLen ≤ pipe.length
      · have none_missing : newMinLen - pipe.length = 0 := by omega
        rw [none_missing]
        exact ⟨_, rfl, ⟨long, max⟩, rfl, rfl, le_max_left .., fun _ => rfl⟩
      · obtain ⟨padded, ok, min', max', length, copies⟩ :=
          pad_ok { pipe with minLen := newMinLen } (newMinLen - pipe.length)
            (by simp [FifoPipeline.length] at *; omega) room
        dsimp only [FifoPipeline.length] at length long min max min' max'
        refine ⟨padded, ok, ⟨?_, ?_⟩, min', max', ?_, copies⟩
        · simp only [FifoPipeline.length]
          omega
        · simp only [FifoPipeline.length]
          omega
        · simp only [FifoPipeline.length]
          omega
    next shrinks =>
      have some_node : pipe.nodes ≠ [] := by
        intro empty
        simp only [FifoPipeline.length, empty, List.length_nil] at min
        omega
      rw [if_pos some_node]
      obtain ⟨min', max', bound, shorter, copies⟩ :=
        trim_ok { pipe with minLen := newMinLen } pipe.length (by simp [FifoPipeline.length] at *; omega)
      refine ⟨_, rfl, ⟨?_, ?_⟩, min', max', ?_, copies⟩
      · rw [min']
        exact bound
      · rw [max']
        exact shorter.trans max
      · exact shorter.trans (le_max_left ..)

end FifoPipeline

end GpgpuSim.Dram
