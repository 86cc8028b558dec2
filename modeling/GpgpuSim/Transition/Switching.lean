import Mathlib.Data.List.Basic
import Mathlib.Logic.Function.Basic

/-! Items queue at the inputs of a switch and then at its outputs. What is on the
way from one input to one output is a list, oldest first: accepting an item appends
to it, forwarding does not change it, and releasing an item takes its front. -/
namespace Transition

variable {ι κ α : Type*} [DecidableEq ι] [DecidableEq κ]

structure Switch (ι κ α : Type*) where
  inputs : ι → List α
  outputs : κ → List α

namespace Switch

def empty : Switch ι κ α := ⟨fun _ => [], fun _ => []⟩

variable (source : α → ι) (target : α → κ)

/-- Items queue where they came in and where they are going. -/
structure Sound (switch : Switch ι κ α) : Prop where
  inputs : ∀ i, ∀ a ∈ switch.inputs i, source a = i
  outputs : ∀ k, ∀ a ∈ switch.outputs k, target a = k

/-- The items on the way from one input to one output. -/
def transit (switch : Switch ι κ α) (i : ι) (k : κ) : List α :=
  (switch.outputs k).filter (fun a => decide (source a = i)) ++
    (switch.inputs i).filter (fun a => decide (target a = k))

/-- An item, if it goes from `i` to `k`. -/
def between (i : ι) (k : κ) (a : α) : List α := if source a = i ∧ target a = k then [a] else []

def accept (switch : Switch ι κ α) (i : ι) (a : α) : Switch ι κ α :=
  { switch with inputs := Function.update switch.inputs i (switch.inputs i ++ [a]) }

/-- The front item `a` of an input goes on to its output. -/
def forward (switch : Switch ι κ α) (i : ι) (a : α) : Switch ι κ α where
  inputs := Function.update switch.inputs i (switch.inputs i).tail
  outputs := Function.update switch.outputs (target a) (switch.outputs (target a) ++ [a])

def release (switch : Switch ι κ α) (k : κ) : Switch ι κ α :=
  { switch with outputs := Function.update switch.outputs k (switch.outputs k).tail }

variable {source target} {switch : Switch ι κ α} {i j : ι} {k l : κ} {a : α} {rest : List α}

omit [DecidableEq ι] [DecidableEq κ] in
theorem Sound.empty : Sound source target (empty : Switch ι κ α) := by
  constructor
  · intro i a member
    contradiction
  · intro k a member
    contradiction

omit [DecidableEq κ] in
theorem Sound.accept (sound : Sound source target switch) (from_i : source a = i) :
    Sound source target (switch.accept i a) where
  inputs j b member := by
    by_cases same : j = i
    · subst same
      simp only [Switch.accept, Function.update_self, List.mem_append, List.mem_singleton] at member
      rcases member with queued | rfl
      · exact sound.inputs j b queued
      · exact from_i
    · simp only [Switch.accept, Function.update_of_ne same] at member
      exact sound.inputs j b member
  outputs := sound.outputs

theorem Sound.forward (sound : Sound source target switch) :
    Sound source target (switch.forward target i a) where
  inputs j b member := by
    by_cases same : j = i
    · subst same
      simp only [Switch.forward, Function.update_self] at member
      exact sound.inputs j b (List.mem_of_mem_tail member)
    · simp only [Switch.forward, Function.update_of_ne same] at member
      exact sound.inputs j b member
  outputs l b member := by
    by_cases same : l = target a
    · subst same
      simp only [Switch.forward, Function.update_self, List.mem_append, List.mem_singleton] at member
      rcases member with queued | rfl
      · exact sound.outputs _ b queued
      · rfl
    · simp only [Switch.forward, Function.update_of_ne same] at member
      exact sound.outputs l b member

omit [DecidableEq ι] in
theorem Sound.release (sound : Sound source target switch) :
    Sound source target (switch.release k) where
  inputs := sound.inputs
  outputs l b member := by
    by_cases same : l = k
    · subst same
      simp only [Switch.release, Function.update_self] at member
      exact sound.outputs l b (List.mem_of_mem_tail member)
    · simp only [Switch.release, Function.update_of_ne same] at member
      exact sound.outputs l b member

theorem transit_accept (from_i : source a = i) :
    (switch.accept i a).transit source target j l =
      switch.transit source target j l ++ between source target j l a := by
  unfold transit between accept
  by_cases same : j = i
  · subst same
    simp only [Function.update_self, List.filter_append, List.append_assoc, from_i, true_and]
    by_cases there : target a = l <;> simp [there]
  · rw [if_neg (by rw [from_i]; exact fun both => same both.1.symm), List.append_nil]
    simp only [Function.update_of_ne same]

/-- Forwarding keeps everything on its way. -/
theorem transit_forward (sound : Sound source target switch) (front : switch.inputs i = a :: rest) :
    (switch.forward target i a).transit source target j l = switch.transit source target j l := by
  have from_i : source a = i := sound.inputs i a (by rw [front]; exact List.mem_cons_self)
  unfold transit forward
  by_cases here : j = i
  · subst here
    by_cases there : l = target a
    · subst there
      simp [front, from_i]
    · simp [front, Function.update_of_ne there, Ne.symm there]
  · by_cases there : l = target a
    · subst there
      simp [Function.update_of_ne here, from_i, Ne.symm here]
    · simp [Function.update_of_ne here, Function.update_of_ne there]

theorem transit_release (sound : Sound source target switch) (front : switch.outputs k = a :: rest) :
    switch.transit source target j l =
      between source target j l a ++ (switch.release k).transit source target j l := by
  have to_k : target a = k := sound.outputs k a (by rw [front]; exact List.mem_cons_self)
  unfold transit between release
  by_cases here : l = k
  · subst here
    by_cases from_j : source a = j <;> simp [front, from_j, to_k]
  · rw [if_neg (by rw [to_k]; exact fun both => here both.2.symm), List.nil_append]
    simp only [Function.update_of_ne here]

end Switch

end Transition
