import GpgpuSim.Containers.DelayLine
import GpgpuSim.Dram.FifoPipeline
import GpgpuSim.Transition.Runs

/-! Runs of a pipeline queue. What has left it, followed by its nodes, is a delay line: pushed data
goes behind everything that was pushed before and then keeps its place, so that the number of nodes
in front of it is the number of pops it waits for. -/
namespace GpgpuSim.Dram
open Containers Transition

universe u

/-- What an observer sees a call do; the position of pushed data counts from the head. -/
inductive PipelineEvent (α : Type u)
  | pushed (data : Option α) (position : Nat)
  | popped (data : Option α)

variable {α : Type u}

/-- The calls of a run: the users ask `full` before they push. -/
inductive PipelineStep (pipe : FifoPipeline α) : List (PipelineEvent α) → FifoPipeline α → Prop
  | push {data : Option α} {next : FifoPipeline α} :
      pipe.full = false → pipe.push data = .ok next → PipelineStep pipe [.pushed data next.length] next
  | pop {data : Option α} {next : FifoPipeline α} :
      pipe.pop = .ok (data, next) → PipelineStep pipe [.popped data] next
  | setMinLength {newMinLen : Nat} {next : FifoPipeline α} :
      newMinLen ≤ pipe.maxLen → pipe.setMinLength newMinLen = .ok next → PipelineStep pipe [] next

/-- The pointers that were pushed, without the null pointers. -/
def pushes : List (PipelineEvent α) → List α
  | [] => []
  | .pushed data _ :: events => data.toList ++ pushes events
  | .popped _ :: events => pushes events

/-- What the pops returned, `none` for a null pointer. -/
def pops : List (PipelineEvent α) → List (Option α)
  | [] => []
  | .pushed _ _ :: events => pops events
  | .popped data :: events => data :: pops events

@[simp] theorem pushes_append (early late : List (PipelineEvent α)) :
    pushes (early ++ late) = pushes early ++ pushes late := by
  induction early with
  | nil => rfl
  | cons event early ih => cases event <;> simp [pushes, ih]

@[simp] theorem pops_append (early late : List (PipelineEvent α)) : pops (early ++ late) = pops early ++ pops late := by
  induction early with
  | nil => rfl
  | cons event early ih => cases event <;> simp [pops, ih]

namespace FifoPipeline

variable {pipe next : FifoPipeline α} {data : Option α}

theorem push_nodes (done : push data pipe = .ok next) : next.minLen = pipe.minLen ∧ next.maxLen = pipe.maxLen ∧
    (next.nodes = pipe.nodes ++ [data] ∨ ∃ front, pipe.nodes = front ++ [none] ∧ next.nodes = front ++ [data]) := by
  rw [push] at done
  split at done
  · cases is_last : pipe.nodes.getLast? with
    | none =>
        rw [is_last] at done
        cases done
        exact ⟨rfl, rfl, .inl (by rw [List.getLast?_eq_none_iff.mp is_last]; rfl)⟩
    | some last =>
        rw [is_last] at done
        dsimp only at done
        split at done
        next => cases done; exact ⟨rfl, rfl, .inl rfl⟩
        next replaced =>
          cases done
          obtain rfl : last = none := by
            cases last with
            | none => rfl
            | some _ => simp at replaced
          obtain ⟨front, split⟩ := List.getLast?_eq_some_iff.mp is_last
          exact ⟨rfl, rfl, .inr ⟨front, split, by simp [split]⟩⟩
  · cases done

/-- Pushed data stands in the last node. -/
theorem push_last (done : push data pipe = .ok next) : next.nodes[next.length - 1]? = some data := by
  obtain ⟨-, -, nodes | ⟨front, -, nodes⟩⟩ := push_nodes done
  · simp [FifoPipeline.length, nodes]
  · simp [FifoPipeline.length, nodes]

theorem push_extends (done : push data pipe = .ok next) : Extends pipe.nodes next.nodes data.toList := by
  have elements : [data].reduceOption = data.toList := by cases data <;> rfl
  obtain ⟨-, -, nodes | ⟨front, before, nodes⟩⟩ := push_nodes done
  · rw [nodes, ← elements]
    exact .append pipe.nodes [data]
  · rw [before, nodes, ← elements]
    exact .replace front data

/-- An empty node pushed is one more empty node or none. -/
theorem push_none_nodes (done : push none pipe = .ok next) :
    ∃ blanks, next.nodes = pipe.nodes ++ List.replicate blanks none := by
  obtain ⟨-, -, nodes | ⟨front, before, nodes⟩⟩ := push_nodes done
  · exact ⟨1, nodes⟩
  · exact ⟨0, by simp [before, nodes]⟩

theorem pad_nodes {count : Nat} (done : pad count pipe = .ok next) :
    ∃ blanks, next.nodes = pipe.nodes ++ List.replicate blanks none := by
  induction count generalizing pipe with
  | zero =>
      cases done
      exact ⟨0, by simp⟩
  | succ count ih =>
      rw [pad] at done
      cases first : push none pipe with
      | error fault =>
          rw [first] at done
          cases done
      | ok pushed =>
          rw [first] at done
          obtain ⟨one, pushed_nodes⟩ := push_none_nodes first
          obtain ⟨blanks, nodes⟩ := ih done
          exact ⟨one + blanks, by rw [nodes, pushed_nodes, List.append_assoc, List.replicate_append_replicate]⟩

theorem trim_nodes (pipe : FifoPipeline α) (fuel : Nat) :
    ∃ blanks, pipe.nodes = (trim fuel pipe).nodes ++ List.replicate blanks none := by
  induction fuel generalizing pipe with
  | zero => exact ⟨0, by simp [trim]⟩
  | succ fuel ih =>
      rw [trim]
      split
      next is_last =>
        split
        next =>
          obtain ⟨front, split⟩ := List.getLast?_eq_some_iff.mp is_last
          obtain ⟨blanks, nodes⟩ := ih { pipe with nodes := pipe.nodes.dropLast }
          have whole : pipe.nodes = pipe.nodes.dropLast ++ [none] := by simp [split]
          dsimp only at nodes
          exact ⟨blanks + 1, by rw [List.replicate_succ', ← List.append_assoc, ← nodes, ← whole]⟩
        next => exact ⟨0, by simp⟩
      next => exact ⟨0, by simp⟩

/-- A change of the minimum length moves nothing. -/
theorem setMinLength_extends {newMinLen : Nat} (done : setMinLength newMinLen pipe = .ok next) :
    Extends pipe.nodes next.nodes [] := by
  rw [setMinLength] at done
  split at done
  · cases done
    exact .refl _
  · split at done
    · obtain ⟨blanks, nodes⟩ := pad_nodes done
      rw [nodes]
      simpa using Extends.append pipe.nodes (List.replicate blanks none)
    · split at done
      · cases done
        obtain ⟨blanks, nodes⟩ := trim_nodes { pipe with minLen := newMinLen } pipe.length
        have cut := Extends.trim (trim pipe.length { pipe with minLen := newMinLen }).nodes blanks
        rwa [← nodes] at cut
      · cases done

/-- The head leaves, and an empty node may come in. -/
theorem pop_extends (done : pop pipe = .ok (data, next)) : Extends pipe.nodes (data :: next.nodes) [] := by
  rw [pop] at done
  cases nodes : pipe.nodes with
  | nil =>
      rw [nodes] at done
      cases done
      rw [nodes]
      exact .append [] [none]
  | cons head rest =>
      rw [nodes] at done
      dsimp only at done
      split at done
      · cases pushed : push none { pipe with nodes := rest } with
        | error fault =>
            rw [pushed] at done
            cases done
        | ok popped =>
            rw [pushed] at done
            cases done
            obtain ⟨blanks, after⟩ := push_none_nodes pushed
            rw [after]
            simpa using Extends.append (data :: rest) (List.replicate blanks none)
      · cases done
        exact .refl _

end FifoPipeline

namespace PipelineStep

variable {start pipe next pushed : FifoPipeline α} {trace events later : List (PipelineEvent α)}

/-- What has left and what is inside, before and after a call. -/
theorem extends_line (stepped : PipelineStep pipe events next) :
    Extends pipe.nodes (pops events ++ next.nodes) (pushes events) := by
  cases stepped with
  | push _ done => simpa [pops, pushes] using FifoPipeline.push_extends done
  | pop done => exact FifoPipeline.pop_extends done
  | setMinLength _ done => exact FifoPipeline.setMinLength_extends done

theorem bounds (stepped : PipelineStep pipe events next) (sound : pipe.Sound)
    (some : pipe.maxLen ≠ 0) : next.Sound ∧ next.maxLen = pipe.maxLen := by
  classical
  cases stepped with
  | @push data _ space done =>
      have room := FifoPipeline.room_of_not_full some space
      obtain ⟨pushed, succeeds, min, max, longer, short, -, -⟩ := FifoPipeline.push_ok pipe room data
      cases succeeds.symm.trans done
      exact ⟨⟨min ▸ sound.min.trans longer, max ▸ short⟩, max⟩
  | pop done =>
      obtain ⟨data, popped, succeeds, kept, -, max, -, -⟩ := FifoPipeline.pop_ok sound
      cases succeeds.symm.trans done
      exact ⟨kept, max⟩
  | setMinLength fits done =>
      obtain ⟨changed, succeeds, kept, -, max, -, -⟩ := FifoPipeline.setMinLength_ok sound fits
      cases succeeds.symm.trans done
      exact ⟨kept, max⟩

theorem run_bounds (run : Reaches PipelineStep start trace pipe) (sound : start.Sound)
    (some : start.maxLen ≠ 0) : pipe.Sound ∧ pipe.maxLen = start.maxLen := by
  induction run with
  | refl => exact ⟨sound, rfl⟩
  | next _ stepped ih =>
      obtain ⟨kept, max⟩ := stepped.bounds ih.1 (ih.2 ▸ some)
      exact ⟨kept, max.trans ih.2⟩

/-- Everything comes out in the order in which it was pushed. -/
theorem run_order (run : Reaches PipelineStep start trace pipe) :
    (pops trace ++ pipe.nodes).reduceOption = start.nodes.reduceOption ++ pushes trace := by
  induction run with
  | refl => simp [pops, pushes]
  | @next trace events s t _ stepped ih =>
      have grown := (stepped.extends_line.prepend (pops trace)).elements
      calc (pops (trace ++ events) ++ t.nodes).reduceOption
          = (pops trace ++ (pops events ++ t.nodes)).reduceOption := by rw [pops_append, List.append_assoc]
        _ = start.nodes.reduceOption ++ pushes (trace ++ events) := by
            rw [grown, ih, pushes_append, List.append_assoc]

/-- What is inside keeps its place in the line of what has left and what is inside. -/
theorem run_keeps (run : Reaches PipelineStep start trace pipe) {i : Nat} {a : α}
    (here : start.nodes[i]? = some (some a)) : (pops trace ++ pipe.nodes)[i]? = some (some a) := by
  induction run with
  | refl => exact here
  | @next trace events s t _ stepped ih =>
      rw [pops_append, List.append_assoc]
      exact (stepped.extends_line.prepend (pops trace)).keeps ih

/-- The pop that returns a node is the one that its position counts. -/
theorem popped_at_position (run : Reaches PipelineStep start trace pipe) {i : Nat} {a : α}
    (here : start.nodes[i]? = some (some a)) (waited : i < (pops trace).length) :
    (pops trace)[i]? = some (some a) := by
  rw [← List.getElem?_append_left waited]
  exact run_keeps run here

end PipelineStep

/-- A pipeline whose minimum length is within its maximum can be created; in all its runs no call meets a
failing assertion, the length stays between the bounds, what was pushed comes out in order, each pointer
once, and a pointer pushed to position `p` is returned by the `p`-th pop from then on. -/
theorem pipeline_keeps_order_and_delay (minLen maxLen : Nat) (some : maxLen ≠ 0) (room : minLen ≤ maxLen) :
    ∃ start : FifoPipeline α, FifoPipeline.create minLen maxLen = .ok start ∧
      ∀ trace pipe, Reaches PipelineStep start trace pipe →
        (pipe.maxLen = maxLen ∧ pipe.minLen ≤ pipe.length ∧ pipe.length ≤ pipe.maxLen) ∧
        (pipe.full = false → ∀ data, ∃ next, pipe.push data = .ok next) ∧
        (∃ data next, pipe.pop = .ok (data, next)) ∧
        (∀ newMinLen ≤ pipe.maxLen, ∃ next, pipe.setMinLength newMinLen = .ok next) ∧
        pushes trace = (pops trace).reduceOption ++ pipe.nodes.reduceOption ∧
        ∀ a pushed, pipe.full = false → pipe.push (.some a) = .ok pushed → pushed.minLen ≤ pushed.length ∧
          ∀ later after, Reaches PipelineStep pushed later after → pushed.length ≤ (pops later).length →
            (pops later)[pushed.length - 1]? = .some (.some a) := by
  classical
  obtain ⟨start, created, sound, -, max, copies⟩ := FifoPipeline.create_ok (α := α) some room
  refine ⟨start, created, fun trace pipe run => ?_⟩
  obtain ⟨kept, same⟩ := PipelineStep.run_bounds run sound (max ▸ some)
  have positive : pipe.maxLen ≠ 0 := by rw [same, max]; exact some
  refine ⟨⟨same.trans max, kept.min, kept.max⟩, ?_, ?_, ?_, ?_, ?_⟩
  · intro space data
    obtain ⟨next, done, -⟩ := FifoPipeline.push_ok pipe (FifoPipeline.room_of_not_full positive space) data
    exact ⟨next, done⟩
  · obtain ⟨data, next, done, -⟩ := FifoPipeline.pop_ok kept
    exact ⟨data, next, done⟩
  · intro newMinLen fits
    obtain ⟨next, done, -⟩ := FifoPipeline.setMinLength_ok kept fits
    exact ⟨next, done⟩
  · have empty : start.nodes.reduceOption = [] := by
      rw [List.eq_nil_iff_forall_not_mem]
      intro a inside
      exact List.count_eq_zero.mp (copies a) (List.reduceOption_mem_iff.mp inside)
    have order := PipelineStep.run_order run
    rwa [empty, List.nil_append, List.reduceOption_append, eq_comm] at order
  · intro a pushed space done
    have stepped : PipelineStep pipe [.pushed (.some a) pushed.length] pushed := .push space done
    have after_push := (stepped.bounds kept positive).1
    refine ⟨after_push.min, fun later after more waited => ?_⟩
    have some_node : 0 < pushed.length := by
      obtain ⟨inside, -⟩ := List.getElem?_eq_some_iff.mp (FifoPipeline.push_last done)
      exact Nat.zero_lt_of_lt inside
    exact PipelineStep.popped_at_position more (FifoPipeline.push_last done) (by omega)

/-- In a pipeline that holds data back for two pops, the first data pushed comes out with the second pop. -/
theorem pipeline_keeps_order_and_delay_two :
    ∃ pushed : FifoPipeline Nat, pushed.nodes = [none, some 7] ∧ ∀ later after,
      Reaches PipelineStep pushed later after →
      2 ≤ (pops later).length → (pops later)[1]? = some (some 7) := by
  obtain ⟨start, created, runs⟩ := pipeline_keeps_order_and_delay (α := Nat) 2 4 (by decide) (by decide)
  cases created.symm.trans (rfl : FifoPipeline.create 2 4 = .ok ⟨2, 4, [none, none]⟩)
  obtain ⟨-, -, -, -, -, delayed⟩ := runs [] _ .refl
  exact ⟨⟨2, 4, [none, some 7]⟩, rfl, (delayed 7 ⟨2, 4, [none, some 7]⟩ rfl rfl).2⟩

end GpgpuSim.Dram
