import GpgpuSim.Interconnect.LocalInterconnect

/-! The interconnect with one network. `Push` and `HasBuffer` look at the number of
networks, `Pop` does not: a shader pops from the second one, which is not there. -/
namespace GpgpuSim.Interconnect
open Transition

/-- What stops a call: an entry of `net` that does not exist, or the assertion of `Push`. -/
inductive IcntFault
  | noSubnet
  | noBuffer
  deriving DecidableEq, Repr

inductive Call (δ : Type*)
  | push (inputDeviceID outputDeviceID : Nat) (data : δ)
  | pop (outputDeviceID : Nat)
  | advance

namespace LocalInterconnect

variable {δ : Type*} (cfg : InctConfig)

/-- A call on the networks that `CreateInterconnect` has made, with what it returns. -/
def perform (icnt : LocalInterconnect δ) :
    Call δ → Except IcntFault (Option (Packet δ) × LocalInterconnect δ)
  | .push input output data =>
      if cfg.subnets ≤ icnt.pushSubnet cfg input then .error .noSubnet
      else if (icnt.net (icnt.pushSubnet cfg input)).hasBufferIn cfg input 1 then
        .ok (none, icnt.push cfg input output data)
      else .error .noBuffer
  | .pop output =>
      if cfg.subnets ≤ icnt.popSubnet output then .error .noSubnet else .ok (icnt.pop output)
  | .advance => .ok (none, icnt.advance cfg)

/-- The calls that a node may make: to a node, and a push only after `HasBuffer`. -/
def Allowed (icnt : LocalInterconnect δ) : Call δ → Prop
  | .push input output _ => input < icnt.nShader + icnt.nMem ∧ output < icnt.nShader + icnt.nMem ∧
      icnt.hasBuffer cfg input = true
  | .pop output => output < icnt.nShader + icnt.nMem
  | .advance => True

/-- A call that comes back, with its answer. -/
inductive Served (icnt : LocalInterconnect δ) :
    List (Call δ × Option (Packet δ)) → LocalInterconnect δ → Prop
  | call {c : Call δ} {answer : Option (Packet δ)} {next : LocalInterconnect δ}
      (allowed : icnt.Allowed cfg c) (returns : icnt.perform cfg c = .ok (answer, next)) :
      Served icnt [(c, answer)] next

abbrev ServedRun (nShader nMem : Nat) (calls : List (Call δ × Option (Packet δ)))
    (icnt : LocalInterconnect δ) : Prop :=
  Reaches (Served cfg) (create cfg nShader nMem) calls icnt

/-- What the nodes see of a call. -/
def seen : Call δ × Option (Packet δ) → List (Event δ)
  | (.push input output data, _) => [.pushed input output data]
  | (.pop output, answer) => answer.toList.map (.popped output)
  | (.advance, _) => []

/-- What the pops of a node have returned, oldest first. -/
def answers (n : Nat) (calls : List (Call δ × Option (Packet δ))) : List (Option (Packet δ)) :=
  calls.filterMap fun
    | (.pop output, answer) => if output = n then some answer else none
    | _ => none

/-- The packets in the output buffers of a node. -/
def waiting (icnt : LocalInterconnect δ) (n : Nat) : List (Packet δ) :=
  (List.range cfg.subnets).flatMap fun subnet => (icnt.net subnet).outBuffers n

/-- A node gets its packets: its pops find their network, return what waits for it one
packet after the other, and have returned what was pushed and is not in a buffer. -/
structure Delivers (calls : List (Call δ × Option (Packet δ))) (icnt : LocalInterconnect δ) (n : Nat) :
    Prop where
  exist : icnt.perform cfg (.pop n) ≠ .error .noSubnet
  returned : ∃ more later, Reaches (Served cfg) icnt more later ∧
    answers n more = (icnt.waiting cfg n).map some
  once : ∀ more later, Reaches (Served cfg) icnt more later →
    (answers n more).take (icnt.waiting cfg n).length =
      ((icnt.waiting cfg n).take (answers n more).length).map some
  conserved : ∀ input, pushes input n (calls.flatMap seen) =
    pops input n (calls.flatMap seen) ++ (icnt.buffered input n).map Packet.data

variable {cfg} {icnt next : LocalInterconnect δ} {calls : List (Call δ × Option (Packet δ))} {n : Nat}

/-- A call that comes back is a step of the interconnect. -/
theorem Served.step (served : Served cfg icnt calls next) : Step cfg icnt (calls.flatMap seen) next := by
  obtain ⟨allowed, returns⟩ := served
  rename_i c answer
  rw [List.flatMap_singleton]
  cases c with
  | push input output data =>
      simp only [perform] at returns
      split at returns
      · cases returns
      · split at returns
        · cases returns
          exact .push input output data allowed.1 allowed.2.1 allowed.2.2
        · cases returns
  | pop output =>
      simp only [perform] at returns
      split at returns
      · cases returns
      · obtain ⟨rfl, rfl⟩ := Prod.ext_iff.mp (Except.ok.inj returns)
        exact .pop output allowed
  | advance =>
      cases returns
      exact .advance

theorem served_reaches (run : Reaches (Served cfg) icnt calls next) :
    Reaches (Step cfg) icnt (calls.flatMap seen) next := by
  induction run with
  | refl => exact .refl
  | next _ served ih =>
      rw [List.flatMap_append]
      exact ih.next served.step

theorem Served.nodes (served : Served cfg icnt calls next) :
    next.nShader = icnt.nShader ∧ next.nMem = icnt.nMem := by
  have step := served.step
  generalize calls.flatMap seen = events at step
  cases step <;> exact ⟨rfl, rfl⟩

/-- The numbers of nodes never change. -/
theorem served_nodes (run : Reaches (Served cfg) icnt calls next) :
    next.nShader = icnt.nShader ∧ next.nMem = icnt.nMem := by
  induction run with
  | refl => exact ⟨rfl, rfl⟩
  | next _ served ih =>
      obtain ⟨shaders, mems⟩ := served.nodes
      exact ⟨shaders.trans ih.1, mems.trans ih.2⟩

theorem waiting_single (single : cfg.subnets = 1) : icnt.waiting cfg n = (icnt.net 0).outBuffers n := by
  unfold waiting
  rw [single]
  exact List.append_nil _

theorem outBuffers_moves {router moved : XbarRouter δ} (moves : XbarRouter.Moves cfg router moved) (n : Nat) :
    ∃ fresh, moved.outBuffers n = router.outBuffers n ++ fresh := by
  induction moves with
  | refl => exact ⟨[], (List.append_nil _).symm⟩
  | @move router moved nodeId packet rest front room _ ih =>
      obtain ⟨fresh, later⟩ := ih
      by_cases same : n = packet.outputDeviceID
      · subst same
        refine ⟨packet :: fresh, ?_⟩
        rw [later]
        simp [XbarRouter.forward]
      · refine ⟨fresh, ?_⟩
        rw [later]
        simp [XbarRouter.forward, same]
  | turn nextNode nextNodeId grantCyclesCount _ ih => exact ih

/-! ## One network -/

/-- With one network, a pop comes back exactly at a memory node. -/
theorem perform_pop_single (single : cfg.subnets = 1) :
    icnt.perform cfg (.pop n) = if n < icnt.nShader then .error .noSubnet else .ok (icnt.pop n) := by
  by_cases shader : n < icnt.nShader <;> simp [perform, popSubnet, single, shader]

/-- A call leaves the packets of a node where they are, behind them come others; a pop of
the node takes the first. -/
theorem Served.waiting_cases (single : cfg.subnets = 1) {c : Call δ} {answer : Option (Packet δ)}
    (served : Served cfg icnt [(c, answer)] next) (n : Nat) :
    (answers n [(c, answer)] = [] ∧ ∃ fresh, next.waiting cfg n = icnt.waiting cfg n ++ fresh) ∨
      answers n [(c, answer)] = [answer] ∧ answer = (icnt.waiting cfg n).head? ∧
        next.waiting cfg n = (icnt.waiting cfg n).tail := by
  simp only [waiting_single single]
  obtain ⟨allowed, returns⟩ := served
  cases c with
  | push input output data =>
      left
      refine ⟨rfl, [], ?_⟩
      simp only [perform] at returns
      split at returns
      · cases returns
      · split at returns
        · cases returns
          simp [LocalInterconnect.push, pushSubnet, single, XbarRouter.push]
        · cases returns
  | pop output =>
      rw [perform_pop_single single] at returns
      split at returns
      · cases returns
      · rename_i memory
        have request : icnt.popSubnet output = 0 := if_neg memory
        obtain ⟨rfl, rfl⟩ := Prod.ext_iff.mp (Except.ok.inj returns)
        rcases (icnt.net 0).pop_cases output with empty | ⟨packet, rest, front, taken⟩
        · have none_left : (icnt.net 0).outBuffers output = [] := by
            cases buffer : (icnt.net 0).outBuffers output with
            | nil => rfl
            | cons packet rest => simp [XbarRouter.pop, buffer] at empty
          have same : icnt.pop output = (none, icnt) := by
            simp [LocalInterconnect.pop, request, empty]
          rw [same]
          by_cases here : output = n
          · subst here
            right
            simp [answers, none_left]
          · left
            exact ⟨by simp [answers, here], [], (List.append_nil _).symm⟩
        · have result : icnt.pop output = (some packet, { icnt with
              net := Function.update icnt.net 0 { icnt.net 0 with
                outBuffers := Function.update (icnt.net 0).outBuffers output
                  ((icnt.net 0).outBuffers output).tail } }) := by
            simp only [LocalInterconnect.pop, request, taken]
          rw [result]
          by_cases here : output = n
          · subst here
            right
            simp [answers, front]
          · left
            refine ⟨by simp [answers, here], [], ?_⟩
            simp [Ne.symm here]
  | advance =>
      left
      cases returns
      refine ⟨rfl, ?_⟩
      simp only [LocalInterconnect.advance, single, Nat.zero_lt_one, if_true]
      exact outBuffers_moves (XbarRouter.advance_moves _) n

/-- What a node has popped since is what waited for it, from the front, and the rest of
it still comes first. -/
theorem answers_waiting (single : cfg.subnets = 1) {more : List (Call δ × Option (Packet δ))}
    {later : LocalInterconnect δ} (run : Reaches (Served cfg) icnt more later) (n : Nat) :
    (answers n more).take (icnt.waiting cfg n).length =
        ((icnt.waiting cfg n).take (answers n more).length).map some ∧
      ∃ fresh, later.waiting cfg n = (icnt.waiting cfg n).drop (answers n more).length ++ fresh := by
  induction run with
  | refl => exact ⟨by simp [answers], [], by simp [answers]⟩
  | @next more events before later _ served ih =>
      obtain ⟨inOrder, fresh, rest⟩ := ih
      obtain ⟨⟨c, answer⟩, rfl⟩ : ∃ event, events = [event] := by
        cases served
        exact ⟨_, rfl⟩
      have joined : answers n (more ++ [(c, answer)]) = answers n more ++ answers n [(c, answer)] :=
        List.filterMap_append
      rw [joined]
      generalize icnt.waiting cfg n = packets at *
      generalize answers n more = popped at *
      rcases served.waiting_cases single n with ⟨other, added, behind⟩ | ⟨here, taken, left⟩
      · rw [other, List.append_nil]
        refine ⟨inOrder, fresh ++ added, ?_⟩
        rw [behind, rest, List.append_assoc]
      · rw [here, List.length_append, List.length_singleton]
        rw [rest] at taken left
        by_cases remain : popped.length < packets.length
        · have front := List.drop_eq_getElem_cons remain
          rw [front] at taken left
          refine ⟨?_, fresh, left⟩
          rw [List.take_of_length_le (by simp; omega), List.take_succ_eq_append_getElem remain,
            List.map_append, ← inOrder, List.take_of_length_le (Nat.le_of_lt remain), taken]
          rfl
        · rw [Nat.not_lt] at remain
          rw [List.drop_eq_nil_of_le remain] at left
          refine ⟨?_, fresh.tail, ?_⟩
          · rw [List.take_append_of_le_length remain, inOrder, List.take_of_length_le remain,
              List.take_of_length_le (Nat.le_succ_of_le remain)]
          · rw [left, List.drop_eq_nil_of_le (Nat.le_succ_of_le remain)]
            rfl

/-- Pops alone return everything that waits for a memory node. -/
theorem exists_answers (single : cfg.subnets = 1) (memory : icnt.nShader ≤ n) (node : n < icnt.nShader + icnt.nMem) :
    ∃ more later, Reaches (Served cfg) icnt more later ∧
      answers n more = (icnt.waiting cfg n).map some := by
  generalize count : icnt.waiting cfg n = packets
  induction packets generalizing icnt with
  | nil => exact ⟨[], icnt, .refl, rfl⟩
  | cons packet rest ih =>
      have returns : icnt.perform cfg (.pop n) = .ok ((icnt.pop n).1, (icnt.pop n).2) := by
        rw [perform_pop_single single, if_neg (Nat.not_lt.mpr memory)]
      have popped : Served cfg icnt [(.pop n, (icnt.pop n).1)] (icnt.pop n).2 := .call node returns
      rcases popped.waiting_cases single n with ⟨other, -⟩ | ⟨here, taken, left⟩
      · simp [answers] at other
      · rw [count] at taken left
        obtain ⟨shaders, mems⟩ := popped.nodes
        obtain ⟨more, later, run, all⟩ := ih (by omega) (by omega) left
        refine ⟨_, later, (Reaches.refl.next popped).append run, ?_⟩
        have joined : answers n ([] ++ [(.pop n, (icnt.pop n).1)] ++ more) =
            answers n [(.pop n, (icnt.pop n).1)] ++ answers n more := List.filterMap_append
        rw [joined, here, all, taken]
        rfl

/-- With one network the memory nodes get their packets, and no shader does. -/
theorem delivers_single_iff {nShader nMem : Nat} (single : cfg.subnets = 1)
    (run : ServedRun cfg nShader nMem calls icnt) (node : n < nShader + nMem) :
    Delivers cfg calls icnt n ↔ nShader ≤ n := by
  obtain ⟨shaders, mems⟩ := served_nodes run
  have shaders : icnt.nShader = nShader := shaders
  have mems : icnt.nMem = nMem := mems
  constructor
  · intro delivers
    by_contra shader
    apply delivers.exist
    rw [perform_pop_single single, if_pos (by omega)]
  · intro memory
    have conserved := Run.conserved (by omega) (served_reaches run)
    constructor
    · rw [perform_pop_single single, if_neg (by omega)]
      rintro ⟨⟩
    · exact exists_answers single (by omega) (by omega)
    · intro more later continued
      exact (answers_waiting single continued n).1
    · exact fun input => conserved.conserved input n

def singleConfig : InctConfig where
  inBufferLimit := 2
  outBufferLimit := 2
  subnets := 1
  arbiterAlgo := .iSLIP
  grantCycles := 1

/-- One shader, node 0, and one memory node, node 1: `input` pushes to the other node
and the network moves. -/
theorem exists_served_move (input output : Nat) (nodes : input < 2 ∧ output < 2) (data : Nat) :
    ∃ calls icnt, ServedRun singleConfig 1 1 calls icnt ∧
      icnt = ((create singleConfig 1 1).push singleConfig input output data).advance singleConfig := by
  have start : ServedRun (δ := Nat) singleConfig 1 1 [] (create singleConfig 1 1) := .refl
  have guard : (create (δ := Nat) singleConfig 1 1).hasBuffer singleConfig input = true := rfl
  have pushed := start.next (.call (c := .push input output data) ⟨nodes.1, nodes.2, guard⟩ rfl)
  have moved := pushed.next (.call (c := .advance) trivial rfl)
  exact ⟨_, _, moved, rfl⟩

/-- A request of the shader reaches the memory node. -/
theorem delivers_single_iff_sample :
    ∃ calls icnt, ServedRun singleConfig 1 1 calls icnt ∧ icnt.waiting singleConfig 1 = [⟨7, 1, 0⟩] ∧
      Delivers singleConfig calls icnt 1 := by
  obtain ⟨calls, icnt, run, rfl⟩ := exists_served_move 0 1 (by decide) 7
  exact ⟨calls, _, run, rfl,
    (delivers_single_iff rfl run (by decide)).mpr (by decide)⟩

/-- A reply waits for the shader, whose pop looks for it in a network that does not exist. -/
theorem reply_not_delivered :
    ∃ calls icnt, ServedRun singleConfig 1 1 calls icnt ∧ icnt.waiting singleConfig 0 = [⟨7, 0, 1⟩] ∧
      icnt.perform singleConfig (.pop 0) = .error .noSubnet ∧ ¬Delivers singleConfig calls icnt 0 := by
  obtain ⟨calls, icnt, run, rfl⟩ := exists_served_move 1 0 (by decide) 7
  refine ⟨calls, _, run, rfl, rfl, ?_⟩
  intro delivers
  exact delivers.exist rfl

end LocalInterconnect

end GpgpuSim.Interconnect
