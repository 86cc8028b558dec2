import GpgpuSim.Interconnect.XbarRouter
import GpgpuSim.Transition.Runs

/-! The interconnect between shader and memory nodes: a request and a reply network.
Packets are conserved, keep their order between an input and an output, and the
buffers stay within their limits. -/
namespace GpgpuSim.Interconnect
open Transition

/-- What a node sees: a push it made, a packet it popped. -/
inductive Event (δ : Type*)
  | pushed (inputDeviceID outputDeviceID : Nat) (data : δ)
  | popped (outputDeviceID : Nat) (packet : Packet δ)

structure LocalInterconnect (δ : Type*) where
  nShader : Nat
  nMem : Nat
  /-- `REQ_NET` is 0 and `REPLY_NET` is 1. -/
  net : Nat → XbarRouter δ

namespace LocalInterconnect

variable {δ : Type*} (cfg : InctConfig)

def create (nShader nMem : Nat) : LocalInterconnect δ where
  nShader := nShader
  nMem := nMem
  net _ := .create cfg nShader nMem

/-- The network that a device pushes into. -/
def pushSubnet (icnt : LocalInterconnect δ) (inputDeviceID : Nat) : Nat :=
  if cfg.subnets = 1 then 0 else if inputDeviceID < icnt.nShader then 0 else 1

/-- The network that a device pops from. -/
def popSubnet (icnt : LocalInterconnect δ) (outputDeviceID : Nat) : Nat :=
  if outputDeviceID < icnt.nShader then 1 else 0

def hasBuffer (icnt : LocalInterconnect δ) (deviceID : Nat) : Bool :=
  if cfg.subnets > 1 && decide (deviceID ≥ icnt.nShader) then (icnt.net 1).hasBufferIn cfg deviceID 1
  else (icnt.net 0).hasBufferIn cfg deviceID 1

def push (icnt : LocalInterconnect δ) (inputDeviceID outputDeviceID : Nat) (data : δ) : LocalInterconnect δ :=
  let subnet := icnt.pushSubnet cfg inputDeviceID
  { icnt with
    net := Function.update icnt.net subnet ((icnt.net subnet).push inputDeviceID outputDeviceID data) }

def pop (icnt : LocalInterconnect δ) (outputDeviceID : Nat) : Option (Packet δ) × LocalInterconnect δ :=
  let subnet := icnt.popSubnet outputDeviceID
  let (packet, router) := (icnt.net subnet).pop outputDeviceID
  (packet, { icnt with net := Function.update icnt.net subnet router })

def advance (icnt : LocalInterconnect δ) : LocalInterconnect δ :=
  { icnt with net := fun i => if i < cfg.subnets then (icnt.net i).advance cfg else icnt.net i }

/-- The three calls in any order. A node pushes only if `HasBuffer` says that it may,
and to a node. -/
inductive Step (icnt : LocalInterconnect δ) : List (Event δ) → LocalInterconnect δ → Prop
  | push (input output : Nat) (data : δ) (from_node : input < icnt.nShader + icnt.nMem)
      (to_node : output < icnt.nShader + icnt.nMem) (guard : icnt.hasBuffer cfg input = true) :
      Step icnt [.pushed input output data] (icnt.push cfg input output data)
  | pop (output : Nat) (node : output < icnt.nShader + icnt.nMem) :
      Step icnt ((icnt.pop output).1.toList.map (.popped output)) (icnt.pop output).2
  | advance : Step icnt [] (icnt.advance cfg)

abbrev Run (nShader nMem : Nat) (trace : List (Event δ)) (icnt : LocalInterconnect δ) : Prop :=
  Reaches (Step cfg) (create cfg nShader nMem) trace icnt

/-! ## What is pushed, popped and on its way -/

/-- The data pushed from `input` to `output`, oldest first. -/
def pushes (input output : Nat) (trace : List (Event δ)) : List δ :=
  trace.filterMap fun
    | .pushed i o data => if i = input ∧ o = output then some data else none
    | .popped _ _ => none

/-- The data popped at `output` that `input` had pushed, oldest first. -/
def pops (input output : Nat) (trace : List (Event δ)) : List δ :=
  trace.filterMap fun
    | .pushed _ _ _ => none
    | .popped o packet => if packet.source = input ∧ o = output then some packet.data else none

/-- The packets from `input` to `output` in the buffers of both networks. -/
def buffered (icnt : LocalInterconnect δ) (input output : Nat) : List (Packet δ) :=
  (icnt.net 0).transit input output ++ (icnt.net 1).transit input output

/-- Both networks are orderly, and packets are in the network of their input. -/
structure Orderly (cfg : InctConfig) (icnt : LocalInterconnect δ) : Prop where
  net : ∀ subnet, (icnt.net subnet).Orderly cfg
  own : ∀ subnet input output, (icnt.net subnet).transit input output ≠ [] →
    subnet = icnt.pushSubnet cfg input

/-- Packets from `input` to `output` are popped or buffered in the order of the pushes. -/
structure Conserved (cfg : InctConfig) (trace : List (Event δ)) (icnt : LocalInterconnect δ) : Prop where
  orderly : Orderly cfg icnt
  conserved : ∀ input output, pushes input output trace =
    pops input output trace ++ (icnt.buffered input output).map Packet.data
  own_output : ∀ output packet, .popped output packet ∈ trace → packet.outputDeviceID = output

variable {cfg} {icnt next : LocalInterconnect δ} {trace : List (Event δ)}

theorem Orderly.buffered_eq (orderly : Orderly cfg icnt) (input output : Nat) :
    icnt.buffered input output = (icnt.net (icnt.pushSubnet cfg input)).transit input output := by
  have empty : ∀ subnet, subnet ≠ icnt.pushSubnet cfg input →
      (icnt.net subnet).transit input output = [] := by
    intro subnet apart
    by_contra some
    exact apart (orderly.own subnet input output some)
  unfold buffered
  have which : icnt.pushSubnet cfg input = 0 ∨ icnt.pushSubnet cfg input = 1 := by
    unfold pushSubnet
    split_ifs <;> simp
  rcases which with zero | one
  · rw [empty 1 (by omega), List.append_nil, zero]
  · rw [empty 0 (by omega), List.nil_append, one]

theorem transit_push (router : XbarRouter δ) (input output i k : Nat) (data : δ) :
    (router.push input output data).transit i k =
      router.transit i k ++ if input = i ∧ output = k then [⟨data, output, input⟩] else [] := by
  have accepted : (router.switch.accept input ⟨data, output, input⟩).transit Packet.source
      Packet.outputDeviceID i k = router.transit i k ++
        Switch.between Packet.source Packet.outputDeviceID i k ⟨data, output, input⟩ :=
    Switch.transit_accept rfl
  exact accepted

/-- `HasBuffer` looks at the network that `Push` uses. -/
theorem hasBuffer_pushSubnet (exist : 0 < cfg.subnets) (input : Nat) :
    icnt.hasBuffer cfg input = (icnt.net (icnt.pushSubnet cfg input)).hasBufferIn cfg input 1 := by
  unfold hasBuffer pushSubnet
  by_cases single : cfg.subnets = 1
  · simp [single]
  · have several : 1 < cfg.subnets := by omega
    by_cases shader : input < icnt.nShader
    · simp [single, shader, Nat.not_le.mpr shader]
    · simp [single, several, shader, Nat.not_lt.mp shader]

theorem Conserved.push {input output : Nat} {data : δ} (conserved : Conserved cfg trace icnt)
    (exist : 0 < cfg.subnets) (guard : icnt.hasBuffer cfg input = true) :
    Conserved cfg (trace ++ [.pushed input output data]) (icnt.push cfg input output data) := by
  rw [hasBuffer_pushSubnet exist] at guard
  have orderly := conserved.orderly
  have after : Orderly cfg (icnt.push cfg input output data) := by
    constructor
    · intro subnet
      by_cases same : subnet = icnt.pushSubnet cfg input
      · subst same
        simpa [LocalInterconnect.push] using (orderly.net _).push guard
      · simpa [LocalInterconnect.push, same] using orderly.net subnet
    · intro subnet i k some
      by_cases same : subnet = icnt.pushSubnet cfg input
      · subst same
        by_contra apart
        apply some
        have before : (icnt.net (icnt.pushSubnet cfg input)).transit i k = [] := by
          by_contra some
          exact apart (orderly.own _ i k some)
        have other : ¬(input = i ∧ output = k) := by
          rintro ⟨rfl, -⟩
          exact apart rfl
        simp [LocalInterconnect.push, transit_push, before, other]
      · apply orderly.own subnet i k
        simpa [LocalInterconnect.push, same] using some
  constructor
  · exact after
  · intro i k
    have buffers : (icnt.push cfg input output data).buffered i k =
        icnt.buffered i k ++ if input = i ∧ output = k then [⟨data, output, input⟩] else [] := by
      rw [after.buffered_eq, orderly.buffered_eq]
      change ((icnt.push cfg input output data).net (icnt.pushSubnet cfg i)).transit i k = _
      by_cases same : icnt.pushSubnet cfg i = icnt.pushSubnet cfg input
      · simp [LocalInterconnect.push, same, transit_push]
      · have other : ¬(input = i ∧ output = k) := by
          rintro ⟨rfl, -⟩
          exact same rfl
        simp [LocalInterconnect.push, same, other]
    have early := conserved.conserved i k
    unfold pushes pops at early ⊢
    rw [buffers, List.filterMap_append, List.filterMap_append, early]
    by_cases here : input = i ∧ output = k <;> simp [here]
  · intro k packet seen
    rcases List.mem_append.mp seen with old | new
    · exact conserved.own_output k packet old
    · simp at new

theorem Conserved.pop {output : Nat} (conserved : Conserved cfg trace icnt) :
    Conserved cfg (trace ++ (icnt.pop output).1.toList.map (.popped output)) (icnt.pop output).2 := by
  rcases (icnt.net (icnt.popSubnet output)).pop_cases output with empty | ⟨packet, rest, front, taken⟩
  · have same : icnt.pop output = (none, icnt) := by
      simp [LocalInterconnect.pop, empty]
    rw [same]
    simpa using conserved
  · have orderly := conserved.orderly
    generalize at_subnet : icnt.popSubnet output = subnet at front taken
    have sound := (orderly.net subnet).sound
    have queued : packet ∈ (icnt.net subnet).outBuffers output := by
      rw [front]
      exact List.mem_cons_self
    have to_output : packet.outputDeviceID = output := sound.outputs output packet queued
    have result : icnt.pop output = (some packet, { icnt with
        net := Function.update icnt.net subnet { icnt.net subnet with
          outBuffers := Function.update (icnt.net subnet).outBuffers output
            ((icnt.net subnet).outBuffers output).tail } }) := by
      simp only [LocalInterconnect.pop, at_subnet, taken]
    have released : ∀ i k, (icnt.net subnet).transit i k =
        (if packet.source = i ∧ output = k then [packet] else []) ++
          ((icnt.pop output).2.net subnet).transit i k := by
      intro i k
      rw [result]
      dsimp only
      rw [Function.update_self, ← to_output]
      rw [← to_output] at front
      exact Switch.transit_release sound front
    have others : ∀ other, other ≠ subnet → (icnt.pop output).2.net other = icnt.net other := by
      intro other apart
      rw [result]
      exact Function.update_of_ne apart ..
    have same_shaders : ∀ i, (icnt.pop output).2.pushSubnet cfg i = icnt.pushSubnet cfg i := by
      intro i
      rw [result]
      rfl
    have source_subnet : subnet = icnt.pushSubnet cfg packet.source := by
      apply orderly.own subnet packet.source output
      rw [released]
      simp
    have after : Orderly cfg (icnt.pop output).2 := by
      constructor
      · intro other
        by_cases same : other = subnet
        · subst same
          rw [result]
          dsimp only
          rw [Function.update_self]
          exact ⟨sound.release, (orderly.net other).inputs,
            XbarRouter.length_update_tail (orderly.net other).outputs⟩
        · rw [others other same]
          exact orderly.net other
      · intro other i k some
        rw [same_shaders]
        apply orderly.own other i k
        by_cases same : other = subnet
        · subst same
          rw [released]
          simp [some]
        · rwa [others other same] at some
    constructor
    · exact after
    · intro i k
      have buffers : icnt.buffered i k =
          (if packet.source = i ∧ output = k then [packet] else []) ++ (icnt.pop output).2.buffered i k := by
        rw [orderly.buffered_eq, after.buffered_eq, same_shaders]
        by_cases same : icnt.pushSubnet cfg i = subnet
        · rw [same, released]
        · rw [others _ same, if_neg]
          · rfl
          · rintro ⟨rfl, -⟩
            exact same source_subnet.symm
      have early := conserved.conserved i k
      rw [buffers] at early
      rw [show (icnt.pop output).1 = some packet by rw [result]]
      unfold pushes pops at early ⊢
      rw [List.filterMap_append, List.filterMap_append, early]
      by_cases here : packet.source = i ∧ output = k <;> simp [here]
    · intro k other seen
      rcases List.mem_append.mp seen with old | new
      · exact conserved.own_output k other old
      · rw [show (icnt.pop output).1 = some packet by rw [result]] at new
        cases List.mem_singleton.mp new
        exact to_output

theorem Conserved.advance (conserved : Conserved cfg trace icnt) :
    Conserved cfg (trace ++ []) (icnt.advance cfg) := by
  have orderly := conserved.orderly
  have each : ∀ subnet, ((icnt.advance cfg).net subnet).Orderly cfg ∧
      ∀ i k, ((icnt.advance cfg).net subnet).transit i k = (icnt.net subnet).transit i k := by
    intro subnet
    simp only [LocalInterconnect.advance]
    split
    · exact (XbarRouter.advance_moves _).orderly (orderly.net subnet)
    · exact ⟨orderly.net subnet, fun _ _ => rfl⟩
  rw [List.append_nil]
  constructor
  · constructor
    · exact fun subnet => (each subnet).1
    · intro subnet i k some
      rw [(each subnet).2] at some
      exact orderly.own subnet i k some
  · intro i k
    unfold buffered
    rw [(each 0).2, (each 1).2]
    exact conserved.conserved i k
  · exact conserved.own_output

/-! ## Every run -/

theorem Run.conserved {nShader nMem : Nat} (exist : 0 < cfg.subnets) (run : Run cfg nShader nMem trace icnt) :
    Conserved cfg trace icnt := by
  apply run.invariant
  · constructor
    · constructor
      · exact fun _ => XbarRouter.Orderly.create nShader nMem
      · intro subnet i k some
        exact absurd rfl some
    · exact fun _ _ => rfl
    · intro output packet seen
      contradiction
  · intro trace icnt events next _ conserved step
    cases step with
    | push input output data from_node to_node guard => exact conserved.push exist guard
    | pop output node => exact conserved.pop
    | advance => exact conserved.advance

/-- What is popped at a node was pushed to it, in order and once, what is not popped
is buffered, and no buffer holds more than its limit. -/
theorem packets_conserved {nShader nMem : Nat} (two : cfg.subnets = 2) (run : Run cfg nShader nMem trace icnt) :
    (∀ input output, pushes input output trace =
      pops input output trace ++ (icnt.buffered input output).map Packet.data) ∧
    (∀ output packet, .popped output packet ∈ trace → packet.outputDeviceID = output) ∧
    (∀ subnet input, ∀ packet ∈ (icnt.net subnet).inBuffers input, packet.source = input) ∧
    (∀ subnet output, ∀ packet ∈ (icnt.net subnet).outBuffers output, packet.outputDeviceID = output) ∧
    ∀ subnet device, ((icnt.net subnet).inBuffers device).length ≤ cfg.inBufferLimit ∧
      ((icnt.net subnet).outBuffers device).length ≤ cfg.outBufferLimit := by
  have conserved : Conserved cfg trace icnt := Run.conserved (by omega) run
  have net := conserved.orderly.net
  exact ⟨conserved.conserved, conserved.own_output, fun subnet => (net subnet).sound.inputs,
    fun subnet => (net subnet).sound.outputs, fun subnet device =>
      ⟨(net subnet).inputs device, (net subnet).outputs device⟩⟩

def smallConfig (arbiterAlgo : ArbiterationType) : InctConfig where
  inBufferLimit := 2
  outBufferLimit := 2
  subnets := 2
  arbiterAlgo := arbiterAlgo
  grantCycles := 1

/-- Two shaders push to the memory node, which pops once. -/
theorem packets_conserved_sample :
    ∃ trace icnt, Run (δ := Nat) (smallConfig .iSLIP) 2 1 trace icnt ∧ pushes 1 2 trace = [8] ∧
      pushes 1 2 trace = pops 1 2 trace ++ (icnt.buffered 1 2).map Packet.data := by
  have start : Run (δ := Nat) (smallConfig .iSLIP) 2 1 [] (create (smallConfig .iSLIP) 2 1) := .refl
  have first := start.next (.push 0 2 7 (by decide) (by decide) (by decide))
  have second := first.next (.push 1 2 8 (by decide) (by decide) (by decide))
  have run := (second.next .advance).next (.pop 2 (by decide))
  exact ⟨_, _, run, rfl, (packets_conserved rfl run).1 1 2⟩

end LocalInterconnect

end GpgpuSim.Interconnect
