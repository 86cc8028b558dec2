import GpgpuSim.Transition.Switching
import Mathlib.Algebra.Group.Nat.Defs

/-! A crossbar router: queues at its inputs and outputs, and two arbiters that move
packets between them. -/
namespace GpgpuSim.Interconnect
open Transition

inductive ArbiterationType
  | naiveRR
  | iSLIP
  deriving DecidableEq, Repr

structure InctConfig where
  inBufferLimit : Nat
  outBufferLimit : Nat
  subnets : Nat
  arbiterAlgo : ArbiterationType
  grantCycles : Nat

/-- `source` is the device that pushed the packet; the code does not keep it. -/
structure Packet (δ : Type*) where
  data : δ
  outputDeviceID : Nat
  source : Nat
  deriving DecidableEq

structure XbarRouter (δ : Type*) where
  totalNodes : Nat
  inBuffers : Nat → List (Packet δ)
  outBuffers : Nat → List (Packet δ)
  /-- The next input that an output of the iSLIP arbiter looks at. -/
  nextNode : Nat → Nat
  nextNodeId : Nat
  grantCyclesCount : Nat

namespace XbarRouter

variable {δ : Type*} (cfg : InctConfig)

def create (nShader nMem : Nat) : XbarRouter δ where
  totalNodes := nShader + nMem
  inBuffers _ := []
  outBuffers _ := []
  nextNode _ := 0
  nextNodeId := 0
  grantCyclesCount := cfg.grantCycles

def hasBufferIn (router : XbarRouter δ) (inputDeviceID size : Nat) : Bool :=
  decide ((router.inBuffers inputDeviceID).length + size ≤ cfg.inBufferLimit)

def hasBufferOut (router : XbarRouter δ) (outputDeviceID size : Nat) : Bool :=
  decide ((router.outBuffers outputDeviceID).length + size ≤ cfg.outBufferLimit)

def push (router : XbarRouter δ) (inputDeviceID outputDeviceID : Nat) (data : δ) : XbarRouter δ :=
  { router with
    inBuffers := Function.update router.inBuffers inputDeviceID
      (router.inBuffers inputDeviceID ++ [⟨data, outputDeviceID, inputDeviceID⟩]) }

/-- Nothing is popped from an empty buffer. -/
def pop (router : XbarRouter δ) (outputDeviceID : Nat) : Option (Packet δ) × XbarRouter δ :=
  match router.outBuffers outputDeviceID with
  | [] => (none, router)
  | packet :: rest =>
      (some packet, { router with outBuffers := Function.update router.outBuffers outputDeviceID rest })

/-- The front packet of an input goes to its output. -/
def forward (router : XbarRouter δ) (nodeId : Nat) (packet : Packet δ) : XbarRouter δ :=
  { router with
    inBuffers := Function.update router.inBuffers nodeId (router.inBuffers nodeId).tail
    outBuffers := Function.update router.outBuffers packet.outputDeviceID
      (router.outBuffers packet.outputDeviceID ++ [packet]) }

/-! ## Round robin over the inputs -/

/-- One input in the loop of `RR_Advance`; an output is issued to once a cycle. -/
def rrVisit (state : XbarRouter δ × (Nat → Bool)) (nodeId : Nat) : XbarRouter δ × (Nat → Bool) :=
  let (router, issued) := state
  match router.inBuffers nodeId with
  | [] => state
  | packet :: _ =>
      if router.hasBufferOut cfg packet.outputDeviceID 1 && !issued packet.outputDeviceID then
        (router.forward nodeId packet, Function.update issued packet.outputDeviceID true)
      else state

def rrAdvance (router : XbarRouter δ) : XbarRouter δ :=
  let nodes := (List.range router.totalNodes).map fun i => (i + router.nextNodeId) % router.totalNodes
  let (moved, _) := nodes.foldl (rrVisit cfg) (router, fun _ => false)
  { moved with nextNodeId := (router.nextNodeId + 1) % router.totalNodes }

/-! ## iSLIP: each output chooses an input -/

/-- The first input, in the order of the output, whose front packet goes to it. -/
def islipChoice (router : XbarRouter δ) (i : Nat) : Option (Nat × Packet δ) :=
  ((List.range router.totalNodes).map fun j => (j + router.nextNode i) % router.totalNodes).findSome?
    fun nodeId =>
      match router.inBuffers nodeId with
      | [] => none
      | packet :: _ => if packet.outputDeviceID = i then some (nodeId, packet) else none

def islipGrant (router : XbarRouter δ) (i : Nat) : XbarRouter δ :=
  if router.hasBufferOut cfg i 1 then
    match router.islipChoice i with
    | none => router
    | some (nodeId, packet) =>
        let moved := router.forward nodeId packet
        if router.grantCyclesCount = 1 then
          { moved with nextNode := Function.update router.nextNode i ((nodeId + 1) % router.totalNodes) }
        else moved
  else router

def islipAdvance (router : XbarRouter δ) : XbarRouter δ :=
  let active := (List.range router.totalNodes).any fun i => !(router.inBuffers i).isEmpty
  let moved := (List.range router.totalNodes).foldl (islipGrant cfg) router
  if active && decide (moved.grantCyclesCount = 1) then { moved with grantCyclesCount := cfg.grantCycles }
  else if active then { moved with grantCyclesCount := (moved.grantCyclesCount + 2 ^ 32 - 1) % 2 ^ 32 }
  else moved

def advance (router : XbarRouter δ) : XbarRouter δ :=
  match cfg.arbiterAlgo with
  | .naiveRR => router.rrAdvance cfg
  | .iSLIP => router.islipAdvance cfg

/-! ## What an arbiter can do -/

/-- Arbiters move packets one at a time, each to an output with room. -/
inductive Moves : XbarRouter δ → XbarRouter δ → Prop
  | refl (router : XbarRouter δ) : Moves router router
  | move {router next : XbarRouter δ} (nodeId : Nat) (packet : Packet δ) (rest : List (Packet δ))
      (front : router.inBuffers nodeId = packet :: rest)
      (room : (router.outBuffers packet.outputDeviceID).length < cfg.outBufferLimit)
      (more : Moves (router.forward nodeId packet) next) : Moves router next
  | turn {router next : XbarRouter δ} (nextNode : Nat → Nat) (nextNodeId grantCyclesCount : Nat)
      (more : Moves { router with nextNode, nextNodeId, grantCyclesCount } next) : Moves router next

variable {cfg} {router next last : XbarRouter δ}

theorem Moves.trans (early : Moves cfg router next) (late : Moves cfg next last) : Moves cfg router last := by
  induction early with
  | refl => exact late
  | move nodeId packet rest front room _ ih => exact .move nodeId packet rest front room (ih late)
  | turn nextNode nextNodeId grantCyclesCount _ ih =>
      exact .turn nextNode nextNodeId grantCyclesCount (ih late)

theorem rrVisit_moves (issued : Nat → Bool) (nodeId : Nat) :
    Moves cfg router (rrVisit cfg (router, issued) nodeId).1 := by
  simp only [rrVisit]
  split
  · exact .refl router
  · rename_i packet rest front
    split
    · rename_i granted
      simp only [Bool.and_eq_true, hasBufferOut, decide_eq_true_eq] at granted
      exact .move nodeId packet rest front granted.1 (.refl _)
    · exact .refl router

theorem rrLoop_moves (nodes : List Nat) (issued : Nat → Bool) :
    Moves cfg router (nodes.foldl (rrVisit cfg) (router, issued)).1 := by
  induction nodes generalizing router issued with
  | nil => exact .refl router
  | cons nodeId nodes ih => exact (rrVisit_moves issued nodeId).trans (ih _)

theorem islipChoice_front {i nodeId : Nat} {packet : Packet δ}
    (chosen : router.islipChoice i = some (nodeId, packet)) :
    packet.outputDeviceID = i ∧ ∃ rest, router.inBuffers nodeId = packet :: rest := by
  obtain ⟨node, -, found⟩ := List.exists_of_findSome?_eq_some chosen
  split at found
  · contradiction
  · rename_i first rest front
    split at found
    · rename_i here
      cases found
      exact ⟨here, rest, front⟩
    · contradiction

theorem islipGrant_moves (i : Nat) : Moves cfg router (router.islipGrant cfg i) := by
  unfold islipGrant
  split
  · rename_i room
    simp only [hasBufferOut, decide_eq_true_eq] at room
    split
    · exact .refl router
    · rename_i nodeId packet chosen
      obtain ⟨rfl, rest, front⟩ := islipChoice_front chosen
      apply Moves.move nodeId packet rest front room
      dsimp only
      split
      · exact .turn _ _ _ (.refl _)
      · exact .refl _
  · exact .refl router

theorem islipLoop_moves (outputs : List Nat) : Moves cfg router (outputs.foldl (islipGrant cfg) router) := by
  induction outputs generalizing router with
  | nil => exact .refl router
  | cons i outputs ih => exact (islipGrant_moves i).trans ih

theorem advance_moves (router : XbarRouter δ) : Moves cfg router (router.advance cfg) := by
  unfold advance
  split
  · exact (rrLoop_moves _ _).trans (.turn _ _ _ (.refl _))
  · apply (islipLoop_moves (List.range router.totalNodes)).trans
    unfold islipAdvance
    dsimp only
    split
    · exact .turn _ _ _ (.refl _)
    · split
      · exact .turn _ _ _ (.refl _)
      · exact .refl _

/-! ## The router as a switch -/

/-- The queues, without the arbiter. -/
def switch (router : XbarRouter δ) : Switch Nat Nat (Packet δ) := ⟨router.inBuffers, router.outBuffers⟩

/-- Packets queue where they were pushed and where they go, within the limits. -/
structure Orderly (cfg : InctConfig) (router : XbarRouter δ) : Prop where
  sound : router.switch.Sound Packet.source Packet.outputDeviceID
  inputs : ∀ i, (router.inBuffers i).length ≤ cfg.inBufferLimit
  outputs : ∀ k, (router.outBuffers k).length ≤ cfg.outBufferLimit

def transit (router : XbarRouter δ) (input output : Nat) : List (Packet δ) :=
  router.switch.transit Packet.source Packet.outputDeviceID input output

theorem Orderly.create (nShader nMem : Nat) : Orderly cfg (create (δ := δ) cfg nShader nMem) where
  sound := Switch.Sound.empty
  inputs _ := Nat.zero_le _
  outputs _ := Nat.zero_le _

theorem length_update_append {f : Nat → List (Packet δ)} {limit i : Nat} {packet : Packet δ}
    (bound : ∀ j, (f j).length ≤ limit) (room : (f i).length < limit) (j : Nat) :
    (Function.update f i (f i ++ [packet]) j).length ≤ limit := by
  by_cases same : j = i
  · subst same
    rw [Function.update_self, List.length_append, List.length_singleton]
    exact room
  · rw [Function.update_of_ne same]
    exact bound j

theorem length_update_tail {f : Nat → List (Packet δ)} {limit i : Nat} (bound : ∀ j, (f j).length ≤ limit) (j : Nat) :
    (Function.update f i (f i).tail j).length ≤ limit := by
  by_cases same : j = i
  · subst same
    rw [Function.update_self, List.length_tail]
    exact Nat.le_trans (Nat.sub_le _ _) (bound j)
  · rw [Function.update_of_ne same]
    exact bound j

/-- Arbiters lose nothing, keep the order and respect the limits. -/
theorem Moves.orderly (moves : Moves cfg router next) (orderly : Orderly cfg router) :
    Orderly cfg next ∧ ∀ input output, next.transit input output = router.transit input output := by
  induction moves with
  | refl => exact ⟨orderly, fun _ _ => rfl⟩
  | @move router next nodeId packet rest front room _ ih =>
      have after : Orderly cfg (router.forward nodeId packet) :=
        ⟨orderly.sound.forward, length_update_tail orderly.inputs,
          length_update_append orderly.outputs room⟩
      obtain ⟨last, same⟩ := ih after
      refine ⟨last, fun input output => (same input output).trans ?_⟩
      exact Switch.transit_forward orderly.sound front
  | turn nextNode nextNodeId grantCyclesCount _ ih =>
      exact ih ⟨orderly.sound, orderly.inputs, orderly.outputs⟩

theorem Orderly.push {input output : Nat} {data : δ} (orderly : Orderly cfg router)
    (room : router.hasBufferIn cfg input 1 = true) : Orderly cfg (router.push input output data) where
  sound := orderly.sound.accept rfl
  inputs := length_update_append orderly.inputs (of_decide_eq_true room)
  outputs := orderly.outputs

theorem pop_cases (router : XbarRouter δ) (output : Nat) :
    router.pop output = (none, router) ∨ ∃ packet rest, router.outBuffers output = packet :: rest ∧
      router.pop output = (some packet,
        { router with outBuffers := Function.update router.outBuffers output (router.outBuffers output).tail }) := by
  unfold pop
  split
  · exact .inl rfl
  · rename_i packet rest front
    exact .inr ⟨packet, rest, front, by rw [front]; rfl⟩

end XbarRouter

end GpgpuSim.Interconnect
