import GpgpuSim.Containers.Rotation
import GpgpuSim.Interconnect.XbarRouter

/-! Which packets one step of a crossbar moves. Round robin visits each input once; iSLIP serves the outputs
one after another, and a later output sees the inputs as the earlier ones have left them. -/
namespace GpgpuSim.Interconnect
open Containers

namespace XbarRouter

variable {δ : Type*} {cfg : InctConfig} {router state next : XbarRouter δ} {grant : Nat → Option Nat}
  {a i k m n : Nat}

/-- The packet at the head of the input goes to the output. -/
def HeadFor (router : XbarRouter δ) (k n : Nat) : Prop :=
  ∃ packet rest, router.inBuffers n = packet :: rest ∧ packet.outputDeviceID = k

/-- The inputs that the outputs take a packet of: heads only, for outputs with room, and no more can be taken. -/
structure MaximalMatching (cfg : InctConfig) (router : XbarRouter δ) (grant : Nat → Option Nat) : Prop where
  head : ∀ k n, grant k = some n → router.HeadFor k n
  room : ∀ k n, grant k = some n → router.hasBufferOut cfg k 1 = true
  maximal : ∀ k n, k < router.totalNodes → n < router.totalNodes → router.hasBufferOut cfg k 1 = true →
    grant k = none → (∀ k', grant k' ≠ some n) → ¬ router.HeadFor k n

/-- One packet leaves each input that is taken, and enters its output; all other buffers stay. -/
structure Moved (router next : XbarRouter δ) (grant : Nat → Option Nat) : Prop where
  taken : ∀ k n, grant k = some n → next.inBuffers n = (router.inBuffers n).tail
  kept : ∀ n, (∀ k, grant k ≠ some n) → next.inBuffers n = router.inBuffers n
  outputs : ∀ k, next.outBuffers k = router.outBuffers k ++ ((grant k).bind fun n => (router.inBuffers n).head?).toList

theorem HeadFor.unique (first : router.HeadFor k n) (second : router.HeadFor i n) : k = i := by
  obtain ⟨packet, rest, front, rfl⟩ := first
  obtain ⟨_, _, front', rfl⟩ := second
  rw [(List.cons.inj (front.symm.trans front')).1]

theorem Moved.none : Moved router router fun _ => none where
  taken _ _ granted := by contradiction
  kept _ _ := rfl
  outputs _ := by simp

/-- One more output takes the head of an input that no output has taken. -/
theorem Moved.forward {packet : Packet δ} {rest : List (Packet δ)} (moved : Moved router state grant)
    (front : router.inBuffers n = packet :: rest) (free : ∀ k, grant k ≠ some n)
    (idle : grant packet.outputDeviceID = Option.none) :
    Moved router (state.forward n packet) (Function.update grant packet.outputDeviceID (some n)) where
  taken k m granted := by
    by_cases here : k = packet.outputDeviceID
    · subst here
      rw [Function.update_self] at granted
      obtain rfl := Option.some.inj granted
      simp only [XbarRouter.forward, Function.update_self, moved.kept n free]
    · rw [Function.update_of_ne here] at granted
      have other : m ≠ n := fun same => free k (same ▸ granted)
      simp only [XbarRouter.forward, Function.update_of_ne other, moved.taken k m granted]
  kept m untaken := by
    have other : m ≠ n := by
      rintro rfl
      exact untaken packet.outputDeviceID (Function.update_self ..)
    simp only [XbarRouter.forward, Function.update_of_ne other]
    refine moved.kept m fun k granted => untaken k ?_
    have here : k ≠ packet.outputDeviceID := by
      rintro rfl
      rw [idle] at granted
      contradiction
    rw [Function.update_of_ne here, granted]
  outputs k := by
    by_cases here : k = packet.outputDeviceID
    · subst here
      simp [XbarRouter.forward, moved.outputs, idle, front]
    · simp only [XbarRouter.forward, Function.update_of_ne here, moved.outputs]

/-! ## Round robin -/

/-- What the inputs visited so far have made of the step. -/
structure Visited (cfg : InctConfig) (router : XbarRouter δ) (seen : List Nat) (state : XbarRouter δ × (Nat → Bool))
    (grant : Nat → Option Nat) : Prop where
  moved : Moved router state.1 grant
  issued : ∀ k, state.2 k = (grant k).isSome
  visits : ∀ k n, grant k = some n → n ∈ seen ∧ router.HeadFor k n ∧ router.hasBufferOut cfg k 1 = true
  maximal : ∀ k, ∀ n ∈ seen, router.hasBufferOut cfg k 1 = true → grant k = none → (∀ k', grant k' ≠ some n) →
    ¬ router.HeadFor k n
  totalNodes : state.1.totalNodes = router.totalNodes

theorem Visited.visit {seen : List Nat} {state : XbarRouter δ × (Nat → Bool)}
    (visited : Visited cfg router seen state grant) (new : n ∉ seen) :
    ∃ grant', Visited cfg router (seen ++ [n]) (rrVisit cfg state n) grant' := by
  obtain ⟨current, issued⟩ := state
  have free : ∀ k, grant k ≠ some n := fun k granted => new (visited.visits k n granted).1
  have same := visited.moved.kept n free
  -- an input that is visited and takes part in nothing leaves all as it was
  have skip : (∀ k, router.hasBufferOut cfg k 1 = true → grant k = none → ¬ router.HeadFor k n) →
      Visited cfg router (seen ++ [n]) (current, issued) grant := by
    intro refused
    refine ⟨visited.moved, visited.issued, ?_, ?_, visited.totalNodes⟩
    · intro k m granted
      obtain ⟨member, rest⟩ := visited.visits k m granted
      exact ⟨List.mem_append_left _ member, rest⟩
    · intro k m member room idle untaken
      rcases List.mem_append.mp member with old | now
      · exact visited.maximal k m old room idle untaken
      · obtain rfl := List.mem_singleton.mp now
        exact refused k room idle
  dsimp only [rrVisit] at same ⊢
  split
  next empty =>
    refine ⟨grant, skip fun k _ _ head => ?_⟩
    obtain ⟨packet, rest, front, -⟩ := head
    rw [same, front] at empty
    contradiction
  next packet rest front =>
    rw [same] at front
    have room_eq : grant packet.outputDeviceID = none →
        current.hasBufferOut cfg packet.outputDeviceID 1 = router.hasBufferOut cfg packet.outputDeviceID 1 := by
      intro idle
      have unchanged := visited.moved.outputs packet.outputDeviceID
      simp only [idle, Option.bind_none, Option.toList_none, List.append_nil] at unchanged
      rw [hasBufferOut, hasBufferOut, unchanged]
    split
    next granted =>
      have marks := visited.issued packet.outputDeviceID
      dsimp only at marks
      simp only [Bool.and_eq_true, Bool.not_eq_true', marks, Option.isSome_eq_false_iff,
        Option.isNone_iff_eq_none] at granted
      obtain ⟨room, idle⟩ := granted
      rw [room_eq idle] at room
      refine ⟨_, visited.moved.forward front free idle, ?_, ?_, ?_, visited.totalNodes⟩
      · intro k
        by_cases here : k = packet.outputDeviceID
        · subst here
          simp
        · change Function.update issued packet.outputDeviceID true k = _
          rw [Function.update_of_ne here, Function.update_of_ne here]
          exact visited.issued k
      · intro k m taken
        by_cases here : k = packet.outputDeviceID
        · subst here
          rw [Function.update_self] at taken
          obtain rfl := Option.some.inj taken
          exact ⟨by simp, ⟨packet, rest, front, rfl⟩, room⟩
        · rw [Function.update_of_ne here] at taken
          obtain ⟨member, more⟩ := visited.visits k m taken
          exact ⟨List.mem_append_left _ member, more⟩
      · intro k m member free_room still untaken
        have here : k ≠ packet.outputDeviceID := by
          rintro rfl
          rw [Function.update_self] at still
          contradiction
        rw [Function.update_of_ne here] at still
        rcases List.mem_append.mp member with old | now
        · refine visited.maximal k m old free_room still fun k' before => untaken k' ?_
          have apart : k' ≠ packet.outputDeviceID := by
            rintro rfl
            rw [idle] at before
            contradiction
          rw [Function.update_of_ne apart, before]
        · obtain rfl := List.mem_singleton.mp now
          exact absurd (Function.update_self ..) (untaken packet.outputDeviceID)
    next refused =>
      refine ⟨grant, skip fun k room idle head => ?_⟩
      obtain rfl : packet.outputDeviceID = k := HeadFor.unique ⟨packet, rest, front, rfl⟩ head
      have marks := visited.issued packet.outputDeviceID
      dsimp only at marks
      refine refused ?_
      simp only [room_eq idle, room, marks, idle, Option.isSome_none, Bool.not_false, Bool.and_self]

theorem Visited.visitAll {seen nodes : List Nat} {state : XbarRouter δ × (Nat → Bool)}
    (visited : Visited cfg router seen state grant) (distinct : (seen ++ nodes).Nodup) :
    ∃ grant', Visited cfg router (seen ++ nodes) (nodes.foldl (rrVisit cfg) state) grant' := by
  induction nodes generalizing seen state grant with
  | nil => exact ⟨grant, by rwa [List.append_nil]⟩
  | cons n rest ih =>
      have new : n ∉ seen := fun member => (List.nodup_append.mp distinct).2.2 n member n List.mem_cons_self rfl
      obtain ⟨grant', visited⟩ := visited.visit new
      rw [List.append_cons] at distinct ⊢
      exact ih visited distinct

theorem rrAdvance_matching : ∃ grant, MaximalMatching cfg router grant ∧ Moved router (router.rrAdvance cfg) grant := by
  have start : Visited cfg router [] (router, fun _ => false) fun _ => none :=
    ⟨.none, fun _ => rfl, nofun, nofun, rfl⟩
  have distinct : ([] ++ rotation router.totalNodes router.nextNodeId).Nodup := nodup_rotation
  obtain ⟨grant, visited⟩ := start.visitAll distinct
  refine ⟨grant, ⟨fun k n granted => (visited.visits k n granted).2.1,
    fun k n granted => (visited.visits k n granted).2.2,
    fun k n _ inside => visited.maximal k n (mem_rotation.mpr inside)⟩, ?_⟩
  have moved := visited.moved
  exact ⟨moved.taken, moved.kept, moved.outputs⟩

/-! ## iSLIP -/

/-- The order in which an output looks at the inputs. -/
def order (router : XbarRouter δ) (k : Nat) : List Nat := rotation router.totalNodes (router.nextNode k)

/-- No input that the output looks at before this one has its head packet for the output. -/
def Favours (router : XbarRouter δ) (k n : Nat) : Prop :=
  ∃ before after, router.order k = before ++ n :: after ∧ ∀ m ∈ before, ¬ router.HeadFor k m

/-- An output with room chooses an input whose second packet goes to a later output with room, which
comes to that input before any other with a packet for it. -/
structure Clash (cfg : InctConfig) (router : XbarRouter δ) (a k n : Nat) : Prop where
  later : a < k
  inside : k < router.totalNodes
  rooms : router.hasBufferOut cfg a 1 = true ∧ router.hasBufferOut cfg k 1 = true
  chosen : router.Favours a n
  packets : ∃ first second rest, router.inBuffers n = first :: second :: rest ∧
    first.outputDeviceID = a ∧ second.outputDeviceID = k
  favoured : router.Favours k n

/-- What an output sees at an input. -/
theorem look_cases (router : XbarRouter δ) (k n : Nat) (packet : Packet δ) {found : Option (Nat × Packet δ)}
    (looked : (match router.inBuffers n with
      | [] => none
      | packet :: _ => if packet.outputDeviceID = k then some (n, packet) else none) = found) :
    (found = none ↔ ¬ router.HeadFor k n) ∧
      (found = some (m, packet) ↔ m = n ∧ ∃ rest, router.inBuffers n = packet :: rest ∧ packet.outputDeviceID = k) := by
  subst looked
  cases front : router.inBuffers n with
  | nil => simp [HeadFor, front]
  | cons first rest =>
      by_cases here : first.outputDeviceID = k
      · simp only [HeadFor, front, here, if_true, reduceCtorEq, Option.some.injEq, Prod.mk.injEq,
          List.cons.injEq, false_iff]
        refine ⟨fun none => none ⟨first, rest, ⟨rfl, rfl⟩, here⟩, ?_⟩
        constructor
        · rintro ⟨rfl, rfl⟩
          exact ⟨rfl, rest, ⟨rfl, rfl⟩, here⟩
        · rintro ⟨rfl, _, ⟨rfl, -⟩, -⟩
          exact ⟨rfl, rfl⟩
      · simp only [HeadFor, front, here, if_false, reduceCtorEq, List.cons.injEq, true_iff, false_iff]
        refine ⟨?_, ?_⟩
        · rintro ⟨_, _, ⟨rfl, -⟩, same⟩
          exact here same
        · rintro ⟨-, _, ⟨rfl, -⟩, same⟩
          exact here same

theorem islipChoice_some {packet : Packet δ} : router.islipChoice k = some (n, packet) ↔
    router.Favours k n ∧ ∃ rest, router.inBuffers n = packet :: rest ∧ packet.outputDeviceID = k := by
  rw [islipChoice, List.findSome?_eq_some_iff]
  constructor
  · rintro ⟨before, m, after, split, found, none⟩
    obtain ⟨rfl, front⟩ := (look_cases router k m packet rfl).2.mp found
    exact ⟨⟨before, after, split, fun j member => (@look_cases _ n router k j packet _ rfl).1.mp (none j member)⟩,
      front⟩
  · rintro ⟨⟨before, after, split, none⟩, front⟩
    exact ⟨before, n, after, split, (look_cases router k n packet rfl).2.mpr ⟨rfl, front⟩,
      fun j member => (@look_cases _ n router k j packet _ rfl).1.mpr (none j member)⟩

theorem islipChoice_none : router.islipChoice k = none ↔ ∀ n < router.totalNodes, ¬ router.HeadFor k n := by
  rw [islipChoice, List.findSome?_eq_none_iff]
  constructor
  · intro none n inside
    have looked := none n (mem_rotation.mpr inside)
    cases front : router.inBuffers n with
    | nil => simp [HeadFor, front]
    | cons packet rest => exact (@look_cases _ n router k n packet _ rfl).1.mp looked
  · intro none n member
    have absent := none n (mem_rotation.mp member)
    cases front : router.inBuffers n with
    | nil => rfl
    | cons packet rest =>
        have looked := (@look_cases _ n router k n packet _ rfl).1.mpr absent
        rwa [front] at looked

/-- The first element of a list with a property is the only first. -/
theorem first_unique {α : Type*} {l before after before' after' : List α} {x y : α} (split : l = before ++ x :: after)
    (split' : l = before' ++ y :: after') (absent : x ∉ before') (absent' : y ∉ before) : x = y := by
  rcases List.append_eq_append_iff.mp (split.symm.trans split') with ⟨middle, rfl, tail⟩ | ⟨middle, rfl, tail⟩
  · cases middle with
    | nil => exact (List.cons.inj tail).1
    | cons z middle =>
        obtain ⟨rfl, -⟩ := List.cons.inj tail
        simp at absent
  · cases middle with
    | nil => exact (List.cons.inj tail).1.symm
    | cons z middle =>
        obtain ⟨rfl, -⟩ := List.cons.inj tail
        simp at absent'

/-- What the outputs would choose if none of them changed the inputs. -/
def startGrant (cfg : InctConfig) (router : XbarRouter δ) (k : Nat) : Option Nat :=
  if router.hasBufferOut cfg k 1 then (router.islipChoice k).map Prod.fst else none

theorem startGrant_some : startGrant cfg router k = some n ↔
    router.hasBufferOut cfg k 1 = true ∧ router.Favours k n ∧ router.HeadFor k n := by
  rw [startGrant]
  split
  next room =>
    rw [Option.map_eq_some_iff]
    constructor
    · rintro ⟨⟨m, packet⟩, chosen, rfl⟩
      obtain ⟨favours, rest, front, here⟩ := islipChoice_some.mp chosen
      exact ⟨room, favours, packet, rest, front, here⟩
    · rintro ⟨-, favours, packet, rest, front, here⟩
      exact ⟨(n, packet), islipChoice_some.mpr ⟨favours, rest, front, here⟩, rfl⟩
  next full => simp [full]

/-- The choices of the outputs below `i`. -/
def grantsBelow (cfg : InctConfig) (router : XbarRouter δ) (i k : Nat) : Option Nat :=
  if k < i then startGrant cfg router k else none

/-- The outputs below `i` have been served, each with what it would choose at the start. -/
structure Served (cfg : InctConfig) (router : XbarRouter δ) (i : Nat) (state : XbarRouter δ) : Prop where
  moved : Moved router state (grantsBelow cfg router i)
  nextNode : ∀ k, i ≤ k → state.nextNode k = router.nextNode k
  totalNodes : state.totalNodes = router.totalNodes

/-- An input has lost two packets. -/
def Doubled (router state : XbarRouter δ) : Prop :=
  ∃ n, (state.inBuffers n).length + 2 ≤ (router.inBuffers n).length

theorem Moves.length_le (moves : Moves cfg state next) (n : Nat) :
    (next.inBuffers n).length ≤ (state.inBuffers n).length := by
  induction moves with
  | refl => exact Nat.le_refl _
  | @move state next nodeId packet rest front room _ ih =>
      refine ih.trans ?_
      by_cases same : n = nodeId
      · subst same
        simp [XbarRouter.forward]
      · simp [XbarRouter.forward, Function.update_of_ne same]
  | turn _ _ _ _ ih => exact ih

theorem Served.grants_succ (idle : startGrant cfg router i = none) :
    grantsBelow cfg router (i + 1) = grantsBelow cfg router i := by
  funext k
  by_cases here : k = i
  · subst here
    simp [grantsBelow, idle]
  · simp only [grantsBelow, show k < i + 1 ↔ k < i by omega]

theorem Served.grants_update (granted : startGrant cfg router i = some n) :
    Function.update (grantsBelow cfg router i) i (some n) = grantsBelow cfg router (i + 1) := by
  funext k
  by_cases here : k = i
  · subst here
    simp [grantsBelow, granted]
  · simp only [Function.update_of_ne here, grantsBelow, show k < i + 1 ↔ k < i by omega]

theorem grantsBelow_ne (head : router.HeadFor i n) : ∀ k, grantsBelow cfg router i k ≠ some n := by
  intro k granted
  rw [grantsBelow] at granted
  split at granted
  next below =>
    have same := (startGrant_some.mp granted).2.2.unique head
    omega
  next => contradiction

section Serve

variable (served : Served cfg router i state)
include served

theorem Served.headFor (head : router.HeadFor i n) : state.HeadFor i n := by
  obtain ⟨packet, rest, front, here⟩ := head
  have kept := served.moved.kept n (grantsBelow_ne ⟨packet, rest, front, here⟩)
  exact ⟨packet, rest, kept.trans front, here⟩

theorem Served.order_eq : state.order i = router.order i := by
  rw [order, order, served.totalNodes, served.nextNode i (Nat.le_refl i)]

theorem Served.room_eq : state.hasBufferOut cfg i 1 = router.hasBufferOut cfg i 1 := by
  have same := served.moved.outputs i
  simp only [grantsBelow, Nat.lt_irrefl, if_false, Option.bind_none, Option.toList_none, List.append_nil] at same
  rw [hasBufferOut, hasBufferOut, same]

theorem Served.clash_head (clash : Clash cfg router a i n) : n < router.totalNodes ∧ state.HeadFor i n ∧
    grantsBelow cfg router i a = some n := by
  obtain ⟨later, _, ⟨room, _⟩, chosen, ⟨first, second, rest, front, to_a, to_i⟩, before, after, split, _⟩ := clash
  have granted : grantsBelow cfg router i a = some n := by
    rw [grantsBelow, if_pos later]
    exact startGrant_some.mpr ⟨room, chosen, first, second :: rest, front, to_a⟩
  have taken := served.moved.taken a n granted
  rw [front] at taken
  have member : n ∈ router.order i := by simp [split]
  exact ⟨mem_rotation.mp member, ⟨second, rest, taken, to_i⟩, granted⟩

theorem Served.idle (none : startGrant cfg router i = none) : Served cfg router (i + 1) state where
  moved := by
    rw [Served.grants_succ none]
    exact served.moved
  nextNode k bound := served.nextNode k (by omega)
  totalNodes := served.totalNodes

end Serve

theorem islipGrant_some {packet : Packet δ} (room : state.hasBufferOut cfg i 1 = true)
    (chosen : state.islipChoice i = some (n, packet)) :
    ∃ nextNode, state.islipGrant cfg i = { state.forward n packet with nextNode } ∧
      ∀ k, k ≠ i → nextNode k = state.nextNode k := by
  simp only [islipGrant, room, chosen, if_true]
  split
  · exact ⟨_, rfl, fun k other => Function.update_of_ne other ..⟩
  · exact ⟨_, rfl, fun k _ => rfl⟩

/-- A packet that an output takes of an input that has already lost one makes a clash. -/
theorem Served.clash {packet : Packet δ} {rest : List (Packet δ)} (served : Served cfg router i state)
    (inside : i < router.totalNodes) (room : router.hasBufferOut cfg i 1 = true) (favours : router.Favours i n)
    (granted : grantsBelow cfg router i a = some n) (front : state.inBuffers n = packet :: rest)
    (here : packet.outputDeviceID = i) :
    Clash cfg router a i n ∧ (router.inBuffers n).length = rest.length + 2 := by
  have lost := served.moved.taken a n granted
  rw [grantsBelow] at granted
  split at granted
  next later =>
    obtain ⟨roomy, chosen, first, others, whole, to_a⟩ := startGrant_some.mp granted
    rw [front, whole, List.tail_cons] at lost
    subst lost
    refine ⟨⟨later, inside, ⟨roomy, room⟩, chosen, ⟨first, packet, rest, whole, to_a, here⟩, favours⟩, ?_⟩
    rw [whole, List.length_cons, List.length_cons]
  next => contradiction

/-- The input that an output chooses has its first packet for it, or has lost that one to an earlier output. -/
theorem Served.serve (served : Served cfg router i state) (inside : i < router.totalNodes) :
    (Served cfg router (i + 1) (state.islipGrant cfg i) ∧ ∀ a n, ¬ Clash cfg router a i n) ∨
      (Doubled router (state.islipGrant cfg i) ∧ ∃ a n, Clash cfg router a i n) := by
  by_cases room : router.hasBufferOut cfg i 1 = true
  case neg =>
    refine .inl ⟨?_, fun a n clash => room clash.rooms.2⟩
    rw [islipGrant, served.room_eq, if_neg room]
    exact served.idle (if_neg room)
  case pos =>
    have room' := served.room_eq.trans room
    cases chosen : state.islipChoice i with
    | none =>
        have none := islipChoice_none.mp chosen
        rw [served.totalNodes] at none
        refine .inl ⟨?_, fun a n clash => ?_⟩
        · rw [islipGrant, if_pos room', chosen]
          refine served.idle ?_
          rw [startGrant, if_pos room, Option.map_eq_none_iff, islipChoice_none]
          exact fun n inside head => none n inside (served.headFor head)
        · obtain ⟨inside, head, -⟩ := served.clash_head clash
          exact none n inside head
    | some choice =>
        obtain ⟨n, packet⟩ := choice
        obtain ⟨nextNode, result, priorities⟩ := islipGrant_some room' chosen
        obtain ⟨⟨before, after, split, first⟩, rest, front, rfl⟩ := islipChoice_some.mp chosen
        rw [served.order_eq] at split
        have favours : router.Favours packet.outputDeviceID n :=
          ⟨before, after, split, fun m member head => first m member (served.headFor head)⟩
        rw [result]
        by_cases taken : ∃ a, grantsBelow cfg router packet.outputDeviceID a = some n
        · obtain ⟨a, granted⟩ := taken
          obtain ⟨clash, length⟩ := served.clash inside room favours granted front rfl
          refine .inr ⟨⟨n, ?_⟩, a, n, clash⟩
          simp only [XbarRouter.forward, Function.update_self, front, List.tail_cons, length, Nat.le_refl]
        · have free : ∀ a, grantsBelow cfg router packet.outputDeviceID a ≠ some n :=
            fun a granted => taken ⟨a, granted⟩
          have front' := (served.moved.kept n free).symm.trans front
          have head : router.HeadFor packet.outputDeviceID n := ⟨packet, rest, front', rfl⟩
          have granted := startGrant_some.mpr ⟨room, favours, head⟩
          refine .inl ⟨⟨?_, fun k bound => ?_, served.totalNodes⟩, fun a m clash => ?_⟩
          · have moved := served.moved.forward front' free (by simp [grantsBelow])
            rw [Served.grants_update granted] at moved
            exact ⟨moved.taken, moved.kept, moved.outputs⟩
          · exact (priorities k (by omega)).trans (served.nextNode k (by omega))
          · -- both inputs would be the first that the output comes to
            obtain ⟨_, seen, lost⟩ := served.clash_head clash
            obtain ⟨before', after', split', first'⟩ := clash.favoured
            obtain rfl : n = m := first_unique split split' (fun member => first' n member head)
              fun member => first m member seen
            exact free a lost

theorem Served.serveAll (bound : i ≤ router.totalNodes) :
    (Served cfg router i ((List.range i).foldl (islipGrant cfg) router) ∧ ∀ a k n, k < i → ¬ Clash cfg router a k n) ∨
      (Doubled router ((List.range i).foldl (islipGrant cfg) router) ∧ ∃ a k n, Clash cfg router a k n) := by
  induction i with
  | zero =>
      refine .inl ⟨⟨?_, fun _ _ => rfl, rfl⟩, fun _ k _ below => by omega⟩
      exact Moved.none
  | succ i ih =>
      rw [List.range_succ, List.foldl_append, List.foldl_cons, List.foldl_nil]
      rcases ih (by omega) with ⟨served, none⟩ | ⟨⟨n, twice⟩, clash⟩
      · rcases served.serve (by omega) with ⟨served, still⟩ | ⟨doubled, a, n, clash⟩
        · refine .inl ⟨served, fun a k n below => ?_⟩
          rcases Nat.lt_succ_iff_lt_or_eq.mp below with old | rfl
          · exact none a k n old
          · exact still a n
        · exact .inr ⟨doubled, a, i, n, clash⟩
      · exact .inr ⟨⟨n, (Nat.add_le_add_right ((islipGrant_moves i).length_le n) 2).trans twice⟩, clash⟩

theorem Moved.not_doubled (moved : Moved router next grant) : ¬ Doubled router next := by
  rintro ⟨n, twice⟩
  by_cases taken : ∃ k, grant k = some n
  · obtain ⟨k, granted⟩ := taken
    rw [moved.taken k n granted, List.length_tail] at twice
    omega
  · rw [moved.kept n fun k granted => taken ⟨k, granted⟩] at twice
    omega

theorem islipAdvance_buffers : (router.islipAdvance cfg).inBuffers =
      ((List.range router.totalNodes).foldl (islipGrant cfg) router).inBuffers ∧
    (router.islipAdvance cfg).outBuffers =
      ((List.range router.totalNodes).foldl (islipGrant cfg) router).outBuffers := by
  dsimp only [islipAdvance]
  split
  · exact ⟨rfl, rfl⟩
  · split <;> exact ⟨rfl, rfl⟩

theorem grantsBelow_matching : MaximalMatching cfg router (grantsBelow cfg router router.totalNodes) := by
  have start {k n} (granted : grantsBelow cfg router router.totalNodes k = some n) :
      startGrant cfg router k = some n := by
    rw [grantsBelow] at granted
    split at granted
    · exact granted
    · contradiction
  refine ⟨fun k n granted => ?_, fun k n granted => ?_, fun k n inside nodes room none _ => ?_⟩
  · exact (startGrant_some.mp (start granted)).2.2
  · exact (startGrant_some.mp (start granted)).1
  · rw [grantsBelow, if_pos inside, startGrant, if_pos room, Option.map_eq_none_iff, islipChoice_none] at none
    exact none n nodes

theorem islipAdvance_matching_iff :
    (∃ grant, MaximalMatching cfg router grant ∧ Moved router (router.islipAdvance cfg) grant) ↔
      ∀ a k n, ¬ Clash cfg router a k n := by
  obtain ⟨inputs, outputs⟩ := @islipAdvance_buffers _ cfg router
  rcases @Served.serveAll _ cfg router _ (Nat.le_refl router.totalNodes) with
    ⟨served, none⟩ | ⟨⟨n, twice⟩, a, k, m, clash⟩
  · refine iff_of_true ⟨_, grantsBelow_matching, ⟨?_, ?_, ?_⟩⟩ fun a k n clash => none a k n clash.inside clash
    · rw [inputs]
      exact served.moved.taken
    · rw [inputs]
      exact served.moved.kept
    · rw [outputs]
      exact served.moved.outputs
  · refine iff_of_false ?_ fun none => none a k m clash
    rintro ⟨grant, -, moved⟩
    exact moved.not_doubled ⟨n, by rwa [inputs]⟩

/-! ## Both arbiters -/

/-- One step moves a maximal matching, unless an iSLIP output serves an input that an earlier one has served. -/
theorem advance_matching_iff (cfg : InctConfig) (router : XbarRouter δ) :
    (∃ grant, MaximalMatching cfg router grant ∧ Moved router (router.advance cfg) grant) ↔
      (cfg.arbiterAlgo = .iSLIP → ∀ a k n, ¬ Clash cfg router a k n) := by
  rw [advance]
  split
  next rr => exact iff_of_true rrAdvance_matching fun islip => absurd (rr.symm.trans islip) nofun
  next islip => exact islipAdvance_matching_iff.trans ⟨fun none _ => none, fun none => none islip⟩

/-- Two outputs take a packet of the same input in one step of iSLIP. -/
theorem advance_not_matching :
    let cfg : InctConfig := ⟨4, 4, 1, .iSLIP, 1⟩
    let router := ((create cfg 1 1).push 0 0 'a').push 0 1 'b'
    (router.advance cfg).inBuffers 0 = [] ∧
      ¬ ∃ grant, MaximalMatching cfg router grant ∧ Moved router (router.advance cfg) grant := by
  intro cfg router
  have emptied : (router.advance cfg).inBuffers 0 = [] := rfl
  refine ⟨emptied, ?_⟩
  rintro ⟨grant, -, moved⟩
  exact moved.not_doubled ⟨0, by rw [emptied]; rfl⟩

end XbarRouter

end GpgpuSim.Interconnect
