import GpgpuSim.Kernel.ThreadGrid
import GpgpuSim.Containers.SearchTree

/-! The streams that the CTAs of a kernel create, kept in a map whose comparator does not order all CTA ids:
on ids that grow in no dimension against each other it does, and then every CTA keeps its own streams. -/
namespace GpgpuSim.Kernel
open Containers

def dim3comp (a b : Dim3) : Bool :=
  if a.z < b.z then true
  else if a.y < b.y then true
  else if a.x < b.x then true
  else false

/-! ## What the comparator orders -/

/-- No dimension is greater. -/
structure Dim3.Within (a b : Dim3) : Prop where
  x : a.x ≤ b.x
  y : a.y ≤ b.y
  z : a.z ≤ b.z

/-- Of any two ids one lies within the other. -/
def Comparable (ids : Set Dim3) : Prop := ∀ a ∈ ids, ∀ b ∈ ids, a.Within b ∨ b.Within a

variable {a b c : Dim3} {ids : Set Dim3}

theorem Dim3.Within.trans (first : a.Within b) (second : b.Within c) : a.Within c :=
  ⟨UInt32.le_trans first.x second.x, UInt32.le_trans first.y second.y, UInt32.le_trans first.z second.z⟩

theorem Dim3.Within.antisymm (less : a.Within b) (greater : b.Within a) : a = b := by
  obtain ⟨x, y, z⟩ := a
  obtain ⟨x', y', z'⟩ := b
  obtain ⟨lx, ly, lz⟩ := less
  obtain ⟨gx, gy, gz⟩ := greater
  rw [Dim3.mk.injEq]
  exact ⟨UInt32.le_antisymm lx gx, UInt32.le_antisymm ly gy, UInt32.le_antisymm lz gz⟩

/-- The comparator puts an id first unless the other one lies within it. -/
theorem dim3comp_eq_false : dim3comp a b = false ↔ b.Within a := by
  simp only [dim3comp]
  constructor
  · intro not
    split at not
    · cases not
    split at not
    · cases not
    split at not
    · cases not
    exact ⟨UInt32.not_lt.mp ‹_›, UInt32.not_lt.mp ‹_›, UInt32.not_lt.mp ‹_›⟩
  · rintro ⟨x, y, z⟩
    rw [if_neg (UInt32.not_lt.mpr z), if_neg (UInt32.not_lt.mpr y), if_neg (UInt32.not_lt.mpr x)]

theorem strictOn_dim3comp : StrictOn dim3comp ids ↔ Comparable ids := by
  constructor
  · intro order a ha b hb
    by_cases same : a = b
    · subst same
      exact .inl (dim3comp_eq_false.mp (order.irrefl a ha))
    · rcases order.total a ha b hb same with first | first
      · exact .inl (dim3comp_eq_false.mp (order.asymm a ha b hb first))
      · exact .inr (dim3comp_eq_false.mp (order.asymm b hb a ha first))
  · intro comparable
    have within {a b} (ha : a ∈ ids) (hb : b ∈ ids) (first : dim3comp a b = true) : a.Within b :=
      (comparable a ha b hb).resolve_right fun other => by simp [dim3comp_eq_false.mpr other] at first
    have asymm : ∀ a ∈ ids, ∀ b ∈ ids, dim3comp a b = true → dim3comp b a = false :=
      fun a ha b hb first => dim3comp_eq_false.mpr (within ha hb first)
    refine ⟨fun a ha => ?_, asymm, fun a ha b hb c hc first second => ?_, fun a ha b hb different => ?_⟩
    · exact dim3comp_eq_false.mpr ((comparable a ha a ha).elim id id)
    · by_contra not
      have back := dim3comp_eq_false.mp (Bool.not_eq_true _ ▸ not)
      simp [dim3comp_eq_false.mpr ((within hb hc second).trans back)] at first
    · by_contra neither
      simp only [not_or, Bool.not_eq_true] at neither
      exact different ((dim3comp_eq_false.mp neither.2).antisymm (dim3comp_eq_false.mp neither.1))

/-! ## The streams of the CTAs -/

/-- The streams of `kernel_info_t`; a new stream has a number that no earlier one has. -/
structure CtaStreams where
  ctaStreams : TreeMap Dim3 (List Nat) := {}
  nextStream : Nat := 0
  deriving Repr

inductive StreamFault
  | assertion
  deriving DecidableEq, Repr

inductive StreamCall
  | getDefault (ctaid : Dim3)
  | create (ctaid : Dim3)
  | has (ctaid : Dim3) (stream : Nat)
  deriving DecidableEq, Repr

inductive StreamResult
  | stream (stream : Nat)
  | found (answer : Bool)
  deriving DecidableEq, Repr

def StreamCall.ctaid : StreamCall → Dim3
  | getDefault ctaid => ctaid
  | create ctaid => ctaid
  | has ctaid _ => ctaid

namespace CtaStreams

-- How the map is rebalanced after each insertion.
variable (rebalance : Nat → Rebalancing Dim3 (List Nat))

def pushBack (kernel : CtaStreams) (ctaid : Dim3) : CtaStreams :=
  { ctaStreams := kernel.ctaStreams.alter dim3comp rebalance ctaid [] (· ++ [kernel.nextStream])
    nextStream := kernel.nextStream + 1 }

def getDefaultStreamCta (kernel : CtaStreams) (ctaid : Dim3) : Except StreamFault (Nat × CtaStreams) :=
  match kernel.ctaStreams.find dim3comp ctaid with
  | some [] => .error .assertion
  | some (stream :: _) => .ok (stream, kernel)
  | none =>
      let ctaStreams := kernel.ctaStreams.alter dim3comp rebalance ctaid [] fun _ => []
      .ok (kernel.nextStream, { kernel with ctaStreams }.pushBack rebalance ctaid)

def createStreamCta (kernel : CtaStreams) (ctaid : Dim3) : Except StreamFault (Nat × CtaStreams) := do
  let (_, kernel) ← kernel.getDefaultStreamCta rebalance ctaid
  match kernel.ctaStreams.find dim3comp ctaid with
  | none => throw .assertion
  | some [] => throw .assertion
  | some (_ :: _) => return (kernel.nextStream, kernel.pushBack rebalance ctaid)

def ctaHasStream (kernel : CtaStreams) (ctaid : Dim3) (stream : Nat) : Bool :=
  match kernel.ctaStreams.find dim3comp ctaid with
  | none => false
  | some streams => stream ∈ streams

def perform (kernel : CtaStreams) : StreamCall → Except StreamFault (StreamResult × CtaStreams)
  | .getDefault ctaid => return (← kernel.getDefaultStreamCta rebalance ctaid).map .stream id
  | .create ctaid => return (← kernel.createStreamCta rebalance ctaid).map .stream id
  | .has ctaid stream => return (.found (kernel.ctaHasStream ctaid stream), kernel)

/-- The calls with their results, and the streams after them. -/
def performAll (kernel : CtaStreams) :
    List StreamCall → Except StreamFault (List (StreamCall × StreamResult) × CtaStreams)
  | [] => return ([], kernel)
  | call :: calls => do
      let (result, kernel) ← kernel.perform rebalance call
      let (results, kernel) ← kernel.performAll calls
      return ((call, result) :: results, kernel)

end CtaStreams

/-! ## The owners of the streams -/

/-- The streams of a CTA, when `owners` are the CTAs that streams `0, 1, 2, …` were created for. -/
def streamsOf (owners : List Dim3) (ctaid : Dim3) : List Nat :=
  (List.range owners.length).filter fun stream => owners[stream]? = some ctaid

/-- The first stream of a CTA. -/
def DefaultOf (owners : List Dim3) (ctaid : Dim3) (stream : Nat) : Prop :=
  owners[stream]? = some ctaid ∧ ∀ earlier < stream, owners[earlier]? ≠ some ctaid

variable {owners owners' : List Dim3} {ctaid other : Dim3} {stream : Nat}

theorem mem_streamsOf : stream ∈ streamsOf owners ctaid ↔ owners[stream]? = some ctaid := by
  rw [streamsOf, List.mem_filter, List.mem_range, decide_eq_true_eq]
  exact ⟨And.right, fun owned => ⟨(List.getElem?_eq_some_iff.mp owned).1, owned⟩⟩

theorem streamsOf_append : streamsOf (owners ++ [ctaid]) other =
    streamsOf owners other ++ if other = ctaid then [owners.length] else [] := by
  rw [streamsOf, List.length_append, List.length_singleton, List.range_succ, List.filter_append, List.filter_singleton]
  congr 1
  · refine List.filter_congr fun stream inside => ?_
    rw [List.getElem?_append_left (List.mem_range.mp inside)]
  · by_cases same : other = ctaid
    · simp [same]
    · simp [same, Ne.symm same]

theorem streamsOf_eq_nil (absent : ctaid ∉ owners) : streamsOf owners ctaid = [] := by
  refine List.filter_eq_nil_iff.mpr fun stream _ => ?_
  rw [decide_eq_true_eq]
  exact fun owned => absent (List.mem_of_getElem? owned)

theorem defaultOf_head {streams : List Nat} (given : streamsOf owners ctaid = stream :: streams) :
    DefaultOf owners ctaid stream := by
  have here : stream ∈ streamsOf owners ctaid := given ▸ List.mem_cons_self
  refine ⟨mem_streamsOf.mp here, fun earlier less owned => ?_⟩
  have ascending : (streamsOf owners ctaid).Pairwise (· < ·) := (List.pairwise_lt_range).filter _
  have member : earlier ∈ streamsOf owners ctaid := mem_streamsOf.mpr owned
  rw [given] at ascending member
  rcases List.mem_cons.mp member with rfl | later
  · exact Nat.lt_irrefl _ less
  · exact Nat.lt_asymm less ((List.pairwise_cons.mp ascending).1 _ later)

theorem getElem?_of_isPrefix (grown : owners <+: owners') (owned : owners[stream]? = some ctaid) :
    owners'[stream]? = some ctaid := by
  obtain ⟨more, rfl⟩ := grown
  rw [List.getElem?_append_left (List.getElem?_eq_some_iff.mp owned).1, owned]

theorem DefaultOf.of_isPrefix (first : DefaultOf owners ctaid stream) (grown : owners <+: owners') :
    DefaultOf owners' ctaid stream := by
  refine ⟨getElem?_of_isPrefix grown first.1, fun earlier less => ?_⟩
  obtain ⟨more, rfl⟩ := grown
  rw [List.getElem?_append_left (less.trans (List.getElem?_eq_some_iff.mp first.1).1)]
  exact first.2 earlier less

/-! ## Runs -/

/-- The map holds, for each CTA, the streams created for it. -/
structure Represents (ids : Set Dim3) (owners : List Dim3) (kernel : CtaStreams) : Prop where
  ordered : kernel.ctaStreams.tree.Ordered dim3comp ids
  next : kernel.nextStream = owners.length
  lists : ∀ ctaid ∈ ids, kernel.ctaStreams.find dim3comp ctaid =
    if ctaid ∈ owners then some (streamsOf owners ctaid) else none

variable {kernel : CtaStreams} {rebalance : Nat → Rebalancing Dim3 (List Nat)}

theorem Represents.start (ids : Set Dim3) : Represents ids [] {} where
  ordered := SearchTree.ordered_leaf
  next := rfl
  lists _ _ := rfl

theorem Represents.find_getD (represents : Represents ids owners kernel) (inside : ctaid ∈ ids) :
    (kernel.ctaStreams.find dim3comp ctaid).getD [] = streamsOf owners ctaid := by
  rw [represents.lists ctaid inside]
  split
  · rfl
  · rw [Option.getD_none, streamsOf_eq_nil ‹_›]

/-- A new stream goes to the end of the list of its CTA. -/
theorem Represents.pushBack (rebalance : Nat → Rebalancing Dim3 (List Nat)) (represents : Represents ids owners kernel)
    (order : StrictOn dim3comp ids) (inside : ctaid ∈ ids) :
    Represents ids (owners ++ [ctaid]) (kernel.pushBack rebalance ctaid) where
  ordered := TreeMap.ordered_alter _ order represents.ordered inside _ _
  next := by rw [CtaStreams.pushBack, represents.next, List.length_append, List.length_singleton]
  lists other inside' := by
    rw [CtaStreams.pushBack, TreeMap.find_alter order represents.ordered inside inside', represents.find_getD inside,
      represents.next, streamsOf_append]
    by_cases same : other = ctaid
    · simp [same]
    · simp [same, represents.lists other inside']

/-- The first of the two accesses of a new CTA leaves an empty list. -/
theorem pushBack_fresh (rebalance : Nat → Rebalancing Dim3 (List Nat)) (represents : Represents ids owners kernel)
    (order : StrictOn dim3comp ids) (inside : ctaid ∈ ids) (absent : ctaid ∉ owners) :
    Represents ids (owners ++ [ctaid]) (CtaStreams.pushBack rebalance
      { kernel with ctaStreams := kernel.ctaStreams.alter dim3comp rebalance ctaid [] fun _ => [] } ctaid) where
  ordered := TreeMap.ordered_alter _ order (TreeMap.ordered_alter _ order represents.ordered inside [] _) inside _ _
  next := by rw [CtaStreams.pushBack, represents.next, List.length_append, List.length_singleton]
  lists other inside' := by
    have emptied := TreeMap.ordered_alter rebalance order represents.ordered inside [] fun _ => []
    rw [CtaStreams.pushBack, TreeMap.find_alter order emptied inside inside',
      TreeMap.find_alter order represents.ordered inside inside, if_pos rfl, Option.getD_some,
      TreeMap.find_alter order represents.ordered inside inside', represents.next, streamsOf_append]
    by_cases same : other = ctaid
    · simp [same, streamsOf_eq_nil absent]
    · simp [same, represents.lists other inside']

/-- The default stream of a CTA is its first one; a CTA without streams gets one. -/
theorem getDefaultStreamCta_ok (rebalance : Nat → Rebalancing Dim3 (List Nat))
    (represents : Represents ids owners kernel) (order : StrictOn dim3comp ids)
    (inside : ctaid ∈ ids) : ∃ stream kernel' owners',
      kernel.getDefaultStreamCta rebalance ctaid = .ok (stream, kernel') ∧ Represents ids owners' kernel' ∧
      owners <+: owners' ∧ DefaultOf owners' ctaid stream := by
  have found := represents.lists ctaid inside
  by_cases known : ctaid ∈ owners
  · rw [if_pos known] at found
    obtain ⟨stream, owned⟩ := List.mem_iff_getElem?.mp known
    cases streams : streamsOf owners ctaid with
    | nil => exact absurd (mem_streamsOf.mpr owned) (by simp [streams])
    | cons first rest =>
        refine ⟨first, kernel, owners, ?_, represents, List.prefix_rfl, defaultOf_head streams⟩
        rw [CtaStreams.getDefaultStreamCta, found, streams]
  · rw [if_neg known] at found
    refine ⟨kernel.nextStream, _, owners ++ [ctaid], ?_,
      pushBack_fresh rebalance represents order inside known, List.prefix_append _ _, ?_, ?_⟩
    · rw [CtaStreams.getDefaultStreamCta, found]
    · rw [represents.next, List.getElem?_concat_length]
    · intro earlier less owned
      rw [represents.next] at less
      rw [List.getElem?_append_left less] at owned
      exact known (List.mem_of_getElem? owned)

theorem createStreamCta_ok (rebalance : Nat → Rebalancing Dim3 (List Nat)) (represents : Represents ids owners kernel)
    (order : StrictOn dim3comp ids) (inside : ctaid ∈ ids) : ∃ stream kernel' owners',
      kernel.createStreamCta rebalance ctaid = .ok (stream, kernel') ∧ Represents ids owners' kernel' ∧
      owners <+: owners' ∧ owners'[stream]? = some ctaid := by
  obtain ⟨stream, given, owners', ok, represents', grown, owned, -⟩ :=
    getDefaultStreamCta_ok rebalance represents order inside
  have found := represents'.lists ctaid inside
  rw [if_pos (List.mem_of_getElem? owned)] at found
  refine ⟨given.nextStream, _, owners' ++ [ctaid], ?_,
    represents'.pushBack rebalance order inside, grown.trans (List.prefix_append _ _), ?_⟩
  · cases streams : streamsOf owners' ctaid with
    | nil => exact absurd (mem_streamsOf.mpr owned) (by simp [streams])
    | cons first rest =>
        rw [streams] at found
        simp only [CtaStreams.createStreamCta, ok, bind, Except.bind, found, pure, Except.pure]
  · rw [represents'.next, List.getElem?_concat_length]

theorem Represents.ctaHasStream (represents : Represents ids owners kernel) (inside : ctaid ∈ ids) :
    kernel.ctaHasStream ctaid stream = true ↔ owners[stream]? = some ctaid := by
  rw [CtaStreams.ctaHasStream, represents.lists ctaid inside]
  by_cases known : ctaid ∈ owners
  · simp [known, mem_streamsOf]
  · simp only [if_neg known]
    exact ⟨fun found => by simp at found, fun owned => absurd (List.mem_of_getElem? owned) known⟩

/-- What a result says of the owners. -/
def Answers (owners : List Dim3) : StreamCall → StreamResult → Prop
  | .getDefault ctaid, .stream stream => DefaultOf owners ctaid stream
  | .create ctaid, .stream stream => owners[stream]? = some ctaid
  | .has _ _, .found _ => True
  | _, _ => False

theorem Answers.of_isPrefix {call : StreamCall} {result : StreamResult} (answers : Answers owners call result)
    (grown : owners <+: owners') : Answers owners' call result := by
  cases call <;> cases result <;> first
    | exact DefaultOf.of_isPrefix answers grown
    | exact getElem?_of_isPrefix grown answers
    | exact answers

theorem perform_ok (rebalance : Nat → Rebalancing Dim3 (List Nat)) (represents : Represents ids owners kernel)
    (order : StrictOn dim3comp ids) (call : StreamCall) (inside : call.ctaid ∈ ids) :
    ∃ result kernel' owners', kernel.perform rebalance call = .ok (result, kernel') ∧
      Represents ids owners' kernel' ∧ owners <+: owners' ∧ Answers owners' call result := by
  cases call with
  | getDefault ctaid =>
      obtain ⟨stream, kernel', owners', ok, represents', grown, first⟩ :=
        getDefaultStreamCta_ok rebalance represents order inside
      simp only [StreamCall.ctaid] at ok
      exact ⟨.stream stream, kernel', owners', by rw [CtaStreams.perform, ok]; rfl, represents', grown, first⟩
  | create ctaid =>
      obtain ⟨stream, kernel', owners', ok, represents', grown, owned⟩ :=
        createStreamCta_ok rebalance represents order inside
      simp only [StreamCall.ctaid] at ok
      exact ⟨.stream stream, kernel', owners', by rw [CtaStreams.perform, ok]; rfl, represents', grown, owned⟩
  | has ctaid stream => exact ⟨_, kernel, owners, rfl, represents, List.prefix_rfl, trivial⟩

theorem performAll_ok (rebalance : Nat → Rebalancing Dim3 (List Nat)) (order : StrictOn dim3comp ids)
    (calls : List StreamCall) (inside : ∀ call ∈ calls, call.ctaid ∈ ids)
    (represents : Represents ids owners kernel) : ∃ results kernel' owners',
      kernel.performAll rebalance calls = .ok (results, kernel') ∧ Represents ids owners' kernel' ∧
      owners <+: owners' ∧ ∀ answer ∈ results, Answers owners' answer.1 answer.2 := by
  induction calls generalizing kernel owners with
  | nil => exact ⟨[], kernel, owners, rfl, represents, List.prefix_rfl, by simp⟩
  | cons call calls ih =>
      obtain ⟨result, middle, known, ok, represents', grown, answer⟩ :=
        perform_ok rebalance represents order call (inside call (by simp))
      obtain ⟨results, kernel', owners', ok', represents'', grown', answers⟩ :=
        ih (fun other member => inside other (by simp [member])) represents'
      refine ⟨(call, result) :: results, kernel', owners', ?_, represents'', grown.trans grown', ?_⟩
      · simp only [CtaStreams.performAll, ok, ok', bind, Except.bind, pure, Except.pure]
      · rintro _ (_ | ⟨_, member⟩)
        exacts [answer.of_isPrefix grown', answers _ member]

/-- The comparator orders exactly the sets of ids of which one lies within the other. When the ids of a run
are such a set, no assertion fails, each stream is found for the CTA it was created for and for no
other, and the default stream of a CTA is always its first one. -/
theorem cta_streams_kept (ids : Set Dim3) : (StrictOn dim3comp ids ↔ Comparable ids) ∧
    (Comparable ids → ∀ (rebalance : Nat → Rebalancing Dim3 (List Nat)) (calls : List StreamCall),
      (∀ call ∈ calls, call.ctaid ∈ ids) → ∃ results kernel, ∃ owners : List Dim3,
        CtaStreams.performAll rebalance {} calls = .ok (results, kernel) ∧
        (∀ ctaid ∈ ids, ∀ stream, kernel.ctaHasStream ctaid stream = true ↔ owners[stream]? = some ctaid) ∧
        (∀ ctaid stream, (.create ctaid, .stream stream) ∈ results → owners[stream]? = some ctaid) ∧
        ∀ ctaid stream, (.getDefault ctaid, .stream stream) ∈ results →
          owners[stream]? = some ctaid ∧ ∀ earlier < stream, owners[earlier]? ≠ some ctaid) := by
  refine ⟨strictOn_dim3comp, fun comparable rebalance calls inside => ?_⟩
  obtain ⟨results, kernel, owners, ok, represents, -, answers⟩ := performAll_ok rebalance
    (strictOn_dim3comp.mpr comparable) calls inside (.start ids)
  exact ⟨results, kernel, owners, ok, fun ctaid known stream => represents.ctaHasStream known,
    fun ctaid stream member => answers _ member, fun ctaid stream member => answers _ member⟩

/-- Two CTAs in a row of the grid, each with its default stream and one of them with another one. -/
theorem cta_streams_kept_row : Comparable {⟨0, 0, 0⟩, ⟨1, 0, 0⟩} ∧ ∃ results kernel, ∃ owners : List Dim3,
    CtaStreams.performAll (fun _ => ⟨id, fun _ => rfl⟩) {}
      [.create ⟨0, 0, 0⟩, .getDefault ⟨1, 0, 0⟩, .getDefault ⟨0, 0, 0⟩, .has ⟨1, 0, 0⟩ 2] =
      .ok (results, kernel) ∧ ∀ ctaid ∈ ({⟨0, 0, 0⟩, ⟨1, 0, 0⟩} : Set Dim3), ∀ stream,
        kernel.ctaHasStream ctaid stream = true ↔ owners[stream]? = some ctaid := by
  have comparable : Comparable {⟨0, 0, 0⟩, ⟨1, 0, 0⟩} := by
    rintro a (rfl | rfl) b (rfl | rfl)
    exacts [.inl ⟨by decide, by decide, by decide⟩, .inl ⟨by decide, by decide, by decide⟩,
      .inr ⟨by decide, by decide, by decide⟩, .inl ⟨by decide, by decide, by decide⟩]
  obtain ⟨results, kernel, owners, ok, found, -, -⟩ := (cta_streams_kept _).2 comparable
    (fun _ => ⟨id, fun _ => rfl⟩)
    [.create ⟨0, 0, 0⟩, .getDefault ⟨1, 0, 0⟩, .getDefault ⟨0, 0, 0⟩, .has ⟨1, 0, 0⟩ 2]
    (by rintro _ (_ | ⟨_, _ | ⟨_, _ | ⟨_, _ | ⟨_, _ | _⟩⟩⟩⟩); exacts [.inl rfl, .inr rfl, .inl rfl, .inr rfl])
  exact ⟨comparable, results, kernel, owners, ok, found⟩

/-- Two CTAs that each come before the other. The entry of the second one is put to the left of the first, where
no lookup of it goes; the access that gives it its stream puts another node in its place. The stream is
not found, and the default stream of the CTA is created again. -/
theorem cta_streams_lost : dim3comp ⟨1, 0, 0⟩ ⟨0, 1, 0⟩ = true ∧ dim3comp ⟨0, 1, 0⟩ ⟨1, 0, 0⟩ = true ∧
    (CtaStreams.performAll (fun _ => ⟨id, fun _ => rfl⟩) {}
      [.getDefault ⟨1, 0, 0⟩, .getDefault ⟨0, 1, 0⟩, .has ⟨1, 0, 0⟩ 0, .has ⟨0, 1, 0⟩ 1,
        .getDefault ⟨0, 1, 0⟩]).map (fun run => run.1.map Prod.snd) =
      .ok [.stream 0, .stream 1, .found true, .found false, .stream 2] :=
  ⟨by decide, by decide, by decide⟩

end GpgpuSim.Kernel
