import Mathlib.Data.List.Basic
import Mathlib.Data.Set.Basic

/-! Walks in a directed graph and the vertices that no walk between two others misses.
With the exit as the end these are the post-dominators, against the edges and with the
entry as the end the dominators. -/
namespace Graphs

variable {V : Type*} {edge : V → V → Prop}

/-- A walk, with the vertices that it passes, both ends included. -/
inductive Walk (edge : V → V → Prop) : V → V → List V → Prop
  | stay (v : V) : Walk edge v v [v]
  | step {u v w : V} {vs : List V} (first : edge u v) (rest : Walk edge v w vs) : Walk edge u w (u :: vs)

namespace Walk

variable {u v w : V} {us vs : List V}

theorem start_mem (walk : Walk edge u v vs) : u ∈ vs := by
  cases walk <;> simp

theorem end_mem (walk : Walk edge u v vs) : v ∈ vs := by
  induction walk with
  | stay v => simp
  | step first rest ih => exact List.mem_cons_of_mem _ ih

/-- From every vertex of a walk a part of it goes on to the end. -/
theorem suffix (walk : Walk edge u w vs) (passed : v ∈ vs) :
    ∃ before after, vs = before ++ after ∧ Walk edge v w after := by
  induction walk with
  | stay u =>
      obtain rfl := List.mem_singleton.mp passed
      exact ⟨[], [v], rfl, .stay v⟩
  | @step u u' w vs first rest ih =>
      rcases List.mem_cons.mp passed with rfl | later
      · exact ⟨[], v :: vs, rfl, .step first rest⟩
      · obtain ⟨before, after, rfl, walk⟩ := ih later
        exact ⟨u :: before, after, rfl, walk⟩

/-- A vertex before the end of a walk is reached by a shorter one. -/
theorem shorter (walk : Walk edge u w vs) (passed : v ∈ vs) (apart : v ≠ w) :
    ∃ us, Walk edge u v us ∧ us.length < vs.length := by
  induction walk with
  | stay u => exact absurd (List.mem_singleton.mp passed) apart
  | @step u u' w vs first rest ih =>
      by_cases here : v = u
      · subst here
        refine ⟨[v], .stay v, ?_⟩
        have some := List.length_pos_of_mem rest.start_mem
        simpa using some
      · obtain ⟨us, walk, less⟩ := ih ((List.mem_cons.mp passed).resolve_left here) apart
        exact ⟨u :: us, .step first walk, by simpa using less⟩

theorem snoc (walk : Walk edge u v vs) (last : edge v w) : Walk edge u w (vs ++ [w]) := by
  induction walk with
  | stay v => exact .step last (.stay w)
  | step first _ ih => exact .step first (ih last)

theorem reverse (walk : Walk edge u v vs) : Walk (fun a b => edge b a) v u vs.reverse := by
  induction walk with
  | stay v => exact .stay v
  | step first _ ih =>
      rw [List.reverse_cons]
      exact ih.snoc first

/-- A walk does not leave a part of the graph that edges do not leave. -/
theorem among {P : V → Prop} (closed : ∀ a, P a → ∀ b, edge a b → P b) (walk : Walk edge u v vs) (start : P u) :
    (∀ a ∈ vs, P a) ∧ Walk (fun a b => P a ∧ P b ∧ edge a b) u v vs := by
  induction walk with
  | stay v => exact ⟨fun a only => List.mem_singleton.mp only ▸ start, .stay v⟩
  | @step u v w vs first _ ih =>
      have inside := closed u start v first
      obtain ⟨all, rest⟩ := ih inside
      refine ⟨?_, .step ⟨start, inside, first⟩ rest⟩
      intro a either
      rcases List.mem_cons.mp either with rfl | later
      · exact start
      · exact all a later

theorem mono {wider : V → V → Prop} (widen : ∀ a b, edge a b → wider a b) (walk : Walk edge u v vs) :
    Walk wider u v vs := by
  induction walk with
  | stay v => exact .stay v
  | step first _ ih => exact .step (widen _ _ first) ih

end Walk

def Reachable (edge : V → V → Prop) (u v : V) : Prop := ∃ vs, Walk edge u v vs

/-- Every walk from `u` to `v` passes `d`. -/
def OnEveryWalk (edge : V → V → Prop) (u v d : V) : Prop := ∀ vs, Walk edge u v vs → d ∈ vs

variable {root u v c d : V}

theorem Reachable.refl (v : V) : Reachable edge v v := ⟨[v], .stay v⟩

theorem Reachable.step (first : edge u v) (rest : Reachable edge v root) : Reachable edge u root := by
  obtain ⟨vs, walk⟩ := rest
  exact ⟨u :: vs, .step first walk⟩

theorem Reachable.of_mem {vs : List V} (walk : Walk edge u root vs) (passed : v ∈ vs) :
    Reachable edge v root := by
  obtain ⟨_, after, _, rest⟩ := walk.suffix passed
  exact ⟨after, rest⟩

/-- If every vertex but the root has an edge to one that is nearer, then all reach the root. -/
theorem reachable_of_rank {P : V → Prop} {rank : V → Nat}
    (nearer : ∀ a, P a → a ≠ root → ∃ b, P b ∧ edge a b ∧ rank b < rank a) (start : P v) :
    Reachable edge v root := by
  generalize distance : rank v = n
  induction n using Nat.strongRecOn generalizing v with
  | ind n ih =>
      by_cases here : v = root
      · rw [here]
        exact .refl root
      · obtain ⟨u, inside, first, less⟩ := nearer v start here
        exact .step first (ih (rank u) (distance ▸ less) inside rfl)

theorem reachable_reverse : Reachable (fun a b => edge b a) v u ↔ Reachable edge u v := by
  constructor
  · rintro ⟨vs, walk⟩
    exact ⟨_, walk.reverse⟩
  · rintro ⟨vs, walk⟩
    exact ⟨_, walk.reverse⟩

/-- The graph may be read against its edges. -/
theorem onEveryWalk_reverse : OnEveryWalk (fun a b => edge b a) v u d ↔ OnEveryWalk edge u v d := by
  constructor
  · intro every vs walk
    exact List.mem_reverse.mp (every _ walk.reverse)
  · intro every vs walk
    exact List.mem_reverse.mp (every _ walk.reverse)

namespace OnEveryWalk

theorem start (v root : V) : OnEveryWalk edge v root v := fun _ walk => walk.start_mem

theorem target (v root : V) : OnEveryWalk edge v root root := fun _ walk => walk.end_mem

theorem at_root (every : OnEveryWalk edge root root d) : d = root :=
  List.mem_singleton.mp (every _ (.stay root))

/-- What is passed behind `d` is passed behind every vertex that passes `d`. -/
theorem trans (first : OnEveryWalk edge v root d) (second : OnEveryWalk edge d root c) :
    OnEveryWalk edge v root c := by
  intro vs walk
  obtain ⟨before, after, rfl, rest⟩ := walk.suffix (first vs walk)
  exact List.mem_append_right before (second after rest)

theorem step (every : OnEveryWalk edge u root d) (apart : d ≠ u) (first : edge u v) :
    OnEveryWalk edge v root d := by
  intro vs walk
  exact (List.mem_cons.mp (every _ (.step first walk))).resolve_left apart

/-- Two vertices cannot each be behind the other: a walk would pass both again and again. -/
theorem antisymm (reach : Reachable edge v root) (first : OnEveryWalk edge v root d)
    (second : OnEveryWalk edge d root v) : d = v := by
  by_contra apart
  obtain ⟨vs, walk⟩ := reach
  suffices longer : ∀ n vs, vs.length = n → ¬Walk edge v root vs from longer _ vs rfl walk
  clear walk vs
  intro n
  induction n using Nat.strongRecOn with
  | ind n ih =>
      rintro vs rfl walk
      cases walk with
      | stay => exact apart first.at_root
      | @step _ u _ vs out rest =>
          -- behind the first step the walk passes `d`, and behind `d` it is at `v` once more
          obtain ⟨before, after, rfl, from_d⟩ := rest.suffix (first.step apart out vs rest)
          obtain ⟨before', after', rfl, from_v⟩ := from_d.suffix (second after from_d)
          exact ih _ (by simp; omega) _ rfl from_v

theorem exists_avoiding (missed : ¬OnEveryWalk edge v root d) : ∃ vs, Walk edge v root vs ∧ d ∉ vs := by
  unfold OnEveryWalk at missed
  push Not at missed
  exact missed

/-- Of two vertices behind `v`, one is behind the other. -/
theorem chain (reach : Reachable edge v root) (first : OnEveryWalk edge v root c)
    (second : OnEveryWalk edge v root d) : OnEveryWalk edge c root d ∨ OnEveryWalk edge d root c := by
  by_contra neither
  rw [not_or] at neither
  obtain ⟨around_d, from_c, avoids_d⟩ := exists_avoiding neither.1
  obtain ⟨around_c, from_d, avoids_c⟩ := exists_avoiding neither.2
  -- a walk can turn into one of the two detours at the first vertex where one starts
  have detour : ∀ u vs, Walk edge u root vs →
      ¬(OnEveryWalk edge u root c ∧ OnEveryWalk edge u root d) := by
    clear reach first second neither
    intro u vs walk
    induction walk with
    | stay =>
        rintro ⟨is_c, is_d⟩
        obtain rfl := is_c.at_root
        obtain rfl := is_d.at_root
        exact avoids_d from_c.start_mem
    | @step u u' _ vs out rest ih =>
        rintro ⟨passes_c, passes_d⟩
        by_cases at_c : c = u
        · subst at_c
          exact avoids_d (passes_d _ from_c)
        · by_cases at_d : d = u
          · subst at_d
            exact avoids_c (passes_c _ from_d)
          · exact ih from_c from_d ⟨passes_c.step at_c out, passes_d.step at_d out⟩
  obtain ⟨vs, walk⟩ := reach
  exact detour v vs walk ⟨first, second⟩

end OnEveryWalk

/-! ## The nearest of them -/

/-- Behind `v` and not `v` itself. -/
def StrictlyBehind (edge : V → V → Prop) (root v d : V) : Prop := OnEveryWalk edge v root d ∧ d ≠ v

/-- The one behind `v` that all the others are behind. -/
def Nearest (edge : V → V → Prop) (root v d : V) : Prop :=
  StrictlyBehind edge root v d ∧ ∀ c, StrictlyBehind edge root v c → OnEveryWalk edge d root c

theorem StrictlyBehind.reachable (reach : Reachable edge v root) (behind : StrictlyBehind edge root v d) :
    Reachable edge d root := by
  obtain ⟨vs, walk⟩ := reach
  exact .of_mem walk (behind.1 vs walk)

theorem Nearest.unique (reach : Reachable edge v root) (first : Nearest edge root v c)
    (second : Nearest edge root v d) : c = d :=
  OnEveryWalk.antisymm (second.1.reachable reach) (second.2 c first.1) (first.2 d second.1)

/-- Of finitely many vertices behind `v` one is nearest. -/
theorem exists_nearest_of_list (reach : Reachable edge v root) {candidates : List V}
    (some : candidates ≠ []) (behind : ∀ d ∈ candidates, OnEveryWalk edge v root d) :
    ∃ d ∈ candidates, ∀ c ∈ candidates, OnEveryWalk edge d root c := by
  induction candidates with
  | nil => contradiction
  | cons a rest ih =>
      by_cases last : rest = []
      · subst last
        refine ⟨a, List.mem_cons_self, ?_⟩
        intro c only
        rw [List.mem_singleton.mp only]
        exact .start a root
      · obtain ⟨d, within, nearest⟩ := ih last fun c later => behind c (List.mem_cons_of_mem a later)
        rcases OnEveryWalk.chain reach (behind a List.mem_cons_self)
          (behind d (List.mem_cons_of_mem a within)) with d_behind | a_behind
        · refine ⟨a, List.mem_cons_self, ?_⟩
          intro c either
          rcases List.mem_cons.mp either with rfl | later
          · exact .start c root
          · exact d_behind.trans (nearest c later)
        · refine ⟨d, List.mem_cons_of_mem a within, ?_⟩
          intro c either
          rcases List.mem_cons.mp either with rfl | later
          · exact a_behind
          · exact nearest c later

/-! ## Solutions of the data-flow equations -/

variable {sets : V → Set V}

/-- A set for each vertex that is at most what the equations allow: only the root behind
the root, and behind another vertex itself or what is behind all its successors. -/
structure Consistent (edge : V → V → Prop) (root : V) (sets : V → Set V) : Prop where
  atRoot : ∀ d ∈ sets root, d = root
  meet : ∀ v, v ≠ root → ∀ d ∈ sets v, d = v ∨ ∀ u, edge v u → d ∈ sets u

/-- A solution has nothing that some walk misses. -/
theorem Consistent.sound (consistent : Consistent edge root sets) (within : d ∈ sets v) :
    OnEveryWalk edge v root d := by
  intro vs walk
  induction walk with
  | stay =>
      rw [consistent.atRoot d within]
      exact List.mem_singleton_self _
  | @step u v root vs first rest ih =>
      by_cases here : u = root
      · subst here
        rw [consistent.atRoot d within]
        exact List.mem_cons_self
      · rcases consistent.meet u here d within with rfl | all
        · exact List.mem_cons_self
        · exact List.mem_cons_of_mem u (ih consistent (all v first))

end Graphs
