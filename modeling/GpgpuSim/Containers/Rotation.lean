import Mathlib.Data.List.Nodup
import Mathlib.Data.Nat.ModEq

/-! Round robin orders: the numbers below a bound, from one of them on and around. -/
namespace Containers

/-- The numbers below `n`, starting at `start`. -/
def rotation (n start : Nat) : List Nat := (List.range n).map fun i => (i + start) % n

variable {n start k : Nat}

@[simp] theorem length_rotation : (rotation n start).length = n := by
  rw [rotation, List.length_map, List.length_range]

theorem nodup_rotation : (rotation n start).Nodup := by
  refine List.Nodup.map_on ?_ List.nodup_range
  intro i inside j inside' same
  have congruent : i ≡ j [MOD n] := Nat.ModEq.add_right_cancel' start same
  exact congruent.eq_of_lt_of_lt (List.mem_range.mp inside) (List.mem_range.mp inside')

theorem mem_rotation : k ∈ rotation n start ↔ k < n := by
  constructor
  · intro member
    obtain ⟨i, inside, rfl⟩ := List.mem_map.mp member
    exact Nat.mod_lt _ (Nat.zero_lt_of_lt (List.mem_range.mp inside))
  · intro below
    have positive : 0 < n := Nat.zero_lt_of_lt below
    have around := Nat.mod_lt start positive
    have whole := Nat.div_add_mod start n
    refine List.mem_map.mpr ⟨(k + (n - start % n)) % n, List.mem_range.mpr (Nat.mod_lt _ positive), ?_⟩
    have total : k + (n - start % n) + start = k + n * (start / n + 1) := by
      rw [Nat.mul_add, Nat.mul_one]
      omega
    rw [Nat.mod_add_mod, total, Nat.add_mul_mod_self_left, Nat.mod_eq_of_lt below]

/-- From any start every number is met within one round. -/
theorem exists_offset (start : Nat) (small : k < n) : ∃ p < n, (start + p) % n = k := by
  obtain ⟨p, inside, meets⟩ := List.mem_map.mp (@mem_rotation n start k |>.mpr small)
  exact ⟨p, List.mem_range.mp inside, by rwa [Nat.add_comm]⟩

end Containers
