import GpgpuSim.Words.Masks
import Mathlib.Data.List.Count

/-! Reservations as bits: a bit stands for a slot that many shifts away. Several sets of bits share the
slots, and at each position the taken ones are counted. -/
namespace Words

variable {w : Nat} {sets : List (BitVec w)} {i d : Nat}

theorem getLsbD_shiftOnce (bits : BitVec w) (d : Nat) : (bits >>> 1).getLsbD d = bits.getLsbD (d + 1) := by
  rw [BitVec.getLsbD_ushiftRight, Nat.add_comm]

/-- How many of the sets have the bit. -/
def takenAt (sets : List (BitVec w)) (d : Nat) : Nat := sets.countP fun bits => bits.getLsbD d

theorem takenAt_le_length : takenAt sets d ≤ sets.length := List.countP_le_length

theorem takenAt_shiftOnce :
    takenAt (sets.map fun bits : BitVec w => (bits >>> 1 : BitVec w)) d = takenAt sets (d + 1) := by
  simp only [takenAt, List.countP_map]
  congr 1
  funext bits
  exact getLsbD_shiftOnce bits d

/-- A free bit of one of the sets is taken. -/
theorem takenAt_modify {bits : BitVec w} {slot : Nat} (found : sets[i]? = some bits) (free : bits.getLsbD slot = false)
    (small : slot < w) :
    takenAt (sets.modify i fun bits => setBit bits slot) d = takenAt sets d + if d = slot then 1 else 0 := by
  induction sets generalizing i with
  | nil => simp at found
  | cons head rest ih =>
      cases i with
      | zero =>
          obtain rfl : head = bits := by simpa using found
          have bit : (setBit head slot).getLsbD d = (head.getLsbD d || decide (d = slot)) := by
            rw [Bool.eq_iff_iff, getLsbD_setBit, Bool.or_eq_true, decide_eq_true_eq]
            exact or_congr_right ⟨And.left, fun same => ⟨same, small⟩⟩
          rw [List.modify_zero_cons, takenAt, takenAt, List.countP_cons, List.countP_cons, bit]
          by_cases same : d = slot
          · subst same
            simp [free]
          · simp [same]
      | succ i =>
          have later := ih (by simpa using found)
          rw [List.modify_succ_cons, takenAt, takenAt, List.countP_cons, List.countP_cons]
          rw [takenAt, takenAt] at later
          omega

end Words
