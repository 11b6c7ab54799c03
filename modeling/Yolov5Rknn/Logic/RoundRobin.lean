import Mathlib.Data.List.Nodup
import Mathlib.Data.List.Range
import Mathlib.Data.Nat.ModEq

/-! Slots handed out in turn from a ring. A window is the run of slots most
recently handed out; a ring that never holds a longer window than its size
hands out no slot twice. -/

namespace Yolov5Rknn.RoundRobin

/-- The last `count` slots of a ring of `size`, when `next` is handed out next. -/
def window (size next count : Nat) : List Nat :=
  (List.range count).map fun i => (next + size - count + i) % size

variable {size next count : Nat}

@[simp] theorem window_zero : window size next 0 = [] := rfl

@[simp] theorem window_length : (window size next count).length = count := by simp [window]

theorem window_lt (positive : 0 < size) : ∀ slot ∈ window size next count, slot < size := by
  intro slot member
  obtain ⟨i, _, rfl⟩ := List.mem_map.mp member
  exact Nat.mod_lt _ positive

theorem window_nodup (next : Nat) (fits : count ≤ size) : (window size next count).Nodup := by
  refine List.Nodup.map_on ?_ List.nodup_range
  intro i hi j hj same
  have close : i ≡ j [MOD size] := Nat.ModEq.add_left_cancel' _ same
  exact close.eq_of_lt_of_lt (by rw [List.mem_range] at hi; omega) (by rw [List.mem_range] at hj; omega)

/-- Giving back the oldest slot. -/
theorem window_tail (fits : count < size) : (window size next (count + 1)).tail = window size next count := by
  simp only [window, List.range_succ_eq_map, List.map_cons, List.tail_cons, List.map_map]
  refine List.map_congr_left fun i _ => ?_
  simp only [Function.comp_apply]
  congr 1
  omega

/-- Handing out the next slot. -/
theorem window_push (inside : next < size) (fits : count < size) :
    window size (next + 1) (count + 1) = window size next count ++ [next] := by
  simp only [window, List.range_succ, List.map_append, List.map_singleton]
  congr 1
  · refine List.map_congr_left fun i _ => ?_
    congr 1
    omega
  · rw [show next + 1 + size - (count + 1) + count = next + size by omega, Nat.add_mod_right,
      Nat.mod_eq_of_lt inside]

theorem window_wrap (fits : count ≤ size) : window size size count = window size 0 count := by
  refine List.map_congr_left fun i _ => ?_
  rw [show size + size - count + i = 0 + size - count + i + size by omega, Nat.add_mod_right]

theorem next_not_mem (inside : next < size) (fits : count < size) : next ∉ window size next count := by
  have distinct := window_nodup (next + 1) (Nat.succ_le_of_lt fits)
  rw [window_push inside fits] at distinct
  exact fun member => (List.nodup_append.mp distinct).2.2 next member next (by simp) rfl

end Yolov5Rknn.RoundRobin
