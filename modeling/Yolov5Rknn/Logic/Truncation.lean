import Mathlib.Algebra.Order.Floor.Ring

/-! Conversion of exact numbers to integers: the fraction is dropped. -/

namespace Yolov5Rknn.Truncation

variable {K : Type} [Ring K] [LinearOrder K] [FloorRing K]

def truncate (x : K) : Int := if 0 ≤ x then ⌊x⌋ else ⌈x⌉

variable {x y : K}

theorem truncate_of_nonneg (nonneg : 0 ≤ x) : truncate x = ⌊x⌋ := if_pos nonneg

theorem truncate_of_neg (neg : x < 0) : truncate x = ⌈x⌉ := if_neg neg.not_ge

theorem truncate_mono (ordered : x ≤ y) : truncate x ≤ truncate y := by
  rcases le_or_gt 0 x with first | first
  · rw [truncate_of_nonneg first, truncate_of_nonneg (first.trans ordered)]
    exact Int.floor_mono ordered
  · rw [truncate_of_neg first]
    rcases le_or_gt 0 y with second | second
    · rw [truncate_of_nonneg second]
      exact (Int.ceil_nonpos.mpr first.le).trans (Int.floor_nonneg.mpr second)
    · rw [truncate_of_neg second]
      exact Int.ceil_mono ordered

/-- From 0 on the conversion rounds down. -/
theorem le_truncate_of_nonneg (nonneg : 0 ≤ x) {n : Int} : n ≤ truncate x ↔ (n : K) ≤ x := by
  rw [truncate_of_nonneg nonneg, Int.le_floor]

/-- Below 0 it rounds up. -/
theorem truncate_le_of_neg (neg : x < 0) {n : Int} : truncate x ≤ n ↔ x ≤ n := by
  rw [truncate_of_neg neg, Int.ceil_le]

variable [IsStrictOrderedRing K]

@[simp] theorem truncate_intCast (n : Int) : truncate (n : K) = n := by
  unfold truncate
  split
  · exact Int.floor_intCast n
  · exact Int.ceil_intCast n

end Yolov5Rknn.Truncation
