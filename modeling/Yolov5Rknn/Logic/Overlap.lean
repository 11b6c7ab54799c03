import Mathlib.Algebra.Order.Field.Basic
import Mathlib.Tactic.Linarith

/-! The part two rectangles share, as a proportion of what they cover together. -/

namespace Yolov5Rknn

/-- The sides of two rectangles and of the part they share. -/
structure Overlap (K : Type) [Field K] [LinearOrder K] where
  wide : K
  high : K
  first : K × K
  second : K × K
  wide_pos : 0 < wide
  high_pos : 0 < high
  wide_le : wide ≤ first.1 ∧ wide ≤ second.1
  high_le : high ≤ first.2 ∧ high ≤ second.2

namespace Overlap

variable {K : Type} [Field K] [LinearOrder K]

def common (overlap : Overlap K) : K := overlap.wide * overlap.high

def union (overlap : Overlap K) : K :=
  overlap.first.1 * overlap.first.2 + overlap.second.1 * overlap.second.2 - overlap.common

def proportion (overlap : Overlap K) : K := overlap.common / overlap.union

variable [IsStrictOrderedRing K] (overlap : Overlap K)

theorem common_pos : 0 < overlap.common := mul_pos overlap.wide_pos overlap.high_pos

theorem common_le_first : overlap.common ≤ overlap.first.1 * overlap.first.2 :=
  mul_le_mul overlap.wide_le.1 overlap.high_le.1 overlap.high_pos.le
    (overlap.wide_pos.le.trans overlap.wide_le.1)

theorem common_le_second : overlap.common ≤ overlap.second.1 * overlap.second.2 :=
  mul_le_mul overlap.wide_le.2 overlap.high_le.2 overlap.high_pos.le
    (overlap.wide_pos.le.trans overlap.wide_le.2)

theorem common_le_union : overlap.common ≤ overlap.union := by
  have first := overlap.common_le_first
  have second := overlap.common_le_second
  unfold union
  linarith

theorem union_pos : 0 < overlap.union := overlap.common_pos.trans_le overlap.common_le_union

theorem proportion_bounds : 0 ≤ overlap.proportion ∧ overlap.proportion ≤ 1 :=
  ⟨div_nonneg overlap.common_pos.le overlap.union_pos.le,
    div_le_one_of_le₀ overlap.common_le_union overlap.union_pos.le⟩

/-- Sides that bound two others with the same product are these. -/
theorem sides_eq {wide high width height : K} (positive : 0 < wide ∧ 0 < high) (across : wide ≤ width)
    (down : high ≤ height) (same : wide * high = width * height) : wide = width ∧ high = height := by
  have width_pos := positive.1.trans_le across
  have one : wide = width := by
    refine across.eq_of_not_lt fun less => ?_
    have smaller : wide * high < width * height := mul_lt_mul less down positive.2 width_pos.le
    exact smaller.ne same
  refine ⟨one, ?_⟩
  rw [one] at same
  exact mul_left_cancel₀ width_pos.ne' same

/-- Rectangles that share all they cover are of one size. -/
theorem sides_of_whole (whole : overlap.proportion = 1) :
    (overlap.wide, overlap.high) = overlap.first ∧ (overlap.wide, overlap.high) = overlap.second := by
  have all : overlap.common = overlap.union := (div_eq_one_iff_eq overlap.union_pos.ne').mp whole
  have first := overlap.common_le_first
  have second := overlap.common_le_second
  unfold union at all
  have firstArea : overlap.common = overlap.first.1 * overlap.first.2 := by linarith
  have secondArea : overlap.common = overlap.second.1 * overlap.second.2 := by linarith
  have positive := And.intro overlap.wide_pos overlap.high_pos
  have one := sides_eq positive overlap.wide_le.1 overlap.high_le.1 firstArea
  have two := sides_eq positive overlap.wide_le.2 overlap.high_le.2 secondArea
  exact ⟨Prod.ext one.1 one.2, Prod.ext two.1 two.2⟩

end Overlap
end Yolov5Rknn
