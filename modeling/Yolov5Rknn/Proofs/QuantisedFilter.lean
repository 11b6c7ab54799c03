import Yolov5Rknn.PostProcess
import Yolov5Rknn.Logic.Truncation
import Mathlib.Data.Rat.Floor

/-! The filter of `process` compares int8 values with a quantised threshold; when it
decides as the dequantised values would. -/

namespace Yolov5Rknn.PostProcess
open Truncation

section classes

variable {prob : Nat → Int8}

/-- The first of the greatest values. -/
structure FirstGreatest (prob : Nat → Int8) (count : Nat) (best : Int8 × Nat) : Prop where
  inside : best.2 < count
  value : best.1 = prob best.2
  greatest : ∀ k < count, prob k ≤ best.1
  first : ∀ k < best.2, prob k < best.1

theorem FirstGreatest.extend {count : Nat} {best : Int8 × Nat} (held : FirstGreatest prob count best) :
    FirstGreatest prob (count + 1) (if best.1 < prob count then (prob count, count) else best) := by
  have below := held.greatest
  simp only [Int8.le_iff_toInt_le] at below
  split
  · next more =>
    rw [Int8.lt_iff_toInt_lt] at more
    refine ⟨Nat.lt_succ_self count, rfl, fun k before => ?_, fun k before => ?_⟩
    · rw [Int8.le_iff_toInt_le]
      rcases Nat.lt_succ_iff_lt_or_eq.mp before with earlier | rfl
      · exact (below k earlier).trans more.le
      · exact le_rfl
    · rw [Int8.lt_iff_toInt_lt]
      exact (below k before).trans_lt more
  · next less =>
    rw [Int8.lt_iff_toInt_lt, not_lt] at less
    refine ⟨Nat.lt_succ_of_lt held.inside, held.value, fun k before => ?_, held.first⟩
    rcases Nat.lt_succ_iff_lt_or_eq.mp before with earlier | rfl
    · exact held.greatest k earlier
    · exact Int8.le_iff_toInt_le.mpr less

theorem maxClass_first (prob : Nat → Int8) : FirstGreatest prob objClassNum (maxClass prob) := by
  have all (count : Nat) : FirstGreatest prob (count + 1) ((List.range' 1 count).foldl
      (fun best k => if best.1 < prob k then (prob k, k) else best) (prob 0, 0)) := by
    induction count with
    | zero =>
      refine ⟨Nat.one_pos, rfl, fun k before => ?_, fun k before => absurd before (Nat.not_lt_zero k)⟩
      rw [Nat.lt_one_iff.mp before]
      exact Int8.le_iff_toInt_le.mpr le_rfl
    | succ count ih =>
      rw [List.range'_1_concat, List.foldl_append, Nat.add_comm 1 count]
      exact ih.extend
  exact all 79

end classes

section exact

attribute [local instance] Arithmetic.ofField

variable {K : Type} [Field K] [LinearOrder K]

theorem processCell_isSome [FloorRing K] {threshold : K} {head : Head K} {cell : Cell} : (processCell truncate threshold head cell).isSome ↔
    qntF32ToAffine truncate threshold head.zp head.scale ≤ head.boxConfidence cell ∧
      qntF32ToAffine truncate threshold head.zp head.scale < (head.maxClass cell).1 := by
  unfold processCell
  dsimp only
  split
  · next confident =>
    split
    · next classed => exact iff_of_true rfl ⟨confident, classed⟩
    · next other => exact iff_of_false (by simp) fun both => other both.2
  · next other => exact iff_of_false (by simp) fun both => other both.1

theorem candidate_of_some [FloorRing K] {threshold : K} {head : Head K} {cell : Cell} {candidate : Candidate K}
    (found : processCell truncate threshold head cell = some candidate) : candidate = head.candidate cell := by
  unfold processCell at found
  dsimp only at found
  split at found
  · split at found
    · exact (Option.some.inj found).symm
    · cases found
  · cases found

theorem process_eq [FloorRing K] (threshold : K) (head : Head K) :
    process truncate threshold head = ((cells head.gridH head.gridW).filter fun cell =>
      (processCell truncate threshold head cell).isSome).map head.candidate := by
  rw [process, ← List.filterMap_eq_filter, List.map_filterMap]
  refine List.filterMap_congr fun cell _ => ?_
  cases found : processCell truncate threshold head cell with
  | none => simp [Option.guard, found]
  | some candidate => simp [Option.guard, found, candidate_of_some found]

variable [IsStrictOrderedRing K]

/-- The threshold among the quantised values, before it is rounded and clipped. -/
def dstVal (threshold : K) (zp : Int) (scale : K) : K := threshold / scale + zp

variable {threshold scale : K} {zp : Int}

theorem le_deqnt (positive : 0 < scale) {qnt : Int8} :
    threshold ≤ deqntAffineToF32 qnt zp scale ↔ dstVal threshold zp scale ≤ qnt.toInt := by
  rw [deqntAffineToF32, ← div_le_iff₀ positive, le_sub_iff_add_le]
  rfl

theorem lt_deqnt (positive : 0 < scale) {qnt : Int8} :
    threshold < deqntAffineToF32 qnt zp scale ↔ dstVal threshold zp scale < qnt.toInt := by
  rw [deqntAffineToF32, ← div_lt_iff₀ positive, lt_sub_iff_add_lt]
  rfl

variable [FloorRing K]

theorem qntF32ToAffine_toInt : (qntF32ToAffine truncate threshold zp scale).toInt =
    truncate (max ((-128 : Int) : K) (min ((127 : Int) : K) (dstVal threshold zp scale))) := by
  have clipped : clip truncate (dstVal threshold zp scale) ((-128 : Int) : K) ((127 : Int) : K) =
      truncate (max ((-128 : Int) : K) (min ((127 : Int) : K) (dstVal threshold zp scale))) := by
    have ordered : ((-128 : Int) : K) ≤ ((127 : Int) : K) := Int.cast_le.mpr (by decide)
    unfold clip
    split
    · next low => rw [min_eq_right (low.trans ordered), max_eq_left low]
    · next low =>
      split
      · next high => rw [min_eq_left high, max_eq_right ordered]
      · next high => rw [min_eq_right (not_le.mp high).le, max_eq_right (not_le.mp low).le]
  have least : -128 ≤ truncate (max ((-128 : Int) : K) (min ((127 : Int) : K) (dstVal threshold zp scale))) := by
    have lower := truncate_mono (le_max_left ((-128 : Int) : K) (min ((127 : Int) : K) (dstVal threshold zp scale)))
    rwa [truncate_intCast] at lower
  have greatest : truncate (max ((-128 : Int) : K) (min ((127 : Int) : K) (dstVal threshold zp scale))) ≤ 127 := by
    have upper : max ((-128 : Int) : K) (min ((127 : Int) : K) (dstVal threshold zp scale)) ≤ ((127 : Int) : K) :=
      max_le (Int.cast_le.mpr (by decide)) (min_le_left _ _)
    have lower := truncate_mono upper
    rwa [truncate_intCast] at lower
  rw [qntF32ToAffine]
  change (Int8.ofInt (clip truncate (dstVal threshold zp scale) _ _)).toInt = _
  rw [clipped, Int8.toInt_ofInt_of_le (by omega) (by omega)]

/-- From 0 on the quantised threshold is rounded down, and clipped at 127. -/
theorem le_thres (nonneg : 0 ≤ dstVal threshold zp scale) {n : Int} :
    n ≤ (qntF32ToAffine truncate threshold zp scale).toInt ↔ n ≤ 127 ∧ (n : K) ≤ dstVal threshold zp scale := by
  have top : (0 : K) ≤ min ((127 : Int) : K) (dstVal threshold zp scale) :=
    le_min (Int.cast_nonneg (by decide)) nonneg
  have bottom : ((-128 : Int) : K) ≤ 0 := Int.cast_nonpos.mpr (by decide)
  rw [qntF32ToAffine_toInt, max_eq_right (bottom.trans top), le_truncate_of_nonneg top, le_min_iff, Int.cast_le]

/-- Below 0 it is rounded up, and clipped at -128. -/
theorem thres_le (neg : dstVal threshold zp scale < 0) {n : Int} :
    (qntF32ToAffine truncate threshold zp scale).toInt ≤ n ↔ -128 ≤ n ∧ dstVal threshold zp scale ≤ n := by
  have small : dstVal threshold zp scale ≤ ((127 : Int) : K) := neg.le.trans (Int.cast_nonneg (by decide))
  have bottom : ((-128 : Int) : K) < 0 := Int.cast_lt_zero.mpr (by decide)
  rw [qntF32ToAffine_toInt, min_eq_right small, truncate_le_of_neg (max_lt bottom neg), max_le_iff, Int.cast_le]

/-- Where rounding changes the decision: `x` is the threshold among the quantised values,
`q` the objectness and `c` the greatest score of a class. -/
def Misjudged (x : K) (q c : Int) : Prop :=
  0 ≤ x ∧ q < x ∧ x < q + 1 ∧ x < c ∨ x < 0 ∧ x ≤ q ∧ x < c ∧ (c < x + 1 ∨ c = -128)

/-- The comparisons of `process` against those of exact values. -/
theorem compared_iff {q c : Int8} :
    ((qntF32ToAffine truncate threshold zp scale ≤ q ∧ qntF32ToAffine truncate threshold zp scale < c) ↔
        dstVal threshold zp scale ≤ q.toInt ∧ dstVal threshold zp scale < c.toInt) ↔
      ¬Misjudged (dstVal threshold zp scale) q.toInt c.toInt := by
  have bounds := c.toInt_lt
  have low := q.le_toInt
  have least := c.le_toInt
  rw [Int8.le_iff_toInt_le, Int8.lt_iff_toInt_lt]
  rcases le_or_gt 0 (dstVal threshold zp scale) with nonneg | neg
  · have score : (qntF32ToAffine truncate threshold zp scale).toInt < c.toInt ↔
        dstVal threshold zp scale < c.toInt := by
      rw [← not_le, le_thres nonneg, and_iff_right (by omega), not_le]
    have misjudged : Misjudged (dstVal threshold zp scale) q.toInt c.toInt ↔
        (q.toInt : K) < dstVal threshold zp scale ∧ dstVal threshold zp scale < q.toInt + 1 ∧
          dstVal threshold zp scale < c.toInt := by
      rw [Misjudged, and_iff_right nonneg, or_iff_left fun negative => negative.1.not_ge nonneg]
    rw [score, misjudged]
    by_cases classed : dstVal threshold zp scale < c.toInt
    · have confidence : (qntF32ToAffine truncate threshold zp scale).toInt ≤ q.toInt ↔
          dstVal threshold zp scale < q.toInt + 1 := by
        rw [← Int.lt_add_one_iff, ← not_le, le_thres nonneg, Int.cast_add, Int.cast_one, ← not_le]
        refine not_congr (and_iff_right_of_imp fun reached => ?_)
        have above : ((q.toInt + 1 : Int) : K) < c.toInt := by
          rw [Int.cast_add, Int.cast_one]
          exact reached.trans_lt classed
        have := Int.cast_lt.mp above
        omega
      simp only [confidence, classed, and_true]
      constructor
      · intro same between
        exact between.1.not_ge (same.mp between.2)
      · intro outside
        refine ⟨fun below => not_lt.mp fun above => outside ⟨above, below⟩, fun below => ?_⟩
        exact below.trans_lt (lt_add_one _)
    · simp only [classed, and_false, not_false_iff]
  · have confidence : (qntF32ToAffine truncate threshold zp scale).toInt ≤ q.toInt ↔
        dstVal threshold zp scale ≤ q.toInt := by
      rw [thres_le neg, and_iff_right (by omega)]
    have score : (qntF32ToAffine truncate threshold zp scale).toInt < c.toInt ↔
        c.toInt ≠ -128 ∧ ¬(c.toInt : K) < dstVal threshold zp scale + 1 := by
      rw [← Int.le_sub_one_iff, thres_le neg, Int.cast_sub, Int.cast_one]
      exact and_congr (by omega) (le_sub_iff_add_le.trans not_lt.symm)
    have misjudged : Misjudged (dstVal threshold zp scale) q.toInt c.toInt ↔
        dstVal threshold zp scale ≤ q.toInt ∧ dstVal threshold zp scale < c.toInt ∧
          ((c.toInt : K) < dstVal threshold zp scale + 1 ∨ c.toInt = -128) := by
      rw [Misjudged, and_iff_right neg, or_iff_right fun positive => positive.1.not_gt neg]
    rw [confidence, score, misjudged]
    have less (high : ¬(c.toInt : K) < dstVal threshold zp scale + 1) : dstVal threshold zp scale < c.toInt :=
      (lt_add_one _).trans_le (not_lt.mp high)
    constructor
    · intro same missed
      obtain ⟨confident, classed, rounded⟩ := missed
      obtain ⟨_, above, high⟩ := same.mpr ⟨confident, classed⟩
      exact rounded.elim high above
    · intro judged
      refine ⟨fun passed => ⟨passed.1, less passed.2.2⟩, fun exceeds => ⟨exceeds.1, ?_⟩⟩
      exact ⟨fun low => judged ⟨exceeds.1, exceeds.2, .inr low⟩, fun high => judged ⟨exceeds.1, exceeds.2, .inl high⟩⟩

/-- Some class scores more than a threshold exactly if the greatest score is more. -/
theorem lt_maxClass {x : K} {prob : Nat → Int8} :
    x < ((maxClass prob).1.toInt : K) ↔ ∃ k < objClassNum, x < ((prob k).toInt : K) := by
  have held := maxClass_first prob
  constructor
  · intro above
    rw [held.value] at above
    exact ⟨_, held.inside, above⟩
  · intro above
    obtain ⟨k, inside, above⟩ := above
    exact above.trans_le (Int.cast_le.mpr (Int8.le_iff_toInt_le.mp (held.greatest k inside)))

/-- The cells whose candidates `process` pushes, in the order of its loops, and when the
decision on a cell is that of the dequantised values. -/
theorem process_emits_iff (threshold : K) (head : Head K) (positive : 0 < head.scale) :
    process truncate threshold head = ((cells head.gridH head.gridW).filter fun cell =>
        (processCell truncate threshold head cell).isSome).map head.candidate ∧
      ∀ cell, ((processCell truncate threshold head cell).isSome ↔
          threshold ≤ head.deqnt (head.boxConfidence cell) ∧
            ∃ k < objClassNum, threshold < head.deqnt (head.inPtr cell (5 + k))) ↔
        ¬Misjudged (dstVal threshold head.zp head.scale) (head.boxConfidence cell).toInt
          (head.maxClass cell).1.toInt := by
  refine ⟨process_eq threshold head, fun cell => ?_⟩
  have scores : (∃ k < objClassNum, threshold < head.deqnt (head.inPtr cell (5 + k))) ↔
      dstVal threshold head.zp head.scale < (head.maxClass cell).1.toInt := by
    rw [Head.maxClass, lt_maxClass]
    exact exists_congr fun k => and_congr_right fun _ => lt_deqnt positive
  rw [processCell_isSome, scores, Head.deqnt, le_deqnt positive]
  exact compared_iff

end exact

/-- A head of one cell whose objectness is 0.2 and whose first class scores 1. -/
def sampleHead : Head ℚ where
  input k := if k = 4 then 2 else if k = 5 then 10 else 0
  anchor := [10, 13, 16, 30, 33, 23]
  gridH := 1
  gridW := 1
  stride := 8
  zp := 0
  scale := 1 / 10

theorem process_emits_iff_sample :
    ((processCell truncate (1 / 5 : ℚ) sampleHead ⟨0, 0, 0⟩).isSome ↔
        (1 / 5 : ℚ) ≤ sampleHead.deqnt (sampleHead.boxConfidence ⟨0, 0, 0⟩) ∧
          ∃ k < objClassNum, (1 / 5 : ℚ) < sampleHead.deqnt (sampleHead.inPtr ⟨0, 0, 0⟩ (5 + k))) ↔
      ¬Misjudged (dstVal (1 / 5 : ℚ) 0 (1 / 10)) (sampleHead.boxConfidence ⟨0, 0, 0⟩).toInt
        (sampleHead.maxClass ⟨0, 0, 0⟩).1.toInt :=
  (process_emits_iff (1 / 5) sampleHead (by decide +kernel)).2 ⟨0, 0, 0⟩

/-- The threshold 0.25 is rounded to 2, the objectness 0.2, and the candidate pushed. -/
theorem rounded_down_emits : (process truncate (1 / 4 : ℚ) sampleHead).length = 1 ∧
    ∀ cell ∈ cells 1 1, ¬(1 / 4 : ℚ) ≤ sampleHead.deqnt (sampleHead.boxConfidence cell) := by
  decide +kernel

end Yolov5Rknn.PostProcess
