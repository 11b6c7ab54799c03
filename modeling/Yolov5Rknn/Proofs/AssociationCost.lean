import Yolov5Rknn.Proofs.AssociationPartition
import Yolov5Rknn.Proofs.MunkresPrices

/-! `min_cost_matching` in exact arithmetic: a complete assignment of least clipped cost
is computed, and its pairs below the bound are the matches. -/

namespace Yolov5Rknn.DeepSort.LinearAssignment
open Program Assignment

section exact

attribute [local instance] Arithmetic.ofField

variable {K : Type} [Field K] [LinearOrder K] [IsStrictOrderedRing K]

section clip

variable {rows cols : Nat} {maxDistance : K} {costMatrix : Matrix (Fin rows) (Fin cols) K}

theorem clip_bounds (bounds : 0 ≤ maxDistance ∧ maxDistance < 99999) (nonneg : ∀ i j, 0 ≤ costMatrix i j)
    (i : Fin rows) (j : Fin cols) :
    0 ≤ clip maxDistance costMatrix i j ∧ clip maxDistance costMatrix i j < 100000 := by
  rw [clip, Matrix.of_apply]
  have step : (0 : K) < 1 / 100000 ∧ (1 / 100000 : K) < 1 := by norm_num
  have room : (99999 : K) + 1 = 100000 := by norm_num
  split
  · constructor
    · linarith
    · linarith
  · next below => exact ⟨nonneg i j, by linarith⟩

theorem lt_clip_iff (i : Fin rows) (j : Fin cols) :
    maxDistance < clip maxDistance costMatrix i j ↔ maxDistance < costMatrix i j := by
  have step : (0 : K) < 1 / 100000 := by norm_num
  rw [clip, Matrix.of_apply]
  split
  · next above => exact iff_of_true (lt_add_of_pos_right maxDistance step) above
  · rfl

end clip

variable {tracks detections : Nat} {metric : GatedMetricFunc K tracks detections} {maxDistance : K}
variable {trackIndices : List (Fin tracks)} {detectionIndices : List (Fin detections)}
variable {costMatrix : Matrix (Fin trackIndices.length) (Fin detectionIndices.length) K}

/-- The matches of `min_cost_matching`. -/
def Chosen (maxDistance : K) (costMatrix : Matrix (Fin trackIndices.length) (Fin detectionIndices.length) K)
    (res : TracherMatchd tracks detections) : Prop :=
  ∃ pairs, Minimal (clip maxDistance costMatrix) pairs ∧
    res.matched = (pairs.filter fun pair => decide (costMatrix pair.1 pair.2 ≤ maxDistance)).map
      fun pair => (trackIndices.get pair.1, detectionIndices.get pair.2)

theorem minCostMatching_ends (bounds : 0 ≤ maxDistance ∧ maxDistance < 99999)
    (computed : Ends (metric trackIndices detectionIndices) fun result => result = costMatrix)
    (nonneg : ∀ i j, 0 ≤ costMatrix i j) :
    Ends (minCostMatching (fun _ => false) metric maxDistance trackIndices detectionIndices) fun res =>
      Chosen maxDistance costMatrix res ∧ Partitions res trackIndices detectionIndices := by
  unfold minCostMatching
  split
  · next empty =>
    have none : min trackIndices.length detectionIndices.length = 0 := by
      rcases empty with empty | empty <;> simp [empty]
    have least : Minimal (clip maxDistance costMatrix) [] := by
      refine ⟨⟨⟨List.nodup_nil, List.nodup_nil⟩, none.symm⟩, fun other pairing => ?_⟩
      have length := pairing.length
      rw [none] at length
      rw [List.eq_nil_of_length_eq_zero length]
    exact .pure ⟨⟨[], least, rfl⟩, .refl _, .refl _⟩
  · next some =>
    have inside : 0 < trackIndices.length ∧ 0 < detectionIndices.length := by
      rw [List.length_pos_iff, List.length_pos_iff]
      tauto
    refine computed.bind fun result same => ?_
    subst same
    refine (HungarianOper.solve_minimal (clip maxDistance result) inside (clip_bounds bounds nonneg)).bind
      fun pairs least => ?_
    refine .pure ⟨⟨pairs, least, ?_⟩, collect_partitions least.pairing maxDistance _⟩
    change (pairs.filter fun pair => !decide (maxDistance < clip maxDistance result pair.1 pair.2)).map _ = _
    simp only [lt_clip_iff, ← decide_not, not_lt]

/-- The solver ends with a minimum-cost complete assignment, and `min_cost_matching`
matches the pairs of one that are not above the bound. -/
theorem assignments_minimal :
    (∀ {rows cols : Nat} (costMatrix : Matrix (Fin rows) (Fin cols) K), 0 < rows ∧ 0 < cols →
      (∀ i j, 0 ≤ costMatrix i j ∧ costMatrix i j < 100000) →
      Ends (HungarianOper.solve (fun _ => false) costMatrix) (Minimal costMatrix)) ∧
    ∀ {tracks detections : Nat} (metric : GatedMetricFunc K tracks detections) (maxDistance : K)
      (trackIndices : List (Fin tracks)) (detectionIndices : List (Fin detections))
      (costMatrix : Matrix (Fin trackIndices.length) (Fin detectionIndices.length) K),
      0 ≤ maxDistance ∧ maxDistance < 99999 →
      Ends (metric trackIndices detectionIndices) (fun result => result = costMatrix) →
      (∀ i j, 0 ≤ costMatrix i j) →
      Ends (minCostMatching (fun _ => false) metric maxDistance trackIndices detectionIndices) fun res =>
        Chosen maxDistance costMatrix res ∧ Partitions res trackIndices detectionIndices :=
  ⟨fun costMatrix inside entries => HungarianOper.solve_minimal costMatrix inside entries,
    fun _ _ _ _ _ bounds computed nonneg => minCostMatching_ends bounds computed nonneg⟩

end exact

def sampleMatrix : Matrix (Fin 2) (Fin 3) ℚ := .of ![![7 / 10, 1 / 10, 9 / 10], ![2 / 10, 100000, 3 / 10]]

def sampleTracks : List (Fin 2) := [0, 1]

def sampleDetections : List (Fin 3) := [0, 1, 2]

def sampleMetric : GatedMetricFunc ℚ 2 3 := fun trackIndices detectionIndices =>
  pure (.of fun row col => sampleMatrix (trackIndices.get row) (detectionIndices.get col))

/-- The costs of all the tracks and detections. -/
def sampleCosts : Matrix (Fin sampleTracks.length) (Fin sampleDetections.length) ℚ := sampleMatrix

theorem assignments_minimal_sample :
    Ends (HungarianOper.solve (fun _ => false) (clip (7 / 10) sampleMatrix)) (Minimal (clip (7 / 10) sampleMatrix)) ∧
      Ends (minCostMatching (fun _ => false) sampleMetric (7 / 10) sampleTracks sampleDetections) fun res =>
        Chosen (7 / 10) sampleCosts res ∧ Partitions res sampleTracks sampleDetections := by
  have nonneg : ∀ (i : Fin 2) (j : Fin 3), 0 ≤ sampleMatrix i j := by
    intro i j
    fin_cases i <;> fin_cases j <;> norm_num [sampleMatrix]
  have bounds : (0 : ℚ) ≤ 7 / 10 ∧ (7 / 10 : ℚ) < 99999 := by norm_num
  have computed : Ends (sampleMetric sampleTracks sampleDetections) fun result => result = sampleCosts := by
    refine .pure (Matrix.ext fun i j => ?_)
    fin_cases i <;> fin_cases j <;> rfl
  exact ⟨(assignments_minimal (K := ℚ)).1 (clip (7 / 10) sampleMatrix) (by decide) (clip_bounds bounds nonneg),
    (assignments_minimal (K := ℚ)).2 sampleMetric (7 / 10) sampleTracks sampleDetections sampleCosts bounds computed
      nonneg⟩

end Yolov5Rknn.DeepSort.LinearAssignment
