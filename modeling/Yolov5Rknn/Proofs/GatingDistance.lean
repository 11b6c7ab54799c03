import Yolov5Rknn.Proofs.KalmanCovariance
import Yolov5Rknn.Logic.Coupling
import Yolov5Rknn.Track

/-! What `gating_distance` computes. A covariance that a run of the filter reaches
couples a position with its own velocity only, so that its projection and the
triangular factor of that are diagonal, and on a diagonal factor the solve from the
right is the solve from the left. -/

namespace Yolov5Rknn.ByteKalman
open Transition Covariance Coupling Matrix

attribute [local instance] Arithmetic.ofField

section Exact

variable {K : Type} [Field K] [LinearOrder K] {covariance : KalCova K}

/-- The coordinate a position or a velocity belongs to. -/
def coordinate (i : Fin 8) : Fin 4 := ⟨i.val % 4, Nat.mod_lt _ (by decide)⟩

theorem motionMat_coupled : Coupled coordinate coordinate (motionMat (F := K)) := by
  intro i j apart
  have other : i ≠ j := fun same => apart (congrArg coordinate same)
  have later : ¬ j.val = i.val + 4 := by
    intro same
    apply apart
    simp [coordinate, same]
  simp only [motionMat, of_apply, if_neg other, if_neg later]

theorem updateMat_coupled : Coupled id coordinate (updateMat (F := K)) := by
  intro i j apart
  apply if_neg
  intro same
  apply apart
  simp [coordinate, same, Nat.mod_eq_of_lt i.isLt]

theorem predict_coupled (mean : KalMean K) (coupled : Coupled coordinate coordinate covariance) :
    Coupled coordinate coordinate (predict mean covariance).2 := by
  rw [predict_covariance]
  exact ((motionMat_coupled.mul coupled).mul motionMat_coupled.transpose).add (coupled_diagonal _)

theorem project_coupled (mean : KalMean K) (coupled : Coupled coordinate coordinate covariance) :
    Coupled id id (project mean covariance).2 := by
  rw [project_covariance]
  exact ((updateMat_coupled.mul coupled).mul updateMat_coupled.transpose).add (coupled_diagonal _)

end Exact

variable {lltSolve : KalHCova ℝ → Matrix (Fin 4) (Fin 8) ℝ → Matrix (Fin 4) (Fin 8) ℝ}
  {mean : KalMean ℝ} {covariance : KalCova ℝ}

theorem update_coupled (solves : Solves lltSolve) (definite : covariance.PosDef)
    (coupled : Coupled coordinate coordinate covariance) (measurement : DetectBox ℝ) :
    Coupled coordinate coordinate (update lltSolve mean covariance measurement).2 := by
  have projected := project_coupled mean coupled
  have inverse : Coupled id id (project mean covariance).2⁻¹ := by
    rw [← (projected.isDiag Function.injective_id).diagonal_diag, inv_diagonal]
    exact coupled_diagonal _
  have gained : Coupled coordinate id (gain lltSolve mean covariance) := by
    unfold gain
    rw [solves _ _ (project_posDef mean definite)]
    exact (inverse.mul (coupled.mul updateMat_coupled.transpose).transpose).transpose
  rw [update_covariance]
  exact coupled.sub ((gained.mul projected).mul gained.transpose)

theorem filterStep_coupled (solves : Solves lltSolve) {call : FilterCall ℝ} {state next : KalMean ℝ × KalCova ℝ}
    (definite : state.2.PosDef) (coupled : Coupled coordinate coordinate state.2)
    (taken : filterStep lltSolve call state = some next) : Coupled coordinate coordinate next.2 := by
  cases call with
  | predict =>
    cases taken
    exact predict_coupled state.1 coupled
  | update measurement =>
    cases taken
    exact update_coupled solves definite coupled measurement

end Yolov5Rknn.ByteKalman

namespace Yolov5Rknn.DeepSort
open ByteKalman Transition Covariance Coupling Matrix

attribute [local instance] Arithmetic.ofField

/-- What Eigen promises of the factor of a definite matrix and of a triangular solve
on the right. -/
def SolvesRight (lltRight : KalHCova ℝ → KalHMean ℝ → KalHMean ℝ) : Prop :=
  ∀ S, S.PosDef → ∃ L, Cholesky L S ∧ ∀ d, lltRight S d ᵥ* L = d

variable {calls : DeepSort.Calls ℝ} {mean : KalMean ℝ} {covariance : KalCova ℝ}

/-- `(m - H x) S⁻¹ (m - H x)ᵀ` with the projected covariance `S`. -/
noncomputable def mahalanobis (mean : KalMean ℝ) (covariance : KalCova ℝ) (measurement : DetectBox ℝ) : ℝ :=
  (measurement - updateMat (F := ℝ) *ᵥ mean) ⬝ᵥ
    ((project mean covariance).2⁻¹ *ᵥ (measurement - updateMat (F := ℝ) *ᵥ mean))

theorem project_mean (mean : KalMean ℝ) (covariance : KalCova ℝ) :
    (project mean covariance).1 = updateMat (F := ℝ) *ᵥ mean := by
  funext i
  exact List.sum_ofFn

theorem gatingDistance_eq (right : SolvesRight calls.lltRight) (definite : covariance.PosDef)
    (coupled : Coupled coordinate coordinate covariance) (measurement : DetectBox ℝ) :
    gatingDistance calls mean covariance measurement = mahalanobis mean covariance measurement := by
  have diagonal := (project_coupled mean coupled).isDiag Function.injective_id
  obtain ⟨L, factor, solution⟩ := right _ (project_posDef mean definite)
  have squares := factor.dotProduct_solution diagonal (solution (measurement - updateMat (F := ℝ) *ᵥ mean))
  rw [mahalanobis, ← squares, ← project_mean mean covariance]
  exact List.sum_ofFn

theorem mahalanobis_pos_iff (definite : covariance.PosDef) (measurement : DetectBox ℝ) :
    0 ≤ mahalanobis mean covariance measurement ∧
      (mahalanobis mean covariance measurement = 0 ↔ measurement = updateMat (F := ℝ) *ᵥ mean) := by
  have inverse := (project_posDef mean definite).inv
  by_cases same : measurement = updateMat (F := ℝ) *ᵥ mean
  · have zero : mahalanobis mean covariance measurement = 0 := by
      rw [mahalanobis, same, sub_self, zero_dotProduct]
    exact ⟨zero.ge, fun _ => same, fun _ => zero⟩
  · have positive : 0 < mahalanobis mean covariance measurement :=
      inverse.dotProduct_mulVec_pos (sub_ne_zero.mpr same)
    exact ⟨positive.le, fun zero => absurd zero positive.ne', fun equal => absurd equal same⟩

/-- In every state that a run of the filter reaches, each value of `gating_distance` is
the squared Mahalanobis distance: never negative, and zero for the projected mean alone. -/
theorem gatingDistance_mahalanobis (solves : Solves calls.lltSolve) (right : SolvesRight calls.lltRight)
    {measurement : DetectBox ℝ} (height : measurement 3 ≠ 0) {events : List (FilterCall ℝ)}
    (observed : Along (filterStep calls.lltSolve) Observed events (initiate measurement)) :
    ∃ mean covariance, run (filterStep calls.lltSolve) events (initiate measurement) = some (mean, covariance) ∧
      ∀ measurements : List (DetectBox ℝ),
        measurements.map (gatingDistance calls mean covariance) =
            measurements.map (mahalanobis mean covariance) ∧
          ∀ value ∈ measurements, 0 ≤ gatingDistance calls mean covariance value ∧
            (gatingDistance calls mean covariance value = 0 ↔ value = updateMat (F := ℝ) *ᵥ mean) := by
  obtain ⟨⟨mean, covariance⟩, executed⟩ := filter_total calls.lltSolve events (initiate measurement)
  obtain ⟨definite, coupled⟩ := run_keeps
    (fun state : KalMean ℝ × KalCova ℝ => state.2.PosDef ∧ Coupled coordinate coordinate state.2)
    (fun _ _ _ observed kept taken =>
      ⟨filterStep_posDef solves observed kept.1 taken, filterStep_coupled solves kept.1 kept.2 taken⟩)
    observed ⟨initiate_posDef height, by rw [initiate_covariance]; exact coupled_diagonal _⟩ executed
  have distance (value : DetectBox ℝ) :
      gatingDistance calls mean covariance value = mahalanobis mean covariance value :=
    gatingDistance_eq right definite coupled value
  refine ⟨mean, covariance, executed, fun measurements => ⟨?_, ?_⟩⟩
  · exact List.map_congr_left fun value _ => distance value
  · intro value _
    rw [distance value]
    exact mahalanobis_pos_iff definite value

open Classical in
/-- Exact solves, the second by the triangular factor. -/
noncomputable def exactCalls : DeepSort.Calls ℝ where
  lltSolve S B := S⁻¹ * B
  lltRight S d := if definite : S.PosDef then d ᵥ* (exists_cholesky definite).choose⁻¹ else d
  sqrt := Real.sqrt
  infinite _ := false
  unwritten := 0

theorem exactCalls_solvesRight : SolvesRight exactCalls.lltRight := by
  intro S definite
  have factor := (exists_cholesky definite).choose_spec
  refine ⟨_, factor, fun d => ?_⟩
  have solved : exactCalls.lltRight S d = d ᵥ* (exists_cholesky definite).choose⁻¹ := dif_pos definite
  rw [solved, vecMul_vecMul, nonsing_inv_mul _ ((isUnit_iff_isUnit_det _).mp factor.isUnit), vecMul_one]

theorem gatingDistance_mahalanobis_sample :
    ∃ mean covariance,
      run (filterStep exactCalls.lltSolve) [.predict, .update ![1, 1, 1, 3]] (initiate ![0, 0, 1, (2 : ℝ)]) =
        some (mean, covariance) ∧
      ∀ measurements : List (DetectBox ℝ),
        measurements.map (gatingDistance exactCalls mean covariance) =
            measurements.map (mahalanobis mean covariance) ∧
          ∀ value ∈ measurements, 0 ≤ gatingDistance exactCalls mean covariance value ∧
            (gatingDistance exactCalls mean covariance value = 0 ↔ value = updateMat (F := ℝ) *ᵥ mean) :=
  gatingDistance_mahalanobis (fun _ _ _ => rfl) exactCalls_solvesRight two_ne_zero
    (first_update_observed two_ne_zero _)

end Yolov5Rknn.DeepSort
