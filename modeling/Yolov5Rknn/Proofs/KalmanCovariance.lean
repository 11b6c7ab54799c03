import Yolov5Rknn.ByteKalman
import Yolov5Rknn.Logic.Covariance
import Yolov5Rknn.Logic.Transition
import Mathlib.Algebra.BigOperators.Fin

/-! The covariance of the Kalman filter in exact arithmetic. The program's loops are
the products of matrices, and its steps those of a linear filter whose motion is
invertible, whose observation drops no coordinate and whose measurement noise is
definite wherever the height is not zero. -/

namespace Yolov5Rknn.ByteKalman
open Transition Covariance Matrix

attribute [local instance] Arithmetic.ofField

section Exact

variable {K : Type} [Field K] [LinearOrder K] {m n k : Nat}

theorem mul_eq (a : Matrix (Fin m) (Fin n) K) (b : Matrix (Fin n) (Fin k) K) : ByteKalman.mul a b = a * b := by
  ext i j
  rw [Matrix.mul_apply]
  exact List.sum_ofFn

theorem squaredDiagonal_eq (std : Fin n → K) : squaredDiagonal std = diagonal fun i => std i * std i := by
  ext i j
  by_cases same : i = j
  · rw [same, diagonal_apply_eq]
    exact if_pos rfl
  · rw [diagonal_apply_ne _ same]
    exact if_neg same

/-- The deviations of `initiate`, `predict` and `project`. -/
def initialStd (height : K) : Fin 8 → K :=
  ![2 * stdWeightPosition * height, 2 * stdWeightPosition * height, 1 / 100, 2 * stdWeightPosition * height,
    10 * stdWeightVelocity * height, 10 * stdWeightVelocity * height, 1 / 100000,
    10 * stdWeightVelocity * height]

def motionStd (height : K) : Fin 8 → K :=
  ![stdWeightPosition * height, stdWeightPosition * height, 1 / 100, stdWeightPosition * height,
    stdWeightVelocity * height, stdWeightVelocity * height, 1 / 100000, stdWeightVelocity * height]

def measurementStd (height : K) : Fin 4 → K :=
  ![stdWeightPosition * height, stdWeightPosition * height, 1 / 10, stdWeightPosition * height]

theorem initiate_covariance (measurement : DetectBox K) :
    (initiate measurement).2 = diagonal fun i => initialStd (measurement 3) i * initialStd (measurement 3) i :=
  squaredDiagonal_eq _

theorem predict_covariance (mean : KalMean K) (covariance : KalCova K) :
    (predict mean covariance).2 = motionMat (F := K) * covariance * (motionMat (F := K))ᵀ +
      diagonal fun i => motionStd (mean 3) i * motionStd (mean 3) i := by
  rw [← squaredDiagonal_eq, ← mul_eq, ← mul_eq]
  rfl

theorem project_covariance (mean : KalMean K) (covariance : KalCova K) :
    (project mean covariance).2 = updateMat (F := K) * covariance * (updateMat (F := K))ᵀ +
      diagonal fun i => measurementStd (mean 3) i * measurementStd (mean 3) i := by
  rw [← squaredDiagonal_eq, ← mul_eq, ← mul_eq]
  rfl

section Ordered

variable [IsStrictOrderedRing K] {height : K}

theorem literal_ne_zero (n : Nat) : (OfNat.ofNat (n + 2) : K) ≠ 0 :=
  Nat.cast_ne_zero.mpr (Nat.succ_ne_zero _)

theorem stdWeightPosition_ne_zero : (stdWeightPosition : K) ≠ 0 :=
  div_ne_zero one_ne_zero (literal_ne_zero 18)

theorem stdWeightVelocity_ne_zero : (stdWeightVelocity : K) ≠ 0 :=
  div_ne_zero one_ne_zero (literal_ne_zero 158)

theorem initialStd_ne_zero (nonzero : height ≠ 0) (i : Fin 8) : initialStd height i ≠ 0 := by
  have position : (2 : K) * stdWeightPosition * height ≠ 0 :=
    mul_ne_zero (mul_ne_zero (literal_ne_zero 0) stdWeightPosition_ne_zero) nonzero
  have velocity : (10 : K) * stdWeightVelocity * height ≠ 0 :=
    mul_ne_zero (mul_ne_zero (literal_ne_zero 8) stdWeightVelocity_ne_zero) nonzero
  have ratio : (1 / 100 : K) ≠ 0 := div_ne_zero one_ne_zero (literal_ne_zero 98)
  have drift : (1 / 100000 : K) ≠ 0 := div_ne_zero one_ne_zero (literal_ne_zero 99998)
  fin_cases i <;> assumption

theorem measurementStd_ne_zero (nonzero : height ≠ 0) (i : Fin 4) : measurementStd height i ≠ 0 := by
  have position : stdWeightPosition * height ≠ 0 := mul_ne_zero stdWeightPosition_ne_zero nonzero
  have ratio : (1 / 10 : K) ≠ 0 := div_ne_zero one_ne_zero (literal_ne_zero 8)
  fin_cases i <;> assumption

end Ordered

/-- `kalman_gain` of `update`. -/
def gain (lltSolve : KalHCova K → Matrix (Fin 4) (Fin 8) K → Matrix (Fin 4) (Fin 8) K)
    (mean : KalMean K) (covariance : KalCova K) : Matrix (Fin 8) (Fin 4) K :=
  (lltSolve (project mean covariance).2 (covariance * (updateMat (F := K))ᵀ)ᵀ)ᵀ

theorem update_covariance (lltSolve : KalHCova K → Matrix (Fin 4) (Fin 8) K → Matrix (Fin 4) (Fin 8) K)
    (mean : KalMean K) (covariance : KalCova K) (measurement : DetectBox K) :
    (update lltSolve mean covariance measurement).2 =
      covariance - gain lltSolve mean covariance * (project mean covariance).2 *
        (gain lltSolve mean covariance)ᵀ := by
  unfold gain
  rw [← mul_eq, ← mul_eq, ← mul_eq]
  rfl

theorem motionMat_isUnit : IsUnit (motionMat (F := K)) := by
  have upper : (motionMat (F := K)).IsUpperTriangular := by
    intro i j before
    have below : j.val < i.val := before
    simp only [motionMat, of_apply]
    rw [if_neg (fun same => by rw [same] at below; omega), if_neg (by omega)]
  have ones (i : Fin 8) : motionMat (F := K) i i = 1 := if_pos rfl
  rw [isUnit_iff_isUnit_det, det_of_isUpperTriangular upper, Finset.prod_congr rfl fun i _ => ones i,
    Finset.prod_const_one]
  exact isUnit_one

/-- The observation picks the first four coordinates. -/
theorem updateMat_eq : updateMat (F := K) = (1 : Matrix (Fin 8) (Fin 8) K).submatrix (Fin.castAdd 4) id := by
  ext i j
  rw [submatrix_apply, one_apply]
  exact if_congr (by rw [Fin.ext_iff, Fin.val_castAdd, id]; exact eq_comm) rfl rfl

theorem updateMat_injective : Function.Injective (updateMat (F := K)).vecMul := by
  have identity : updateMat (F := K) * (updateMat (F := K))ᵀ = 1 := by
    rw [updateMat_eq, transpose_submatrix, transpose_one, ← submatrix_mul _ _ _ _ _ Function.bijective_id,
      Matrix.one_mul, submatrix_one _ (Fin.castAdd_injective 4 4)]
  intro x y same
  have back := congrArg (· ᵥ* (updateMat (F := K))ᵀ) same
  simpa only [vecMul_vecMul, identity, vecMul_one] using back

end Exact

/-! ### Runs -/

section Model

variable {F : Type} [Arithmetic F]

/-- The calls a filter receives after `initiate`. -/
inductive FilterCall (F : Type) where
  | predict
  | update (measurement : DetectBox F)

/-- One call, on the mean and the covariance that the caller keeps. -/
def filterStep (lltSolve : KalHCova F → Matrix (Fin 4) (Fin 8) F → Matrix (Fin 4) (Fin 8) F) :
    Step (FilterCall F) (KalMean F × KalCova F)
  | .predict, (mean, covariance) => some (predict mean covariance)
  | .update measurement, (mean, covariance) => some (update lltSolve mean covariance measurement)

/-- An update finds a height other than zero. -/
def Observed (state : KalMean F × KalCova F) (call : FilterCall F) : Prop :=
  ∀ measurement, call = .update measurement → state.1 3 ≠ 0

end Model

variable {lltSolve : KalHCova ℝ → Matrix (Fin 4) (Fin 8) ℝ → Matrix (Fin 4) (Fin 8) ℝ}
  {mean : KalMean ℝ} {covariance : KalCova ℝ}

/-- What Eigen promises of `llt().solve` for a definite matrix. -/
def Solves (lltSolve : KalHCova ℝ → Matrix (Fin 4) (Fin 8) ℝ → Matrix (Fin 4) (Fin 8) ℝ) : Prop :=
  ∀ S B, S.PosDef → lltSolve S B = S⁻¹ * B

theorem squares_posSemidef {n : Nat} (std : Fin n → ℝ) : (diagonal fun i => std i * std i).PosSemidef :=
  .diagonal fun i => mul_self_nonneg (std i)

theorem squares_posDef {n : Nat} {std : Fin n → ℝ} (nonzero : ∀ i, std i ≠ 0) :
    (diagonal fun i => std i * std i).PosDef :=
  .diagonal fun i => mul_self_pos.mpr (nonzero i)

theorem initiate_posDef {measurement : DetectBox ℝ} (height : measurement 3 ≠ 0) :
    (initiate measurement).2.PosDef := by
  rw [initiate_covariance]
  exact squares_posDef (initialStd_ne_zero height)

theorem predict_posDef (mean : KalMean ℝ) (definite : covariance.PosDef) : (predict mean covariance).2.PosDef := by
  rw [predict_covariance, ← conjTranspose_eq_transpose_of_trivial]
  exact predicted_posDef definite motionMat_isUnit (squares_posSemidef _)

theorem project_posDef (mean : KalMean ℝ) (definite : covariance.PosDef) : (project mean covariance).2.PosDef := by
  rw [project_covariance, ← conjTranspose_eq_transpose_of_trivial]
  exact projected_posDef definite updateMat_injective (squares_posSemidef _)

/-- The gain solves for the whole covariance between state and measurement. -/
theorem gain_mul (solves : Solves lltSolve) (mean : KalMean ℝ) (definite : covariance.PosDef) :
    gain lltSolve mean covariance * (project mean covariance).2 = covariance * (updateMat (F := ℝ))ᵀ := by
  have projected := project_posDef mean definite
  have symmetric : (project mean covariance).2ᵀ = (project mean covariance).2 := projected.isHermitian
  have unit := (isUnit_iff_isUnit_det _).mp projected.isUnit
  unfold gain
  rw [solves _ _ projected, transpose_mul, transpose_transpose, transpose_nonsing_inv, symmetric,
    nonsing_inv_mul_cancel_right _ _ unit]

theorem update_posDef (solves : Solves lltSolve) (definite : covariance.PosDef) (height : mean 3 ≠ 0)
    (measurement : DetectBox ℝ) : (update lltSolve mean covariance measurement).2.PosDef := by
  have optimal := gain_mul solves mean definite
  rw [update_covariance]
  rw [project_covariance, ← conjTranspose_eq_transpose_of_trivial] at optimal ⊢
  rw [← conjTranspose_eq_transpose_of_trivial]
  exact corrected_posDef definite (squares_posDef (measurementStd_ne_zero height)) optimal

theorem filterStep_posDef (solves : Solves lltSolve) {call : FilterCall ℝ} {state next : KalMean ℝ × KalCova ℝ}
    (observed : Observed state call) (definite : state.2.PosDef)
    (taken : filterStep lltSolve call state = some next) : next.2.PosDef := by
  cases call with
  | predict =>
    cases taken
    exact predict_posDef state.1 definite
  | update measurement =>
    cases taken
    exact update_posDef solves definite (observed measurement rfl) measurement

theorem filter_total (lltSolve : KalHCova ℝ → Matrix (Fin 4) (Fin 8) ℝ → Matrix (Fin 4) (Fin 8) ℝ)
    (calls : List (FilterCall ℝ)) (start : KalMean ℝ × KalCova ℝ) :
    ∃ final, run (filterStep lltSolve) calls start = some final := by
  apply run_total
  intro call state
  cases call <;> exact ⟨_, rfl⟩

/-- After any calls of `predict` and `update`, each update with a height other than
zero, the covariance and every projection of it are symmetric and positive
definite, and the projection has its triangular factor. -/
theorem covariance_posDef (solves : Solves lltSolve) {measurement : DetectBox ℝ}
    (height : measurement 3 ≠ 0) {calls : List (FilterCall ℝ)}
    (observed : Along (filterStep lltSolve) Observed calls (initiate measurement)) :
    ∃ mean covariance, run (filterStep lltSolve) calls (initiate measurement) = some (mean, covariance) ∧
      covariance.PosDef ∧ (project mean covariance).2.PosDef ∧ ∃ L, Cholesky L (project mean covariance).2 := by
  obtain ⟨⟨mean, covariance⟩, executed⟩ := filter_total lltSolve calls (initiate measurement)
  have definite : covariance.PosDef :=
    run_keeps (fun state => state.2.PosDef) (fun _ _ _ => filterStep_posDef solves) observed
      (initiate_posDef height) executed
  have projected := project_posDef mean definite
  exact ⟨mean, covariance, executed, definite, projected, exists_cholesky projected⟩

/-- Until its first update a box keeps the height it was initiated with. -/
theorem initiate_predict_height (measurement : DetectBox ℝ) (covariance : KalCova ℝ) :
    (predict (initiate measurement).1 covariance).1 3 = measurement 3 := by
  simp [predict, initiate, motionMat, List.ofFn_succ, of_apply]

theorem first_update_observed {measurement : DetectBox ℝ} (height : measurement 3 ≠ 0) (value : DetectBox ℝ) :
    Along (filterStep lltSolve) Observed [.predict, .update value] (initiate measurement) := by
  refine ⟨nofun, ?_⟩
  intro next taken
  cases taken
  refine ⟨?_, fun _ _ => trivial⟩
  rintro _ -
  exact (initiate_predict_height measurement _).trans_ne height

theorem covariance_posDef_sample :
    ∃ mean covariance,
      run (filterStep fun S B => S⁻¹ * B) [.predict, .update ![1, 1, 1, 3]] (initiate ![0, 0, 1, (2 : ℝ)]) =
        some (mean, covariance) ∧
      covariance.PosDef ∧ (project mean covariance).2.PosDef ∧ ∃ L, Cholesky L (project mean covariance).2 :=
  covariance_posDef (fun _ _ _ => rfl) two_ne_zero (first_update_observed two_ne_zero _)

end Yolov5Rknn.ByteKalman
