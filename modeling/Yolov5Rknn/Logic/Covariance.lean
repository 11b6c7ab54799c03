import Mathlib.Algebra.Order.Star.Real
import Mathlib.Analysis.Matrix.LDL
import Mathlib.LinearAlgebra.Matrix.Block
import Mathlib.LinearAlgebra.Matrix.IsDiag

/-! Covariances of a linear filter: what prediction, projection and correction by the
optimal gain keep of positive definiteness, and the triangular factor of such a
matrix. -/

namespace Yolov5Rknn.Covariance
open Matrix

section Filter

variable {K : Type*} [Field K] [StarRing K] {n m : Type*} [Fintype n] [Fintype m]
  {P A Q : Matrix n n K} {H : Matrix m n K} {R : Matrix m m K} {G : Matrix n m K}

theorem dotProduct_conjugate (B : Matrix n m K) (M : Matrix m m K) (x : n → K) :
    star x ⬝ᵥ ((B * M * Bᴴ) *ᵥ x) = star (Bᴴ *ᵥ x) ⬝ᵥ (M *ᵥ (Bᴴ *ᵥ x)) := by
  simp only [star_mulVec, conjTranspose_conjTranspose, dotProduct_mulVec, vecMul_vecMul, Matrix.mul_assoc]

/-- The corrected covariance as a sum of two semidefinite matrices. -/
theorem corrected_eq [DecidableEq n] (hermitian : P.IsHermitian) (noise : R.IsHermitian)
    (gain : G * (H * P * Hᴴ + R) = P * Hᴴ) :
    P - G * (H * P * Hᴴ + R) * Gᴴ = (1 - G * H) * P * (1 - G * H)ᴴ + G * R * Gᴴ := by
  have projected : (H * P * Hᴴ + R)ᴴ = H * P * Hᴴ + R := by
    rw [conjTranspose_add, (isHermitian_mul_mul_conjTranspose H hermitian).eq, noise.eq]
  have mirrored : G * H * P = G * (H * P * Hᴴ + R) * Gᴴ := by
    calc G * H * P = G * (P * Hᴴ)ᴴ := by
          rw [conjTranspose_mul, conjTranspose_conjTranspose, hermitian.eq, Matrix.mul_assoc]
      _ = G * (H * P * Hᴴ + R) * Gᴴ := by
          rw [← gain, conjTranspose_mul, projected, ← Matrix.mul_assoc]
  have square : (1 - G * H) * P * (1 - G * H)ᴴ = P - G * H * P - P * Hᴴ * Gᴴ + G * H * P * Hᴴ * Gᴴ := by
    simp only [conjTranspose_sub, conjTranspose_one, conjTranspose_mul, Matrix.sub_mul, Matrix.mul_sub,
      Matrix.one_mul, Matrix.mul_one, Matrix.mul_assoc]
    abel
  have spread : G * R * Gᴴ = G * (H * P * Hᴴ + R) * Gᴴ - G * H * P * Hᴴ * Gᴴ := by
    simp only [Matrix.mul_add, Matrix.add_mul, Matrix.mul_assoc]
    abel
  rw [square, spread, mirrored, ← gain]
  abel

variable [PartialOrder K] [StarOrderedRing K]

theorem projected_posDef (definite : P.PosDef) (independent : Function.Injective H.vecMul)
    (noise : R.PosSemidef) : (H * P * Hᴴ + R).PosDef :=
  (definite.mul_mul_conjTranspose_same independent).add_posSemidef noise

variable [DecidableEq n]

/-- A prediction by an invertible motion needs no noise to stay definite. -/
theorem predicted_posDef (definite : P.PosDef) (motion : IsUnit A) (noise : Q.PosSemidef) :
    (A * P * Aᴴ + Q).PosDef :=
  projected_posDef definite (vecMul_injective_of_isUnit motion) noise

/-- Correction by the optimal gain, with definite measurement noise. -/
theorem corrected_posDef (definite : P.PosDef) (noise : R.PosDef) (gain : G * (H * P * Hᴴ + R) = P * Hᴴ) :
    (P - G * (H * P * Hᴴ + R) * Gᴴ).PosDef := by
  rw [corrected_eq definite.isHermitian noise.isHermitian gain]
  have first := definite.posSemidef.mul_mul_conjTranspose_same (1 - G * H)
  have second := noise.posSemidef.mul_mul_conjTranspose_same G
  refine .of_dotProduct_mulVec_pos (first.isHermitian.add second.isHermitian) fun x nonzero => ?_
  rw [add_mulVec, dotProduct_add]
  by_cases gained : Gᴴ *ᵥ x = 0
  · -- a vector that the gain does not see is all that the first summand sees
    have seen : (1 - G * H)ᴴ *ᵥ x = x := by
      rw [conjTranspose_sub, conjTranspose_one, conjTranspose_mul, sub_mulVec, one_mulVec, ← mulVec_mulVec,
        gained, mulVec_zero, sub_zero]
    apply add_pos_of_pos_of_nonneg _ (second.dotProduct_mulVec_nonneg x)
    rw [dotProduct_conjugate, seen]
    exact definite.dotProduct_mulVec_pos nonzero
  · apply add_pos_of_nonneg_of_pos (first.dotProduct_mulVec_nonneg x)
    rw [dotProduct_conjugate]
    exact noise.dotProduct_mulVec_pos gained

end Filter

section Factor

variable {n : Type*} [Fintype n] [LinearOrder n] {L S : Matrix n n ℝ}

/-- The lower triangular factor with a positive diagonal. -/
structure Cholesky (L S : Matrix n n ℝ) : Prop where
  lower : L.IsLowerTriangular
  positive : ∀ i, 0 < L i i
  factors : L * Lᵀ = S

theorem Cholesky.isUnit (factor : Cholesky L S) : IsUnit L := by
  rw [isUnit_iff_isUnit_det, det_of_isLowerTriangular L factor.lower, isUnit_iff_ne_zero]
  exact (Finset.prod_pos fun i _ => factor.positive i).ne'

/-- The factor of a diagonal matrix is diagonal. -/
theorem Cholesky.isDiag (factor : Cholesky L S) (diagonal : S.IsDiag) : L.IsDiag := by
  intro i j different
  rcases lt_or_gt_of_ne different with before | after
  · exact factor.lower before
  · -- the transpose is lower triangular as well
    have := factor.isUnit.invertible
    have transposed : Lᵀ = L⁻¹ * S := by
      rw [← factor.factors, inv_mul_cancel_left_of_invertible]
    have triangular : S.IsLowerTriangular := fun i j (apart : i < j) => diagonal apart.ne
    have lower : Lᵀ.IsLowerTriangular := by
      rw [transposed]
      exact (blockTriangular_inv_of_blockTriangular factor.lower).mul triangular
    exact lower after

/-- Where the factor is diagonal, solving on the wrong side of it makes no difference:
the squared solution is still the form of the inverse. -/
theorem Cholesky.dotProduct_solution (factor : Cholesky L S) (diagonal : S.IsDiag) {z x : n → ℝ}
    (solution : z ᵥ* L = x) : z ⬝ᵥ z = x ⬝ᵥ (S⁻¹ *ᵥ x) := by
  have symmetric : Lᵀ = L := (factor.isDiag diagonal).isSymm
  have inverse : S⁻¹ = L⁻¹ * L⁻¹ := by
    rw [← factor.factors, symmetric, Matrix.mul_inv_rev]
  have unit := (isUnit_iff_isUnit_det L).mp factor.isUnit
  have solved : z = x ᵥ* L⁻¹ := by
    rw [← solution, vecMul_vecMul, mul_nonsing_inv L unit, vecMul_one]
  have transposed : L⁻¹ *ᵥ x = z := by
    rw [solved, ← vecMul_transpose, transpose_nonsing_inv, symmetric]
  rw [inverse, ← mulVec_mulVec, transposed, dotProduct_mulVec, ← solved]

theorem exists_cholesky [WellFoundedLT n] [LocallyFiniteOrderBot n] (definite : S.PosDef) :
    ∃ L, Cholesky L S := by
  have inverse : (LDL.lowerInv definite).IsLowerTriangular := fun _ _ before => LDL.lowerInv_triangular definite before
  have lower : (LDL.lower definite).IsLowerTriangular := blockTriangular_inv_of_blockTriangular inverse
  have entries (i : n) : 0 < LDL.diagEntries definite i := by
    have conjugate : (LDL.diag definite).PosDef := by
      rw [LDL.diag_eq_lowerInv_conj]
      exact definite.mul_mul_conjTranspose_same (vecMul_injective_of_isUnit (isUnit_of_invertible _))
    exact posDef_diagonal_iff.mp conjugate i
  have nonzero (i : n) : LDL.lower definite i i ≠ 0 := by
    have determinant : (LDL.lower definite).det ≠ 0 := by
      rw [← isUnit_iff_ne_zero, ← isUnit_iff_isUnit_det, LDL.lower]
      exact isUnit_of_invertible _
    rw [det_of_isLowerTriangular _ lower, Finset.prod_ne_zero_iff] at determinant
    exact determinant i (Finset.mem_univ i)
  -- the columns are scaled by the roots of the entries, with the signs of the diagonal
  let scale (i : n) : ℝ := SignType.sign (LDL.lower definite i i) * √(LDL.diagEntries definite i)
  have square (i : n) : scale i * scale i = LDL.diagEntries definite i := by
    have root := Real.mul_self_sqrt (entries i).le
    have signs : (SignType.sign (LDL.lower definite i i) : ℝ) * SignType.sign (LDL.lower definite i i) = 1 := by
      rcases lt_or_gt_of_ne (nonzero i) with negative | positive
      · simp [sign_neg negative]
      · simp [sign_pos positive]
    calc scale i * scale i = (SignType.sign (LDL.lower definite i i) * SignType.sign (LDL.lower definite i i)) *
          (√(LDL.diagEntries definite i) * √(LDL.diagEntries definite i)) := by ring
      _ = LDL.diagEntries definite i := by rw [signs, root, one_mul]
  refine ⟨LDL.lower definite * Matrix.diagonal scale, lower.mul (blockTriangular_diagonal scale), ?_, ?_⟩
  · intro i
    rw [mul_diagonal, ← mul_assoc, mul_comm _ (SignType.sign _ : ℝ), sign_mul_self]
    exact mul_pos (abs_pos.mpr (nonzero i)) (Real.sqrt_pos.mpr (entries i))
  · rw [transpose_mul, diagonal_transpose, Matrix.mul_assoc, ← Matrix.mul_assoc (Matrix.diagonal scale),
      diagonal_mul_diagonal]
    have decomposition := LDL.lower_conj_diag definite
    rw [conjTranspose_eq_transpose_of_trivial, Matrix.mul_assoc] at decomposition
    simp only [square]
    exact decomposition

end Factor

end Yolov5Rknn.Covariance
