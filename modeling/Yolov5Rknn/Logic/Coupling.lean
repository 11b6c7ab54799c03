import Mathlib.Data.Matrix.Mul
import Mathlib.LinearAlgebra.Matrix.IsDiag

/-! Matrices that couple only rows and columns of one label. -/

namespace Yolov5Rknn.Coupling
open Matrix

variable {K κ : Type*} {m n l : Type*} {f : m → κ} {g : n → κ} {h : l → κ}

/-- An entry whose row and column have different labels is zero. -/
def Coupled [Zero K] (f : m → κ) (g : n → κ) (A : Matrix m n K) : Prop :=
  ∀ ⦃i j⦄, f i ≠ g j → A i j = 0

section Ring

variable [Ring K] {A B : Matrix m n K}

theorem Coupled.add (first : Coupled f g A) (second : Coupled f g B) : Coupled f g (A + B) := by
  intro i j apart
  rw [Matrix.add_apply, first apart, second apart, add_zero]

theorem Coupled.sub (first : Coupled f g A) (second : Coupled f g B) : Coupled f g (A - B) := by
  intro i j apart
  rw [Matrix.sub_apply, first apart, second apart, sub_zero]

theorem Coupled.mul [Fintype n] {C : Matrix n l K} (first : Coupled f g A) (second : Coupled g h C) :
    Coupled f h (A * C) := by
  intro i j apart
  rw [mul_apply]
  apply Finset.sum_eq_zero
  intro k _
  by_cases same : f i = g k
  · rw [second (same ▸ apart), mul_zero]
  · rw [first same, zero_mul]

end Ring

variable [Zero K] {A : Matrix m n K}

theorem Coupled.transpose (coupled : Coupled f g A) : Coupled g f Aᵀ := fun _ _ apart => coupled apart.symm

theorem coupled_diagonal [DecidableEq m] (d : m → K) : Coupled f f (diagonal d) :=
  fun _ _ apart => diagonal_apply_ne d fun same => apart (congrArg f same)

/-- With a label for each row nothing but the diagonal is left. -/
theorem Coupled.isDiag {B : Matrix m m K} (labels : Function.Injective f) (coupled : Coupled f f B) : B.IsDiag :=
  fun _ _ different => coupled (labels.ne different)

end Yolov5Rknn.Coupling
