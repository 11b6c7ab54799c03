import Yolov5Rknn.Logic.Arithmetic
import Mathlib.LinearAlgebra.Matrix.Notation

/-! `byte_kalman::KalmanFilter` (kalmanFilter.cpp) over any arithmetic: `F` may be
a field or a rounding one. A filter object has no state of its own. -/

namespace Yolov5Rknn.ByteKalman

instance boxNeZero : NeZero 4 := ⟨by decide⟩

instance meanNeZero : NeZero 8 := ⟨by decide⟩

variable {F : Type} [Arithmetic F]

abbrev DetectBox (F : Type) := Fin 4 → F
abbrev KalMean (F : Type) := Fin 8 → F
abbrev KalCova (F : Type) := Matrix (Fin 8) (Fin 8) F
abbrev KalHMean (F : Type) := Fin 4 → F
abbrev KalHCova (F : Type) := Matrix (Fin 4) (Fin 4) F

/-- Eigen's product, summed in the order of the index. -/
def mul {m n k : Nat} (a : Matrix (Fin m) (Fin n) F) (b : Matrix (Fin n) (Fin k) F) :
    Matrix (Fin m) (Fin k) F :=
  .of fun i j => (List.ofFn fun l => a i l * b l j).sum

/-- `asDiagonal` of the squared deviations. -/
def squaredDiagonal {n : Nat} (std : Fin n → F) : Matrix (Fin n) (Fin n) F :=
  .of fun i j => if i = j then std i * std i else 0

def motionMat : Matrix (Fin 8) (Fin 8) F :=
  .of fun i j => if i = j then 1 else if j.val = i.val + 4 then 1 else 0

def updateMat : Matrix (Fin 4) (Fin 8) F := .of fun i j => if j.val = i.val then 1 else 0

def stdWeightPosition : F := 1 / 20

def stdWeightVelocity : F := 1 / 160

def initiate (measurement : DetectBox F) : KalMean F × KalCova F :=
  let mean : KalMean F :=
    ![measurement 0, measurement 1, measurement 2, measurement 3, 0, 0, 0, 0]
  let std : Fin 8 → F :=
    ![2 * stdWeightPosition * measurement 3, 2 * stdWeightPosition * measurement 3, 1 / 100,
      2 * stdWeightPosition * measurement 3, 10 * stdWeightVelocity * measurement 3,
      10 * stdWeightVelocity * measurement 3, 1 / 100000, 10 * stdWeightVelocity * measurement 3]
  (mean, squaredDiagonal std)

def predict (mean : KalMean F) (covariance : KalCova F) : KalMean F × KalCova F :=
  let std : Fin 8 → F :=
    ![stdWeightPosition * mean 3, stdWeightPosition * mean 3, 1 / 100, stdWeightPosition * mean 3,
      stdWeightVelocity * mean 3, stdWeightVelocity * mean 3, 1 / 100000, stdWeightVelocity * mean 3]
  let motionCov := squaredDiagonal std
  let mean1 : KalMean F := fun i => (List.ofFn fun l => motionMat i l * mean l).sum
  let covariance1 := mul (mul motionMat covariance) (.transpose motionMat)
  (mean1, .of fun i j => covariance1 i j + motionCov i j)

def project (mean : KalMean F) (covariance : KalCova F) : KalHMean F × KalHCova F :=
  let std : Fin 4 → F :=
    ![stdWeightPosition * mean 3, stdWeightPosition * mean 3, 1 / 10, stdWeightPosition * mean 3]
  let mean1 : KalHMean F := fun i => (List.ofFn fun l => updateMat i l * mean l).sum
  let covariance1 := mul (mul updateMat covariance) (.transpose updateMat)
  let diag := squaredDiagonal std
  (mean1, .of fun i j => covariance1 i j + diag i j)

/-- `lltSolve` is Eigen's `llt().solve`. -/
def update (lltSolve : KalHCova F → Matrix (Fin 4) (Fin 8) F → Matrix (Fin 4) (Fin 8) F)
    (mean : KalMean F) (covariance : KalCova F) (measurement : DetectBox F) : KalMean F × KalCova F :=
  let (projectedMean, projectedCov) := project mean covariance
  let b : Matrix (Fin 4) (Fin 8) F := .transpose (mul covariance (.transpose updateMat))
  let kalmanGain : Matrix (Fin 8) (Fin 4) F := .transpose (lltSolve projectedCov b)
  let innovation : Fin 4 → F := fun i => measurement i - projectedMean i
  let newMean : KalMean F := fun i => mean i + (List.ofFn fun l => innovation l * kalmanGain i l).sum
  let correction := mul (mul kalmanGain projectedCov) (.transpose kalmanGain)
  (newMean, .of fun i j => covariance i j - correction i j)

end Yolov5Rknn.ByteKalman
