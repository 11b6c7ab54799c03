import Yolov5Rknn.ByteKalman
import Yolov5Rknn.NearNeighborDisMetric

/-! `DETECTION_ROW` (model.hpp), `MyKalmanFilter` (kalmanfilter.cpp) and `Track`
(track.h, track.cpp). The filter has the formulas of `byte_kalman::KalmanFilter`. -/

namespace Yolov5Rknn.DeepSort
open ByteKalman

structure ClsConf (F : Type) where
  cls : Int
  conf : F

structure DetectionRow (F : Type) where
  tlwh : DetectBox F
  confidence : F
  feature : Feature F

/-- The entries of both vectors of a `DETECTIONSV2`, which have one length. -/
structure Detection (F : Type) where
  clsConf : ClsConf F
  row : DetectionRow F

/-- What DeepSort takes from Eigen and from the C library. -/
structure Calls (F : Type) where
  lltSolve : KalHCova F → Matrix (Fin 4) (Fin 8) F → Matrix (Fin 4) (Fin 8) F
  /-- A row of `llt().matrixL().triangularView<Lower>().solve<OnTheRight>`. -/
  lltRight : KalHCova F → KalHMean F → KalHMean F
  sqrt : F → F
  /-- The values equal to infinity. -/
  infinite : F → Bool
  /-- A row of a matrix that was allocated and not written. -/
  unwritten : Feature F

inductive TrackState where
  | tentative
  | confirmed
  | deleted
  deriving DecidableEq

structure Track (F : Type) where
  timeSinceUpdate : Int
  trackId : Int
  features : List (Feature F)
  mean : KalMean F
  covariance : KalCova F
  hits : Int
  age : Int
  nInit : Int
  maxAge : Int
  state : TrackState
  cls : Int
  conf : F
  trajectory : List (F × F)

namespace Track

variable {F : Type}

def markMissed (track : Track F) : Track F :=
  if track.state = .tentative then { track with state := .deleted }
  else if track.maxAge < track.timeSinceUpdate then { track with state := .deleted }
  else track

def isConfirmed (track : Track F) : Bool := track.state = .confirmed

def isDeleted (track : Track F) : Bool := track.state = .deleted

/-- A missed track changes at most its state. -/
theorem markMissed_eq (track : Track F) : ∃ state, track.markMissed = { track with state } ∧
    (state = .deleted ∨ state = track.state ∧ state ≠ .tentative ∧ track.timeSinceUpdate ≤ track.maxAge) := by
  unfold markMissed
  split
  · exact ⟨.deleted, rfl, .inl rfl⟩
  · next settled =>
    split
    · exact ⟨.deleted, rfl, .inl rfl⟩
    · next young => exact ⟨track.state, rfl, .inr ⟨rfl, settled, not_lt.mp young⟩⟩

end Track

variable {F : Type} [Arithmetic F] (calls : Calls F)

def DetectionRow.toXyah (row : DetectionRow F) : DetectBox F :=
  ![row.tlwh 0 + row.tlwh 2 * (1 / 2), row.tlwh 1 + row.tlwh 3 * (1 / 2), row.tlwh 2 / row.tlwh 3, row.tlwh 3]

/-- `gating_distance` of one measurement. -/
def gatingDistance (mean : KalMean F) (covariance : KalCova F) (measurement : DetectBox F) : F :=
  let (mean1, covariance1) := project mean covariance
  let d : KalHMean F := fun i => measurement i - mean1 i
  let z := calls.lltRight covariance1 d
  (List.ofFn fun i => z i * z i).sum

namespace Track

def maxTrajectoryLen : Nat := 50

/-- The constructor with class and confidence. -/
def create (mean : KalMean F) (covariance : KalCova F) (trackId nInit maxAge : Int) (feature : Feature F)
    (clsConf : ClsConf F) : Track F where
  timeSinceUpdate := 0
  trackId
  features := [feature]
  mean
  covariance
  hits := 1
  age := 1
  nInit
  maxAge
  state := .tentative
  cls := clsConf.cls
  conf := clsConf.conf
  trajectory := []

/-- `predit`. -/
def predict (track : Track F) : Track F :=
  let (mean, covariance) := ByteKalman.predict track.mean track.covariance
  { track with
    mean
    covariance
    age := track.age + 1
    timeSinceUpdate := track.timeSinceUpdate + 1 }

def toTlwh (track : Track F) : DetectBox F :=
  ![track.mean 0 - track.mean 2 * track.mean 3 / 2, track.mean 1 - track.mean 3 / 2,
    track.mean 2 * track.mean 3, track.mean 3]

def appendTrajectory (track : Track F) (cx cy : F) : Track F :=
  let trajectory := track.trajectory ++ [(cx, cy)]
  { track with trajectory := if trajectory.length > maxTrajectoryLen then trajectory.drop 1 else trajectory }

/-- `update` with class and confidence. -/
def update (track : Track F) (detection : Detection F) : Track F :=
  let (mean, covariance) :=
    ByteKalman.update calls.lltSolve track.mean track.covariance detection.row.toXyah
  let hits := track.hits + 1
  let track : Track F :=
    { track with
      mean
      covariance
      features := track.features ++ [detection.row.feature]
      hits
      timeSinceUpdate := 0
      state := if track.state = .tentative ∧ track.nInit ≤ hits then .confirmed else track.state
      cls := detection.clsConf.cls
      conf := detection.clsConf.conf }
  let tlwh := track.toTlwh
  track.appendTrajectory (tlwh 0 + tlwh 2 / 2) (tlwh 1 + tlwh 3 / 2)

variable (track : Track F) (detection : Detection F)

@[simp] theorem predict_trackId : track.predict.trackId = track.trackId := rfl
@[simp] theorem predict_state : track.predict.state = track.state := rfl
@[simp] theorem predict_hits : track.predict.hits = track.hits := rfl
@[simp] theorem predict_features : track.predict.features = track.features := rfl
@[simp] theorem predict_nInit : track.predict.nInit = track.nInit := rfl
@[simp] theorem predict_maxAge : track.predict.maxAge = track.maxAge := rfl
@[simp] theorem predict_timeSinceUpdate : track.predict.timeSinceUpdate = track.timeSinceUpdate + 1 := rfl

@[simp] theorem update_trackId : (track.update calls detection).trackId = track.trackId := rfl
@[simp] theorem update_hits : (track.update calls detection).hits = track.hits + 1 := rfl
@[simp] theorem update_features :
    (track.update calls detection).features = track.features ++ [detection.row.feature] := rfl
@[simp] theorem update_nInit : (track.update calls detection).nInit = track.nInit := rfl
@[simp] theorem update_maxAge : (track.update calls detection).maxAge = track.maxAge := rfl
@[simp] theorem update_timeSinceUpdate : (track.update calls detection).timeSinceUpdate = 0 := rfl
@[simp] theorem update_state : (track.update calls detection).state =
    if track.state = .tentative ∧ track.nInit ≤ track.hits + 1 then .confirmed else track.state := rfl

end Track
end Yolov5Rknn.DeepSort
