import Yolov5Rknn.ByteKalman
import Yolov5Rknn.Logic.Matching

/-! `STrack` (STrack.h, STrack.cpp). -/

namespace Yolov5Rknn.BYTETracker
open ByteKalman Matching

inductive TrackState where
  | new
  | tracked
  | lost
  | removed
  deriving DecidableEq

structure CenterXY where
  x : Int
  y : Int
  deriving DecidableEq

/-- The members of an `STrack`; `tlwhGiven` is `_tlwh`. -/
structure STrack (F : Type) where
  isActivated : Bool
  trackId : Int
  state : TrackState
  tlwhGiven : Fin 4 → F
  tlwh : Fin 4 → F
  tlbr : Fin 4 → F
  frameId : Int
  trackletLen : Int
  startFrame : Int
  mean : KalMean F
  covariance : KalCova F
  score : F
  name : List UInt8
  label : Int
  lastCenter : CenterXY
  nowCenter : CenterXY
  speed1s : F
  speed1m : F
  speedAll : F
  liveness : F
  trajectory : List (F × F)

/-- What the tracker takes from Eigen, from the C library and from the solver:
`linearAssignment` is given the costs, the numbers of rows and columns and the
threshold. -/
structure Calls (F : Type) where
  linearAssignment : List (List F) → Nat → Nat → F → Assignment
  lltSolve : KalHCova F → Matrix (Fin 4) (Fin 8) F → Matrix (Fin 4) (Fin 8) F
  sqrt : F → F
  /-- Conversion to `int`. -/
  toInt : F → Int
  lround : F → Int

namespace STrack

variable {F : Type} [Arithmetic F]

def tlwhToXyah (tlwh : Fin 4 → F) : DetectBox F :=
  ![tlwh 0 + tlwh 2 / 2, tlwh 1 + tlwh 3 / 2, tlwh 2 / tlwh 3, tlwh 3]

def tlbrToTlwh (tlbr : Fin 4 → F) : Fin 4 → F := ![tlbr 0, tlbr 1, tlbr 2 - tlbr 0, tlbr 3 - tlbr 1]

/-- The box `static_tlwh` computes from the mean. -/
def meanTlwh (mean : KalMean F) : Fin 4 → F :=
  ![mean 0 - mean 2 * mean 3 / 2, mean 1 - mean 3 / 2, mean 2 * mean 3, mean 3]

/-- The box `static_tlbr` computes. -/
def tlwhToTlbr (tlwh : Fin 4 → F) : Fin 4 → F :=
  ![tlwh 0, tlwh 1, tlwh 2 + tlwh 0, tlwh 3 + tlwh 1]

/-- `static_tlwh` and `static_tlbr`, which every caller calls together. -/
def staticBoxes (track : STrack F) : STrack F :=
  let tlwh := if track.state = .new then track.tlwhGiven else meanTlwh track.mean
  { track with tlwh, tlbr := tlwhToTlbr tlwh }

def centerPoint (tlwh : Fin 4 → F) : F × F := (tlwh 0 + tlwh 2 * (1 / 2), tlwh 1 + tlwh 3 * (1 / 2))

/-- The constructor. Mean and covariance stay unset until `activate`. -/
def create (tlwh : Fin 4 → F) (score : F) (name : List UInt8) (label : Int) : STrack F :=
  staticBoxes
    { isActivated := false
      trackId := 0
      state := .new
      tlwhGiven := tlwh
      tlwh
      tlbr := tlwh
      frameId := 0
      trackletLen := 0
      startFrame := 0
      mean := 0
      covariance := 0
      score
      name
      label
      lastCenter := ⟨0, 0⟩
      nowCenter := ⟨0, 0⟩
      speed1s := 0
      speed1m := 0
      speedAll := 0
      liveness := 0
      trajectory := [] }

/-- `activate` with the id that `next_id` returned. -/
def activate (track : STrack F) (frameId trackId : Int) : STrack F :=
  let (mean, covariance) := initiate (tlwhToXyah track.tlwhGiven)
  let track := staticBoxes { track with trackId, mean, covariance }
  { track with
    trajectory := [centerPoint track.tlwh]
    trackletLen := 0
    state := .tracked
    isActivated := if frameId = 1 then true else track.isActivated
    frameId
    startFrame := frameId }

/-- The Kalman step, the boxes and the trajectory of a track matched with `newTrack`. -/
def correct (calls : Calls F) (track newTrack : STrack F) : STrack F :=
  let (mean, covariance) :=
    ByteKalman.update calls.lltSolve track.mean track.covariance (tlwhToXyah newTrack.tlwh)
  let track := staticBoxes { track with mean, covariance }
  let trajectory := track.trajectory ++ [centerPoint track.tlwh]
  { track with trajectory := if trajectory.length > 50 then trajectory.drop 1 else trajectory }

/-- `re_activate`; every caller passes `new_id = false`. -/
def reActivate (calls : Calls F) (track newTrack : STrack F) (frameId : Int) : STrack F :=
  { track.correct calls newTrack with
    trackletLen := 0
    state := .tracked
    isActivated := true
    frameId
    score := newTrack.score
    name := newTrack.name
    label := newTrack.label }

def update (calls : Calls F) (track newTrack : STrack F) (frameId : Int) : STrack F :=
  { track.correct calls newTrack with
    frameId
    trackletLen := track.trackletLen + 1
    state := .tracked
    isActivated := true
    score := newTrack.score
    name := newTrack.name
    label := newTrack.label }

def markLost (track : STrack F) : STrack F := { track with state := .lost }

def markRemoved (track : STrack F) : STrack F := { track with state := .removed }

def endFrame (track : STrack F) : Int := track.frameId

/-- `multi_predict` on one track. -/
def predict (track : STrack F) : STrack F :=
  let mean := if track.state ≠ .tracked then Function.update track.mean 7 0 else track.mean
  let (mean, covariance) := ByteKalman.predict mean track.covariance
  staticBoxes { track with mean, covariance }

variable (track : STrack F) (frameId : Int)

@[simp] theorem predict_trackId : track.predict.trackId = track.trackId := rfl

@[simp] theorem predict_state : track.predict.state = track.state := rfl

@[simp] theorem predict_frameId : track.predict.frameId = track.frameId := rfl

@[simp] theorem activate_trackId (trackId : Int) :
    (track.activate frameId trackId).trackId = trackId := rfl

end STrack
end Yolov5Rknn.BYTETracker
