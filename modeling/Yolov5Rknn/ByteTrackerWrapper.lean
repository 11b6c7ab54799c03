import Yolov5Rknn.BYTETracker

/-! `ByteTrackerWrapper` (ByteTrackerWrapper.h, ByteTrackerWrapper.cpp) with the
types of postprocess.h it converts from and to. -/

namespace Yolov5Rknn.ByteTrackerWrapper
open BYTETracker Transition

def objNameMaxSize : Nat := 16

def objNumbMaxSize : Nat := 64

def trajectoryPointMaxSize : Nat := 50

structure BoxRect where
  left : Int
  right : Int
  top : Int
  bottom : Int
  deriving DecidableEq

structure TrackPoint where
  x : Int
  y : Int
  deriving DecidableEq

/-- `name` holds the bytes before the terminator, `trajectory` the first
`trajectory_count` points. -/
structure DetectResult (F : Type) where
  name : List UInt8
  classId : Int
  trackId : Int
  trajectory : List TrackPoint
  box : BoxRect
  prop : F

/-- `results` holds the first `count` entries. -/
structure DetectResultGroup (F : Type) where
  id : Int
  results : List (DetectResult F)

structure Wrapper (F : Type) where
  tracker : Tracker F
  frameCount : Int
  frameRate : Int

variable {F : Type} [Arithmetic F] (calls : Calls F)

/-- The constructor. -/
def create (frameRate trackBuffer : Int) (trackThresh highThresh matchThresh : F) : Wrapper F where
  tracker := BYTETracker.create calls (max 1 frameRate) (max 1 trackBuffer) trackThresh highThresh matchThresh
  frameCount := 0
  frameRate := max 1 frameRate

/-- The object of a detection; a box without area has none. -/
def toObject (det : DetectResult F) : Option (Object F) :=
  let x1 : F := (det.box.left : F)
  let y1 : F := (det.box.top : F)
  let x2 : F := (det.box.right : F)
  let y2 : F := (det.box.bottom : F)
  if x2 ≤ x1 ∨ y2 ≤ y1 then none
  else some
    { x := x1
      y := y1
      width := x2 - x1
      height := y2 - y1
      label := det.classId
      prob := det.prop
      name := det.name }

/-- The entry written for a track: its name cut by `snprintf`, the last points of its
trajectory. -/
def out (track : STrack F) : DetectResult F where
  name := track.name.take (objNameMaxSize - 1)
  classId := track.label
  trackId := track.trackId
  trajectory :=
    let keepPoints := min track.trajectory.length trajectoryPointMaxSize
    (track.trajectory.drop (track.trajectory.length - keepPoints)).map fun point =>
      ⟨calls.lround point.1, calls.lround point.2⟩
  box :=
    { left := calls.lround (track.tlbr 0)
      top := calls.lround (track.tlbr 1)
      right := calls.lround (track.tlbr 2)
      bottom := calls.lround (track.tlbr 3) }
  prop := track.score

/-- The loop over the tracks, with its break. -/
def collect : List (STrack F) → List (DetectResult F) → List (DetectResult F)
  | [], results => results
  | track :: rest, results =>
    if results.length ≥ objNumbMaxSize then results else collect rest (results ++ [out calls track])

/-- The call of the tracker in `Update`; `count` is the counter of `next_id`. -/
def tracks (detections : DetectResultGroup F) (count : Int) (wrapper : Wrapper F) : Call F :=
  BYTETracker.update calls (detections.results.filterMap toObject) wrapper.frameRate
    (wrapper.frameCount + 1) count wrapper.tracker

/-- `Update`: the tracked group and the wrapper afterwards. -/
def update (detections : DetectResultGroup F) (count : Int) (wrapper : Wrapper F) :
    DetectResultGroup F × Wrapper F :=
  let call := tracks calls detections count wrapper
  (⟨detections.id, collect calls call.output []⟩,
    { wrapper with
      tracker := call.tracker
      frameCount := wrapper.frameCount + 1 })

def reset (wrapper : Wrapper F) : Wrapper F :=
  { wrapper with
    frameCount := 0
    tracker := BYTETracker.create calls wrapper.frameRate 30 (1 / 2) (3 / 5) (4 / 5) }

/-- A wrapper of the process with the counter of `next_id`. -/
structure Session (F : Type) where
  wrapper : Wrapper F
  count : Int

inductive Event (F : Type) where
  | update (detections : DetectResultGroup F)
  | reset
  | nextId

def step : Step (Event F) (Session F)
  | .update detections, session =>
    some ⟨(update calls detections session.count session.wrapper).2,
      (tracks calls detections session.count session.wrapper).count⟩
  | .reset, session => some { session with wrapper := reset calls session.wrapper }
  | .nextId, session => some { session with count := session.count + 1 }

end Yolov5Rknn.ByteTrackerWrapper
