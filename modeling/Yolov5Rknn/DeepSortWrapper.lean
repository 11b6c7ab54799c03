import Yolov5Rknn.ByteTrackerWrapper
import Yolov5Rknn.DeepSortTracker
import Yolov5Rknn.FeatureTensor

/-! `DeepSort` (deepsort.h, deepsort.cpp) with the `DetectBox` of box.h, and
`DeepSortWrapper` (DeepSortWrapper.h, DeepSortWrapper.cpp). -/

namespace Yolov5Rknn.DeepSortWrapper
open Yolov5Rknn.DeepSort Program Transition
open ByteTrackerWrapper (BoxRect DetectResult DetectResultGroup objNameMaxSize objNumbMaxSize trajectoryPointMaxSize)

structure DetectBox (F : Type) where
  x1 : F
  y1 : F
  x2 : F
  y2 : F
  confidence : F
  classID : F
  trackID : F

structure DeepSort (Pixel F : Type) where
  featureExtractor1 : FeatureTensor Pixel F
  featureExtractor2 : FeatureTensor Pixel F
  trackInterval : Int
  objTracker : Tracker F
  result : List (Int × ByteKalman.DetectBox F)
  results : List (ClsConf F × ByteKalman.DetectBox F)

/-- What the wrapper takes from OpenCV and from the C library. -/
structure Conversions (Raw Pixel F : Type) where
  cvtColor : Mat Raw → Mat Pixel
  toInt : F → Int
  lround : F → Int

variable {Raw Pixel F : Type} [Arithmetic F] (calls : Calls F) (convert : Conversions Raw Pixel F)

namespace DeepSort

/-- `init`, with the extractors it makes. -/
def create (featureExtractor1 featureExtractor2 : FeatureTensor Pixel F) : DeepSort Pixel F where
  featureExtractor1
  featureExtractor2
  trackInterval := 1
  objTracker := Tracker.create (1 / 2) 100 (7 / 10) 30 2
  result := []
  results := []

/-- The loop that fills `result` and `results` from the tracks. -/
def expose (recent : Int) (sorter : DeepSort Pixel F) : DeepSort Pixel F :=
  let tracks := sorter.objTracker.tracks.filter fun track =>
    track.isConfirmed && decide (track.timeSinceUpdate ≤ recent)
  { sorter with
    result := tracks.map fun track => (track.trackId, track.toTlwh)
    results := tracks.map fun track => (⟨track.cls, track.conf⟩, track.toTlwh) }

/-- What both functions leave in `dets`. -/
def boxes (sorter : DeepSort Pixel F) : List (DetectBox F) :=
  (sorter.result.zip sorter.results).map fun (r, c) =>
    { x1 := r.2 0
      y1 := r.2 1
      x2 := r.2 2 + r.2 0
      y2 := r.2 3 + r.2 1
      confidence := c.1.conf
      classID := (c.1.cls : F)
      trackID := (r.1 : F) }

/-- The row made of a box; its feature is not written yet. -/
def rowOf (unwritten : Feature F) (i : DetectBox F) : DetectionRow F :=
  ⟨![i.x1, i.y1, i.x2 - i.x1, i.y2 - i.y1], i.confidence, unwritten⟩

/-- The detections with the features the extractors give them. -/
def detectionsv2 (frame : Mat Pixel) (dets : List (DetectBox F)) (sorter : DeepSort Pixel F) :
    Option (List (Detection F)) :=
  (extractFeatures sorter.featureExtractor1 sorter.featureExtractor2 frame
    (dets.map (rowOf calls.unwritten))).map fun detections =>
      List.zipWith Detection.mk (dets.map fun i => ⟨convert.toInt i.classID, i.confidence⟩) detections

/-- The `sort` of boxes with the `sort` of a `DETECTIONSV2` that it calls. -/
def sort (frame : Mat Pixel) (dets : List (DetectBox F)) (sorter : DeepSort Pixel F) :
    Prog (DeepSort Pixel F × List (DetectBox F)) := do
  let sorter := { sorter with result := [], results := [] }
  if dets.isEmpty then pure (sorter, sorter.boxes)
  else do
    let detections ← within (detectionsv2 calls convert frame dets sorter)
    let objTracker ← Tracker.update calls detections sorter.objTracker.predict
    let sorter := { sorter with objTracker }.expose 1
    pure (sorter, sorter.boxes)

def sortInterval (sorter : DeepSort Pixel F) : DeepSort Pixel F × List (DetectBox F) :=
  let sorter := { sorter with objTracker := sorter.objTracker.predict }.expose (sorter.trackInterval + 1)
  (sorter, sorter.boxes)

def getConfirmedTracks (sorter : DeepSort Pixel F) : List (Track F) :=
  sorter.objTracker.tracks.filter Track.isConfirmed

end DeepSort

structure Wrapper (Pixel F : Type) where
  tracker : DeepSort Pixel F
  labels : List (List UInt8)
  reidInterval : Int
  frameCount : Int

/-- `std::getline`: the next line and what follows its newline, or none at the end. -/
def getline (file : List UInt8) : Option (List UInt8 × List UInt8) :=
  if file = [] then none
  else
    let line := file.takeWhile (· ≠ 10)
    some (line, file.drop (line.length + 1))

theorem getline_shorter {file line rest : List UInt8} (read : getline file = some (line, rest)) :
    rest.length < file.length := by
  unfold getline at read
  split at read
  · cases read
  · next some =>
    cases read
    have := List.length_pos_iff.mpr some
    rw [List.length_drop]
    omega

/-- A carriage return at the end of a line is removed. -/
def chomp (line : List UInt8) : List UInt8 := if line.getLast? = some 13 then line.dropLast else line

/-- The loop of `LoadLabels`. -/
def loadLines (file : List UInt8) : List (List UInt8) :=
  match _read : getline file with
  | none => []
  | some (line, rest) => chomp line :: loadLines rest
termination_by file.length
decreasing_by exact getline_shorter _read

/-- `LoadLabels`; there are no lines in a file that is missing. -/
def loadLabels (file : Option (List UInt8)) : List (List UInt8) := loadLines (file.getD [])

/-- The constructor, with the lines `LoadLabels` reads. -/
def create (featureExtractor1 featureExtractor2 : FeatureTensor Pixel F) (reidInterval : Int)
    (labels : List (List UInt8)) : Wrapper Pixel F where
  tracker := DeepSort.create featureExtractor1 featureExtractor2
  labels
  reidInterval := max 1 reidInterval
  frameCount := 0

/-- The box of a detection that has an area. -/
def toBox (det : DetectResult F) : Option (DetectBox F) :=
  if det.box.right ≤ det.box.left ∨ det.box.bottom ≤ det.box.top then none
  else some
    { x1 := (det.box.left : F)
      y1 := (det.box.top : F)
      x2 := (det.box.right : F)
      y2 := (det.box.bottom : F)
      confidence := det.prop
      classID := (det.classId : F)
      trackID := 0 }

/-- `run_reid`. -/
def runReid (detections : DetectResultGroup F) (wrapper : Wrapper Pixel F) : Bool :=
  decide (0 < detections.results.length ∧
    (wrapper.reidInterval ≤ 1 ∨ (wrapper.frameCount - 1).tmod wrapper.reidInterval = 0))

/-- The bytes of `unknown`. -/
def unknown : List UInt8 := [117, 110, 107, 110, 111, 119, 110]

/-- `LookupLabel`, up to the terminator. -/
def lookupLabel (labels : List (List UInt8)) (classId : Int) : List UInt8 :=
  if classId < 0 then unknown
  else (labels[classId.toNat]?.map fun label => label.takeWhile fun byte => byte ≠ 0).getD unknown

/-- The entry written for a track. -/
def out (labels : List (List UInt8)) (track : Track F) : DetectResult F :=
  let tlwh := track.toTlwh
  { name := (lookupLabel labels track.cls).take (objNameMaxSize - 1)
    classId := track.cls
    trackId := track.trackId
    trajectory :=
      let keepPoints := min track.trajectory.length trajectoryPointMaxSize
      (track.trajectory.drop (track.trajectory.length - keepPoints)).map fun point =>
        ⟨convert.lround point.1, convert.lround point.2⟩
    box :=
      { left := convert.lround (tlwh 0)
        top := convert.lround (tlwh 1)
        right := convert.lround (tlwh 0 + tlwh 2)
        bottom := convert.lround (tlwh 1 + tlwh 3) }
    prop := if 0 ≤ track.conf then track.conf else 1 }

/-- The loop over the confirmed tracks, with its break and its continue. -/
def collect (wrapper : Wrapper Pixel F) : List (Track F) → List (DetectResult F) → List (DetectResult F)
  | [], results => results
  | track :: rest, results =>
    if results.length ≥ objNumbMaxSize then results
    else if max 1 wrapper.reidInterval < track.timeSinceUpdate then collect wrapper rest results
    else collect wrapper rest (results ++ [out convert wrapper.labels track])

/-- The frame of a call; from a call without one `Update` returns at once. -/
def frameOf (yuyv : Option (Int → Int → Raw)) (width height : Int) : Option (Mat Raw) :=
  if width ≤ 0 ∨ height ≤ 0 then none else yuyv.map fun pixel => ⟨width, height, pixel⟩

/-- The calls `Update` makes of the tracker; the boxes they return are not read. -/
def track (frame : Mat Raw) (detections : DetectResultGroup F) (wrapper : Wrapper Pixel F) :
    Prog (DeepSort Pixel F) :=
  let dets := if runReid detections wrapper then detections.results.filterMap toBox else []
  if dets.isEmpty then pure wrapper.tracker.sortInterval.1
  else do
    let sorted ← wrapper.tracker.sort calls convert (convert.cvtColor frame) dets
    pure sorted.1

/-- The group written for the confirmed tracks, or the detections where none is shown. -/
def shown (detections : DetectResultGroup F) (wrapper : Wrapper Pixel F) : DetectResultGroup F :=
  let results := collect convert wrapper wrapper.tracker.getConfirmedTracks []
  if results.isEmpty && !detections.results.isEmpty then detections else ⟨detections.id, results⟩

/-- `Update`: the tracked group and the wrapper afterwards. -/
def update (yuyv : Option (Int → Int → Raw)) (width height : Int) (detections : DetectResultGroup F)
    (wrapper : Wrapper Pixel F) : Prog (DetectResultGroup F × Wrapper Pixel F) :=
  match frameOf yuyv width height with
  | none => pure (⟨detections.id, []⟩, wrapper)
  | some frame => do
    let wrapper := { wrapper with frameCount := wrapper.frameCount + 1 }
    let tracker ← track calls convert frame detections wrapper
    let wrapper := { wrapper with tracker }
    pure (shown convert detections wrapper, wrapper)

/-- A call of `Update`, with the rounds its loops may take. -/
structure Event (Raw F : Type) where
  rounds : Nat
  yuyv : Option (Int → Int → Raw)
  width : Int
  height : Int
  detections : DetectResultGroup F

def step : Step (Event Raw F) (Wrapper Pixel F) := fun event wrapper =>
  (update calls convert event.yuyv event.width event.height event.detections wrapper event.rounds).toOption.map
    Prod.snd

end Yolov5Rknn.DeepSortWrapper
