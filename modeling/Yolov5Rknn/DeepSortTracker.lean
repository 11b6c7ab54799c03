import Yolov5Rknn.LinearAssignment
import Yolov5Rknn.Logic.Transition

/-! `tracker` (tracker.h, tracker.cpp). -/

namespace Yolov5Rknn.DeepSort
open Program Transition

structure Tracker (F : Type) where
  metric : NearNeighborDisMetric F
  maxIouDistance : F
  maxAge : Int
  nInit : Int
  nextIdx : Int
  tracks : List (Track F)

variable {F : Type} [Arithmetic F] (calls : Calls F)

/-- `tracker::iou` of one candidate. -/
def iou (bbox candidate : Fin 4 → F) : F :=
  let least := fun a b : F => if b < a then b else a
  let greatest := fun a b : F => if a < b then b else a
  let w := least (bbox 0 + bbox 2) (candidate 2 + candidate 0) - greatest (bbox 0) (candidate 0)
  let w := if w < 0 then 0 else w
  let h := least (bbox 1 + bbox 3) (candidate 3 + candidate 1) - greatest (bbox 1) (candidate 1)
  let h := if h < 0 then 0 else h
  w * h / (bbox 2 * bbox 3 + candidate 2 * candidate 3 - w * h)

namespace Tracker

/-- The constructor. -/
def create (maxCosineDistance : F) (nnBudget : Int) (maxIouDistance : F) (maxAge nInit : Int) : Tracker F where
  metric := ⟨maxCosineDistance, nnBudget, fun _ => none⟩
  maxIouDistance
  maxAge
  nInit
  nextIdx := 1
  tracks := []

def predict (tracker : Tracker F) : Tracker F := { tracker with tracks := tracker.tracks.map Track.predict }

variable (detections : List (Detection F)) (tracker : Tracker F)

def gatedMatric : GatedMetricFunc F tracker.tracks.length detections.length :=
  fun trackIndices detectionIndices => do
    let costMatrix ← tracker.metric.distance calls.sqrt
      (fun col => (detections.get (detectionIndices.get col)).row.feature)
      fun row => (tracker.tracks.get (trackIndices.get row)).trackId
    pure (LinearAssignment.gateCostMatrix calls costMatrix
      (fun row => tracker.tracks.get (trackIndices.get row))
      fun col => (detections.get (detectionIndices.get col)).row)

def iouCost : GatedMetricFunc F tracker.tracks.length detections.length :=
  fun trackIndices detectionIndices =>
    pure (.of fun row col =>
      let track := tracker.tracks.get (trackIndices.get row)
      if 1 < track.timeSinceUpdate then inftyCost
      else 1 - iou track.toTlwh (detections.get (detectionIndices.get col)).row.tlwh)

/-- The positions of the confirmed tracks, and of the others. -/
def confirmedTracks : List (Fin tracker.tracks.length) :=
  (List.finRange tracker.tracks.length).filter fun idx => (tracker.tracks.get idx).isConfirmed

def unconfirmedTracks : List (Fin tracker.tracks.length) :=
  (List.finRange tracker.tracks.length).filter fun idx => !(tracker.tracks.get idx).isConfirmed

/-- `_match` for any two cost functions. -/
def matchWith {detections : Nat} (infinite : F → Bool) (tracker : Tracker F)
    (gated iou : GatedMetricFunc F tracker.tracks.length detections) :
    Prog (TracherMatchd tracker.tracks.length detections) := do
  let timeSinceUpdate := fun idx => (tracker.tracks.get idx).timeSinceUpdate
  let matcha ← LinearAssignment.matchingCascade infinite gated tracker.metric.matingThreshold tracker.maxAge
    timeSinceUpdate tracker.confirmedTracks
  let recent := fun idx => decide (timeSinceUpdate idx = 1)
  let iouTrackCandidates := tracker.unconfirmedTracks ++ matcha.unmatchedTracks.filter recent
  let matchb ← LinearAssignment.minCostMatching infinite iou tracker.maxIouDistance iouTrackCandidates
    matcha.unmatchedDetections
  pure
    { matched := matcha.matched ++ matchb.matched
      unmatchedTracks := matcha.unmatchedTracks.filter (!recent ·) ++ matchb.unmatchedTracks
      unmatchedDetections := matchb.unmatchedDetections }

/-- `_match`. -/
def matchTracks : Prog (TracherMatchd tracker.tracks.length detections.length) :=
  matchWith calls.infinite tracker (gatedMatric calls detections tracker) (iouCost detections tracker)

def initiateTrack (tracker : Tracker F) (detection : Detection F) : Tracker F :=
  let (mean, covariance) := ByteKalman.initiate detection.row.toXyah
  { tracker with
    tracks := tracker.tracks ++
      [Track.create mean covariance tracker.nextIdx tracker.nInit tracker.maxAge detection.row.feature
        detection.clsConf]
    nextIdx := tracker.nextIdx + 1 }

/-- The three loops of `update` over the result of `_match`. -/
def apply (res : TracherMatchd tracker.tracks.length detections.length) : Tracker F :=
  let tracks := res.matched.foldl
    (fun tracks data => tracks.modify data.1 fun track => track.update calls (detections.get data.2))
    tracker.tracks
  let tracks := res.unmatchedTracks.foldl (fun tracks idx => tracks.modify idx Track.markMissed) tracks
  res.unmatchedDetections.foldl (fun tracker idx => initiateTrack tracker (detections.get idx))
    { tracker with tracks }

/-- The loop that erases the deleted tracks. -/
def erase (tracker : Tracker F) : Tracker F :=
  { tracker with tracks := tracker.tracks.filter fun track => !track.isDeleted }

/-- What `tid_features` hands to the metric. -/
def tidFeatures (tracker : Tracker F) : List (Int × List (Feature F)) :=
  (tracker.tracks.filter Track.isConfirmed).map fun track => (track.trackId, track.features)

def activeTargets (tracker : Tracker F) : List Int :=
  (tracker.tracks.filter Track.isConfirmed).map Track.trackId

/-- The loop that takes the features of the confirmed tracks. -/
def clearFeatures (tracker : Tracker F) : Tracker F :=
  { tracker with
    tracks := tracker.tracks.map fun track => if track.isConfirmed then { track with features := [] } else track }

/-- `update` of a `DETECTIONSV2`. -/
def update : Prog (Tracker F) := do
  let res ← matchTracks calls detections tracker
  let tracker := erase (apply calls detections tracker res)
  let metric ← tracker.metric.partialFit calls.unwritten tracker.tidFeatures tracker.activeTargets
  pure { tracker.clearFeatures with metric }

/-- The calls a tracker receives; an update is given the rounds its loops may take. -/
inductive Event (F : Type) where
  | predict
  | update (rounds : Nat) (detections : List (Detection F))

def step : Step (Event F) (Tracker F)
  | .predict, tracker => some tracker.predict
  | .update rounds detections, tracker => (update calls detections tracker rounds).toOption

end Tracker
end Yolov5Rknn.DeepSort
