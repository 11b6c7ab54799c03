import Yolov5Rknn.Munkres
import Yolov5Rknn.Track

/-! `linear_assignment` (linear_assignment.h, linear_assignment.cpp). Index vectors hold
positions of `tracks` and of `detections`. -/

namespace Yolov5Rknn.DeepSort
open Program

/-- `TRACHER_MATCHD`. -/
structure TracherMatchd (tracks detections : Nat) where
  matched : List (Fin tracks × Fin detections)
  unmatchedTracks : List (Fin tracks)
  unmatchedDetections : List (Fin detections)

/-- `GATED_METRIC_FUNC`: the costs of some tracks and some detections. -/
abbrev GatedMetricFunc (F : Type) (tracks detections : Nat) : Type :=
  (trackIndices : List (Fin tracks)) → (detectionIndices : List (Fin detections)) →
    Prog (Matrix (Fin trackIndices.length) (Fin detectionIndices.length) F)

variable {F : Type} [Arithmetic F]

def inftyCost : F := 100000

/-- `chi2inv95[4]`. -/
def gatingThreshold : F := 94877 / 10000

namespace LinearAssignment

variable {tracks detections : Nat}

def clip {rows cols : Nat} (maxDistance : F) (costMatrix : Matrix (Fin rows) (Fin cols) F) :
    Matrix (Fin rows) (Fin cols) F :=
  .of fun row col =>
    if maxDistance < costMatrix row col then maxDistance + 1 / 100000 else costMatrix row col

/-- The three loops over `indices`. -/
def collect (maxDistance : F) (trackIndices : List (Fin tracks)) (detectionIndices : List (Fin detections))
    (costMatrix : Matrix (Fin trackIndices.length) (Fin detectionIndices.length) F)
    (indices : List (Fin trackIndices.length × Fin detectionIndices.length)) :
    TracherMatchd tracks detections :=
  let above := fun index : Fin trackIndices.length × Fin detectionIndices.length =>
    decide (maxDistance < costMatrix index.1 index.2)
  let rows := (List.finRange trackIndices.length).filter fun row => decide (row ∉ indices.map Prod.fst)
  let cols := (List.finRange detectionIndices.length).filter fun col => decide (col ∉ indices.map Prod.snd)
  { matched :=
      (indices.filter (!above ·)).map fun index => (trackIndices.get index.1, detectionIndices.get index.2)
    unmatchedTracks :=
      rows.map trackIndices.get ++ (indices.filter above).map fun index => trackIndices.get index.1
    unmatchedDetections :=
      cols.map detectionIndices.get ++ (indices.filter above).map fun index => detectionIndices.get index.2 }

def minCostMatching (infinite : F → Bool) (metric : GatedMetricFunc F tracks detections) (maxDistance : F)
    (trackIndices : List (Fin tracks)) (detectionIndices : List (Fin detections)) :
    Prog (TracherMatchd tracks detections) :=
  if detectionIndices = [] ∨ trackIndices = [] then pure ⟨[], trackIndices, detectionIndices⟩
  else do
    let costMatrix ← metric trackIndices detectionIndices
    let costMatrix := clip maxDistance costMatrix
    let indices ← HungarianOper.solve infinite costMatrix
    pure (collect maxDistance trackIndices detectionIndices costMatrix indices)

/-- One level of `matching_cascade`, on the matches so far and the detections left; the
break leaves the later levels nothing to do. -/
def cascadeLevel (infinite : F → Bool) (metric : GatedMetricFunc F tracks detections) (maxDistance : F)
    (timeSinceUpdate : Fin tracks → Int) (trackIndices : List (Fin tracks))
    (found : List (Fin tracks × Fin detections) × List (Fin detections)) (level : Nat) :
    Prog (List (Fin tracks × Fin detections) × List (Fin detections)) :=
  let trackIndicesL := trackIndices.filter fun k => decide (timeSinceUpdate k = 1 + level)
  if found.2 = [] ∨ trackIndicesL = [] then pure found
  else do
    let tmp ← minCostMatching infinite metric maxDistance trackIndicesL found.2
    pure (found.1 ++ tmp.matched, tmp.unmatchedDetections)

def matchingCascade (infinite : F → Bool) (metric : GatedMetricFunc F tracks detections) (maxDistance : F)
    (cascadeDepth : Int) (timeSinceUpdate : Fin tracks → Int) (trackIndices : List (Fin tracks)) :
    Prog (TracherMatchd tracks detections) := do
  let (matched, unmatchedDetections) ← (List.range cascadeDepth.toNat).foldlM
    (cascadeLevel infinite metric maxDistance timeSinceUpdate trackIndices) ([], List.finRange detections)
  pure ⟨matched, trackIndices.filter fun tid => decide (tid ∉ matched.map Prod.fst), unmatchedDetections⟩

/-- `gate_cost_matrix` with its default arguments. -/
def gateCostMatrix {rows cols : Nat} (calls : Calls F) (costMatrix : Matrix (Fin rows) (Fin cols) F)
    (chosen : Fin rows → Track F) (rowsOf : Fin cols → DetectionRow F) : Matrix (Fin rows) (Fin cols) F :=
  .of fun row col =>
    if gatingThreshold < gatingDistance calls (chosen row).mean (chosen row).covariance (rowsOf col).toXyah
    then inftyCost
    else costMatrix row col

end LinearAssignment
end Yolov5Rknn.DeepSort
