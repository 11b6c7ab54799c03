import Yolov5Rknn.Logic.Arithmetic
import Yolov5Rknn.Logic.Program
import Mathlib.LinearAlgebra.Matrix.Defs
import Mathlib.Data.List.FinRange

/-! `NearNeighborDisMetric` (nn_matching.h, nn_matching.cpp) with the cosine metric,
the only one a tracker is built with. A `FEATURESS` is the list of its rows. -/

namespace Yolov5Rknn.DeepSort
open Program

abbrev Feature (F : Type) := Fin 512 → F

structure NearNeighborDisMetric (F : Type) where
  matingThreshold : F
  budget : Int
  samples : Int → Option (List (Feature F))

variable {F : Type}

/-- `block(start, 0, count, 512)`, inside the matrix or a failed assertion. -/
def readBlock (rows : List (Feature F)) (start count : Int) : Prog (List (Feature F)) :=
  if 0 ≤ start ∧ 0 ≤ count ∧ start + count ≤ rows.length then
    pure ((rows.drop start.toNat).take count.toNat)
  else outOfRange

/-- Assignment of `block` to a block of as many rows. -/
def writeBlock (rows : List (Feature F)) (start count : Int) (block : List (Feature F)) :
    Prog (List (Feature F)) :=
  if 0 ≤ start ∧ count = block.length ∧ start + count ≤ rows.length then
    pure (rows.take start.toNat ++ block ++ rows.drop (start.toNat + block.length))
  else outOfRange

namespace NearNeighborDisMetric

/-- The gallery `partial_fit` leaves a target that has one; `rows` is what an
allocated row holds before it is written. -/
def slide (budget : Int) (unwritten : Feature F) (sample newFeatOne : List (Feature F)) :
    Prog (List (Feature F)) := do
  let oldSize : Int := sample.length
  let addSize : Int := newFeatOne.length
  let newSize := oldSize + addSize
  if newSize ≤ budget then
    let newSampleFeatures ← writeBlock (List.replicate newSize.toNat unwritten) 0 oldSize sample
    writeBlock newSampleFeatures oldSize addSize newFeatOne
  else if oldSize < budget then
    if budget ≤ addSize then readBlock newFeatOne 0 budget
    else
      let kept ← readBlock sample (addSize - 1) (budget - addSize)
      let newSampleFeatures ← writeBlock (List.replicate budget.toNat unwritten) 0 (budget - addSize) kept
      writeBlock newSampleFeatures (budget - addSize) addSize newFeatOne
  else if budget ≤ addSize then readBlock newFeatOne 0 budget
  else
    let kept ← readBlock sample (addSize - 1) (budget - addSize)
    let sample ← writeBlock sample 0 (budget - addSize) kept
    writeBlock sample (budget - addSize) addSize newFeatOne

/-- One round of the first loop of `partial_fit`. -/
def fitOne (unwritten : Feature F) (metric : NearNeighborDisMetric F) (data : Int × List (Feature F)) :
    Prog (NearNeighborDisMetric F) :=
  match metric.samples data.1 with
  | some sample => do
    let sample ← slide metric.budget unwritten sample data.2
    pure { metric with samples := Function.update metric.samples data.1 (some sample) }
  | none => pure { metric with samples := Function.update metric.samples data.1 (some data.2) }

/-- `partial_fit`: the loop over the new features, then the loop that erases. -/
def partialFit (unwritten : Feature F) (tidFeats : List (Int × List (Feature F))) (activeTargets : List Int)
    (metric : NearNeighborDisMetric F) : Prog (NearNeighborDisMetric F) := do
  let metric ← tidFeats.foldlM (fitOne unwritten) metric
  pure { metric with samples := fun target => if target ∈ activeTargets then metric.samples target else none }

variable [Arithmetic F]

def dot (x y : Feature F) : F := (List.ofFn fun l => x l * y l).sum

def normalize (sqrt : F → F) (x : Feature F) : Feature F := fun l => x l / sqrt (dot x x)

/-- An entry of `_cosine_distance`. -/
def cosineDistance (sqrt : F → F) (x y : Feature F) : F := 1 - dot (normalize sqrt x) (normalize sqrt y)

/-- An entry of `_nncosine_distance`: the least coefficient of a column. -/
def nncosineDistance (sqrt : F → F) (sample : List (Feature F)) (y : Feature F) : F :=
  match sample.map fun x => cosineDistance sqrt x y with
  | [] => 0
  | first :: rest => rest.foldl (fun least value => if value < least then value else least) first

/-- The gallery `samples[target]` reads. -/
def gallery (metric : NearNeighborDisMetric F) (target : Int) : List (Feature F) :=
  (metric.samples target).getD []

/-- `distance`. A target with no samples, for which `operator[]` inserts an empty
gallery, has no least coefficient. -/
def distance {rows cols : Nat} (sqrt : F → F) (features : Fin cols → Feature F) (targets : Fin rows → Int)
    (metric : NearNeighborDisMetric F) : Prog (Matrix (Fin rows) (Fin cols) F) :=
  if (List.finRange rows).any fun row => (metric.gallery (targets row)).isEmpty then outOfRange
  else pure (.of fun row col => nncosineDistance sqrt (metric.gallery (targets row)) (features col))

end NearNeighborDisMetric
end Yolov5Rknn.DeepSort
