import Yolov5Rknn.Track
import Mathlib.Data.List.Basic

/-! `FeatureTensor` (featuretensor.h, featuretensor.cpp) and the part of
`DeepSort::sort` (deepsort.cpp) that gives the detections their features. -/

namespace Yolov5Rknn.DeepSort

/-- `cv::Rect`. -/
structure Rect where
  x : Int
  y : Int
  width : Int
  height : Int
  deriving DecidableEq

/-- `cv::Mat`; `pixel` takes a row and a column. -/
structure Mat (Pixel : Type) where
  cols : Int
  rows : Int
  pixel : Int → Int → Pixel

variable {Pixel F : Type}

/-- `img(rect).clone()`. -/
def Mat.clone (img : Mat Pixel) (rect : Rect) : Mat Pixel where
  cols := rect.width
  rows := rect.height
  pixel row col := img.pixel (rect.y + row) (rect.x + col)

/-- `size().empty()`. -/
def Mat.empty (mat : Mat Pixel) : Bool := decide (mat.cols ≤ 0 ∨ mat.rows ≤ 0)

/-- The conversions to `int` at the head of the loop. -/
def DetectionRow.rect (toInt : F → Int) (dbox : DetectionRow F) : Rect :=
  ⟨toInt (dbox.tlwh 0), toInt (dbox.tlwh 1), toInt (dbox.tlwh 2), toInt (dbox.tlwh 3)⟩

/-- `rect.x -= (rect.height * 0.5 - rect.width) * 0.5` and
`rect.width = rect.height * 0.5`: doubles that hold quarters exactly, converted
back with their fraction dropped. -/
def Rect.upright (rect : Rect) : Rect :=
  { rect with
    x := (4 * rect.x - (rect.height - 2 * rect.width)).tdiv 4
    width := rect.height.tdiv 2 }

/-- The four clamps to the image. -/
def Rect.clamp (cols rows : Int) (rect : Rect) : Rect :=
  let x := if 0 ≤ rect.x then rect.x else 0
  let y := if 0 ≤ rect.y then rect.y else 0
  { x
    y
    width := if x + rect.width ≤ cols then rect.width else cols - x
    height := if y + rect.height ≤ rows then rect.height else rows - y }

/-- What a detection's own box cuts out of the image. -/
def crop (toInt : F → Int) (img : Mat Pixel) (dbox : DetectionRow F) : Mat Pixel :=
  img.clone ((dbox.rect toInt).upright.clamp img.cols img.rows)

/-- `cv::resize` and the network, with the fields of a `FeatureTensor`. -/
structure FeatureTensor (Pixel F : Type) where
  imgShape : Int × Int
  featureDim : Nat
  toInt : F → Int
  resize : Mat Pixel → Int × Int → Mat Pixel
  inference : Mat Pixel → Feature F

namespace FeatureTensor

variable (tensor : FeatureTensor Pixel F)

/-- One round of the loop over the boxes: both `continue`s leave no image. -/
def image (img : Mat Pixel) (dbox : DetectionRow F) : Option (Mat Pixel) :=
  let tempMat := crop tensor.toInt img dbox
  if tempMat.cols < 0 ∨ tempMat.rows < 0 then none
  else if tempMat.empty then none
  else some (tensor.resize tempMat tensor.imgShape)

/-- The loop over `featureDim` entries of the output. -/
def writeFeature (output feature : Feature F) : Feature F :=
  fun j => if j < tensor.featureDim then output j else feature j

/-- The image at a position sets the feature of the detection there. `feature[j]`
from 512 on is out of bounds. -/
def doInference (imgMats : List (Mat Pixel)) (det : List (DetectionRow F)) : Option (List (DetectionRow F)) :=
  if imgMats = [] ∨ tensor.featureDim ≤ 512 then
    some (imgMats.zipIdx.foldl
      (fun det mat => det.modify mat.2 fun row =>
        { row with feature := tensor.writeFeature (tensor.inference mat.1) row.feature }) det)
  else none

def getRectsFeature (img : Mat Pixel) (det : List (DetectionRow F)) : Option (List (DetectionRow F)) :=
  tensor.doInference (det.filterMap (tensor.image img)) det

end FeatureTensor

/-- `DeepSort::sort` up to the tracker: fewer than two detections by the first
extractor, more by both, each on its own copy of a half. -/
def extractFeatures (featureExtractor1 featureExtractor2 : FeatureTensor Pixel F) (frame : Mat Pixel)
    (detections : List (DetectionRow F)) : Option (List (DetectionRow F)) :=
  if detections.length < 2 then featureExtractor1.getRectsFeature frame detections
  else do
    let border := detections.length / 2
    let detectionsPart1 ← featureExtractor1.getRectsFeature frame (detections.take border)
    let detectionsPart2 ← featureExtractor2.getRectsFeature frame (detections.drop border)
    some (detections.zipIdx.map fun (detection, idx) =>
      let part := if idx < border then detectionsPart1[idx]? else detectionsPart2[idx - border]?
      part.elim detection fun part => { detection with feature := part.feature })

end Yolov5Rknn.DeepSort
