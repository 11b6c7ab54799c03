import Yolov5Rknn.PostProcess
import Yolov5Rknn.ByteTrackerWrapper

/-! `post_process` (postprocess.cc): the candidates of three heads, and the records
written for those that survive. -/

namespace Yolov5Rknn.PostProcess
open Program
open ByteTrackerWrapper (BoxRect DetectResult DetectResultGroup objNameMaxSize objNumbMaxSize)

/-- The arguments of a call, and the labels that the first call loads. -/
structure Request (F : Type) where
  input : Fin 3 → Nat → Int8
  modelInH : Nat
  modelInW : Nat
  confThreshold : F
  nmsThreshold : F
  pads : BoxRect
  scaleW : F
  scaleH : F
  qntZps : Fin 3 → Int
  qntScales : Fin 3 → F
  labels : Fin objClassNum → List UInt8

/-- `anchor0`, `anchor1` and `anchor2`. -/
def anchors : Fin 3 → List Int :=
  ![[10, 13, 16, 30, 33, 23], [30, 61, 62, 45, 59, 119], [116, 90, 156, 198, 373, 326]]

def strides : Fin 3 → Nat := ![8, 16, 32]

variable {F : Type}

/-- What the call of `process` for one input is given. -/
def Request.head (request : Request F) (k : Fin 3) : Head F where
  input := request.input k
  anchor := anchors k
  gridH := request.modelInH / strides k
  gridW := request.modelInW / strides k
  stride := strides k
  zp := request.qntZps k
  scale := request.qntScales k

variable [Arithmetic F] (toInt : F → Int) (request : Request F)

/-- `filterBoxes`, `objProbs` and `classId` after the three calls. -/
def Request.candidates : List (Candidate F) :=
  (List.finRange 3).flatMap fun k => process toInt request.confThreshold (request.head k)

def clamp (val : F) (min max : Int) : Int :=
  toInt (if (min : F) < val then if val < (max : F) then val else (max : F) else (min : F))

/-- The record written for a candidate. -/
def record (candidate : Candidate F) (label : List UInt8) (objConf : F) : DetectResult F :=
  let x1 := candidate.box.x - (request.pads.left : F)
  let y1 := candidate.box.y - (request.pads.top : F)
  let x2 := x1 + candidate.box.w
  let y2 := y1 + candidate.box.h
  { name := label.take (objNameMaxSize - 1)
    classId := candidate.classId
    trackId := -1
    trajectory := []
    box :=
      { left := toInt ((clamp toInt x1 0 request.modelInW : F) / request.scaleW)
        right := toInt ((clamp toInt x2 0 request.modelInW : F) / request.scaleW)
        top := toInt ((clamp toInt y1 0 request.modelInH : F) / request.scaleH)
        bottom := toInt ((clamp toInt y2 0 request.modelInH : F) / request.scaleH) }
    prop := objConf }

/-- The body of the loop that writes the records. -/
def writeRecord {n : Nat} (candidates : Fin n → Candidate F) (objProbs : Fin n → F) (indexArray : Fin n → Int)
    (results : List (DetectResult F)) (i : Fin n) : Prog (List (DetectResult F)) :=
  if indexArray i = -1 ∨ results.length ≥ objNumbMaxSize then pure results
  else do
    let candidate ← fetch candidates (indexArray i)
    let label ← fetch request.labels candidate.classId
    pure (results ++ [record toInt request candidate label (objProbs i)])

def postProcess : Prog (DetectResultGroup F) :=
  let candidates := request.candidates toInt
  if candidates.length ≤ 0 then pure ⟨0, []⟩
  else do
    let sorted ← sortCandidates candidates.get
    let indexArray ← suppress candidates.get request.nmsThreshold sorted.indices
    let results ← (List.finRange candidates.length).foldlM
      (writeRecord toInt request candidates.get sorted.input indexArray) []
    pure ⟨0, results⟩

end Yolov5Rknn.PostProcess
