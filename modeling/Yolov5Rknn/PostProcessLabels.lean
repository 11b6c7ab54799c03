import Yolov5Rknn.PostProcessGroup

/-! The labels of `post_process` (postprocess.cc): the array that the first call fills
from the label file. A file is its bytes, or none where it cannot be opened. -/

namespace Yolov5Rknn.PostProcess
open ByteTrackerWrapper (objNameMaxSize)

/-- The loop of `readLine`: the buffer, whether it ended at a newline and what follows. -/
def readChars : List UInt8 → List UInt8 × Bool × List UInt8
  | [] => ([], false, [])
  | ch :: rest =>
    if ch = 10 then ([], true, rest)
    else
      let (buffer, newline, rest) := readChars rest
      (ch :: buffer, newline, rest)

def readLine (file : List UInt8) : Option (List UInt8 × List UInt8) :=
  let (buffer, newline, rest) := readChars file
  if newline = false ∧ buffer = [] then none else some (buffer, rest)

/-- The loop of `readLines`, which ends when it has read that many lines. -/
def readUpTo : Nat → List UInt8 → List (List UInt8)
  | 0, _ => []
  | more + 1, file =>
    match readLine file with
    | none => []
    | some (line, rest) => line :: readUpTo more rest

/-- What `readLines` returns and the lines it has stored. -/
def readLines (file : Option (List UInt8)) (maxLine : Nat) : Int × List (List UInt8) :=
  match file with
  | none => (-1, [])
  | some content => ((readUpTo maxLine content).length, readUpTo maxLine content)

/-- What `loadLabelName` returns and the array `labels`; an entry that was not set is null. -/
def loadLabelName (file : Option (List UInt8)) : Int × (Fin objClassNum → Option (List UInt8)) :=
  (0, fun id => (readLines file objClassNum).2[id.val]?)

/-- The bytes of a buffer up to the terminator. -/
def cString (buffer : List UInt8) : List UInt8 := buffer.takeWhile (· ≠ 0)

/-- The labels that a call with this file works with: none after an error, and none for a
class whose label is null. -/
def requestLabels (file : Option (List UInt8)) : Option (Fin objClassNum → Option (List UInt8)) :=
  let (ret, labels) := loadLabelName file
  if ret < 0 then none else some fun id => (labels id).map cString

end Yolov5Rknn.PostProcess
