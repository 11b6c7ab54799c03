import Yolov5Rknn.CameraStream
import Yolov5Rknn.PostProcessGroup
import Yolov5Rknn.RkYolo

/-! A camera with `tracker_type` bytetrack: the calls that `TransCoder::run` makes for a frame are
`post_process`, `ByteTrackerWrapper::Update` and `RkYolo::RenderOverlay` as they are modelled. -/

namespace Yolov5Rknn.TrackedCamera
open ByteTrackerWrapper (DetectResultGroup Session)

/-- The wrapper of a camera. `foreign` are the ids that the trackers of other cameras take before
each of its calls; `updates` records, for the proofs, the groups given to `Update` and returned by it. -/
structure Tracking (F : Type) where
  session : Session F
  foreign : Nat → Nat
  updates : List (DetectResultGroup F × DetectResultGroup F)

/-- What the calls take from elsewhere: the accelerator, the colour converter, DeepSort, the
encoder and the libraries that draw. -/
structure Parts (F Frame Tensor Image Deep Enc : Type) where
  preprocess : Frame → Int × Tensor
  rknnRun : Tensor → Int × Tensor
  convert : Frame → Int × Image
  toInt : F → Int
  /-- The arguments of `post_process`. -/
  request : Tensor → PostProcess.Request F
  postProcess : Tensor → Int × DetectResultGroup F
  byteTrack : BYTETracker.Calls F
  deepSortUpdate : Deep → Frame → DetectResultGroup F → Deep × DetectResultGroup F
  overlay : RkYolo.Calls F
  output : Image → RkYolo.Output
  draw : List RkYolo.Draw → Image → Image
  width : Int
  height : Int
  encodeDmabuf : Enc → Image → List UInt8 → Enc × Int × List UInt8

variable {F Frame Tensor Image Deep Enc : Type} [Arithmetic F]

/-- `Update`, after the ids that others took. -/
def Tracking.update (calls : BYTETracker.Calls F) (tracking : Tracking F) (detections : DetectResultGroup F) :
    Tracking F × DetectResultGroup F :=
  let count := tracking.session.count + tracking.foreign tracking.updates.length
  let (tracked, wrapper) := ByteTrackerWrapper.update calls detections count tracking.session.wrapper
  let call := ByteTrackerWrapper.tracks calls detections count tracking.session.wrapper
  ({ tracking with
      session := ⟨wrapper, call.count⟩
      updates := tracking.updates ++ [(detections, tracked)] },
    tracked)

namespace Parts

variable (parts : Parts F Frame Tensor Image Deep Enc)

/-- `RenderOverlay` on the image of an output buffer. -/
def renderOverlay (group : DetectResultGroup F) (image : Image) : Int × Image :=
  let (ret, draws) := RkYolo.renderOverlay parts.overlay (parts.output image) group parts.width parts.height
  (ret, parts.draw draws image)

def calls : TransCoder.Calls Frame Tensor (DetectResultGroup F) Image (Tracking F) Deep Enc where
  emptyGroup := ⟨0, []⟩
  preprocess := parts.preprocess
  rknnRun := parts.rknnRun
  convert := parts.convert
  postProcess := parts.postProcess
  byteTrackUpdate := Tracking.update parts.byteTrack
  deepSortUpdate := parts.deepSortUpdate
  renderOverlay := parts.renderOverlay
  encodeDmabuf := parts.encodeDmabuf

/-- What inference finds in a frame, if it succeeds. -/
def detected (frame : Frame) : Option (DetectResultGroup F) :=
  match TransCoder.inference parts.calls frame with
  | (0, some (group, _)) => some group
  | _ => none

end Parts

end Yolov5Rknn.TrackedCamera
