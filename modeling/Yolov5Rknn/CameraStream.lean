import Yolov5Rknn.CamFramedSource
import Yolov5Rknn.PooledTransCoder

/-! One camera from its driver to the client of its stream: `TransCoder` with its pool
and `CamFramedSource`, whose constructor sets `onEncodedDataCallback`. The thread of
`run` is the encoder thread of the source and goes on when the callback has returned. -/

namespace Yolov5Rknn.CameraStream
open Transition TransCoder

structure State (Frame Tensor Group Image Byte Deep Enc : Type) where
  pooled : PooledTransCoder.State Frame Tensor Group Image Byte Deep Enc
  source : CamFramedSource.State
  deriving DecidableEq

inductive Event (Frame : Type) where
  | transCoder (event : PooledTransCoder.Event Frame)
  | source (event : CamFramedSource.Event)
  deriving DecidableEq

variable {Frame Tensor Group Image Byte Deep Enc : Type}

def init (threads : Nat) (transCoder : TransCoder.State Frame Tensor Group Image Byte Deep Enc) :
    State Frame Tensor Group Image Byte Deep Enc where
  pooled := PooledTransCoder.init threads transCoder
  source := CamFramedSource.createNew

/-- The thread of `run` takes the step. -/
def byRun : PooledTransCoder.Event Frame → Bool
  | .run (.fill _ _) | .pool _ | .delete => false
  | .run _ => true

/-- The payloads of a step are handed to `onEncodedData`. -/
def callBack (before after : List (List UInt8)) (source : CamFramedSource.State) : CamFramedSource.State :=
  (after.drop before.length).foldl (fun source data => CamFramedSource.onEncodedData data source) source

variable (calls : Calls Frame Tensor Group Image Byte Deep Enc)

def step (threads : Nat) : Step (Event Frame) (State Frame Tensor Group Image Byte Deep Enc)
  | .transCoder event, state =>
    if byRun event = true ∧ state.source.encoder ≠ .idle then none
    else (PooledTransCoder.step calls threads event state.pooled).map fun pooled =>
      { pooled
        source := callBack state.pooled.transCoder.sink.payloads pooled.transCoder.sink.payloads state.source }
  | .source (.onEncodedData _), _ => none
  | .source event, state => (CamFramedSource.step event state.source).map fun source => { state with source }

end Yolov5Rknn.CameraStream
