import Yolov5Rknn.TransCoder

/-! `MThread` (MThread.cc) around the thread of `TransCoder::run`: the event loop
starts and detaches it in the constructor of `CamFramedSource` and stops it in
the destructor (CamFramedSource.cc). The two threads, the pool workers and the
driver interleave freely. -/

namespace Yolov5Rknn.MThread
open Transition TransCoder

/-- Where the thread of `run` stands. `polling` is the rest of a round that has
found `isStoped` false, up to the return of `v4l2_dmabuf_dqbuf`; every other
place in the two loops is `looping`. -/
inductive RunThread where
  | unstarted
  | entering
  | looping
  | polling
  | returned
  deriving DecidableEq

/-- Where the event loop stands: `binding` to `detaching` are the constructor,
`stopping` to `releasing` the destructor, of which `stopping` to `joining` are
`MThread::stop`. -/
inductive Owner where
  | binding
  | starting
  | detaching
  | serving
  | stopping
  | testing
  | joining
  | releasing
  | destroyed
  deriving DecidableEq

/-- `callback` is whether `onEncodedDataCallback` is set and `joinable` that of
`th`; `ready` stands for the test at the entry of `run`. `calledBack` records,
for the proofs, where the event loop stood at each call of the callback. -/
structure State (Frame Tensor Group Image Byte Deep Enc : Type) where
  owner : Owner
  thread : RunThread
  callback : Bool
  stopState : Bool
  joinable : Bool
  ready : Bool
  pipeline : TransCoder.State Frame Tensor Group Image Byte Deep Enc
  calledBack : List Owner
  deriving DecidableEq

variable {Frame Tensor Group Image Byte Deep Enc : Type}

/-- One statement of the constructor or the destructor. `stop` sets the flag,
asks whether the thread is joinable and joins it only then. -/
def ownerStep (state : State Frame Tensor Group Image Byte Deep Enc) :
    Option (State Frame Tensor Group Image Byte Deep Enc) :=
  match state.owner with
  | .binding => some { state with callback := true, owner := .starting }
  | .starting => some { state with thread := .entering, joinable := true, owner := .detaching }
  | .detaching => some { state with joinable := false, owner := .serving }
  | .serving => some { state with owner := .stopping }
  | .stopping => some { state with stopState := true, owner := .testing }
  | .testing => some { state with owner := if state.joinable then .joining else .releasing }
  | .joining =>
    if state.thread = .returned then some { state with joinable := false, owner := .releasing } else none
  | .releasing => some { state with owner := .destroyed }
  | .destroyed => none

/-- The thread of `run` has moved the pipeline on. The callback is called for
each payload, once it is bound. -/
def State.advance (pipeline : TransCoder.State Frame Tensor Group Image Byte Deep Enc)
    (state : State Frame Tensor Group Image Byte Deep Enc) : State Frame Tensor Group Image Byte Deep Enc :=
  { state with
    thread := if pipeline.control = .closed then .returned else .looping
    calledBack := if state.callback then
        state.calledBack ++
          List.replicate (pipeline.sink.payloads.length - state.pipeline.sink.payloads.length) state.owner
      else state.calledBack
    pipeline }

/-- The event loop moves on (`owner`), `run` begins (`enter`) or tests the flag
(`isStoped`), or the pipeline takes one of its steps. -/
inductive Event (Frame : Type) where
  | owner
  | enter
  | isStoped
  | pipeline (event : TransCoder.Event Frame)
  deriving DecidableEq

variable (calls : Calls Frame Tensor Group Image Byte Deep Enc)

/-- The pipeline's steps, each by the thread that takes it. The loop leaves by
`isStoped` alone. -/
def pipelineStep (threads : Nat) (event : TransCoder.Event Frame)
    (state : State Frame Tensor Group Image Byte Deep Enc) :
    Option (State Frame Tensor Group Image Byte Deep Enc) :=
  match event with
  | .fill .. | .begin | .finish _ =>
    (TransCoder.step calls threads event state.pipeline).map fun pipeline => { state with pipeline }
  | .frame _ | .timeout | .error =>
    if state.thread = .polling then (TransCoder.step calls threads event state.pipeline).map state.advance
    else none
  | .resume | .drain =>
    if state.thread = .looping then (TransCoder.step calls threads event state.pipeline).map state.advance
    else none
  | .stop => none

/-- An exception that leaves `run` terminates the process. -/
def step (threads : Nat) : Step (Event Frame) (State Frame Tensor Group Image Byte Deep Enc) :=
  fun event state =>
    if state.pipeline.control = .aborted then none
    else
      match event with
      | .owner => ownerStep state
      | .enter =>
        if state.thread = .entering then
          some { state with thread := if state.ready then .looping else .returned }
        else none
      | .isStoped =>
        if state.thread = .looping ∧ state.pipeline.control = .head then
          if state.stopState then
            (TransCoder.step calls threads .stop state.pipeline).map fun pipeline => { state with pipeline }
          else some { state with thread := .polling }
        else none
      | .pipeline event => pipelineStep calls threads event state

/-- The transcoder as `init` leaves it, with its thread not yet started, at the
call of the constructor. -/
structure Opens (threads : Nat) (state : State Frame Tensor Group Image Byte Deep Enc) : Prop where
  owner : state.owner = .binding
  thread : state.thread = .unstarted
  stopState : state.stopState = false
  joinable : state.joinable = false
  pipeline : Starts threads state.pipeline
  calledBack : state.calledBack = []

end Yolov5Rknn.MThread
