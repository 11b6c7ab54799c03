import Yolov5Rknn.Logic.Transition
import Mathlib.Data.List.Basic

/-! `TransCoder::run` (transcoder.cc), its worker pool (ThreadPool.h) and the
worker objects (RkYolo.cc) as one transition system. The thread of `run`, the
pool workers and the camera driver take their steps in any order. -/

namespace Yolov5Rknn.TransCoder
open Transition

/-- The fields of `Config_t` that size the pipeline. -/
structure Config where
  rknnThread : Int
  dmaBuffers : Int
  deriving DecidableEq

/-- `TransCoder::init`, lines 490 and 494. -/
def Config.init (config : Config) : Config where
  dmaBuffers := if config.dmaBuffers < 2 then 4 else config.dmaBuffers
  rknnThread := if config.rknnThread > 6 then 6 else max 1 config.rknnThread

theorem Config.init_rknnThread (config : Config) :
    1 ≤ config.init.rknnThread ∧ config.init.rknnThread ≤ 6 := by
  simp only [Config.init]
  split <;> omega

/-- What the modelled functions call: the accelerator and the colour converter,
`post_process`, the two trackers, the overlay and the encoder. A negative
`Int` is an error code. -/
structure Calls (Frame Tensor Group Image Byte Deep Enc : Type) where
  /-- `memset(&m_last_detect_result_group, 0, ..)`. -/
  emptyGroup : Group
  /-- RGA conversion into the input memory of the network. -/
  preprocess : Frame → Int × Tensor
  rknnRun : Tensor → Int × Tensor
  /-- RGA conversion of the captured frame into the output DMA buffer. -/
  convert : Frame → Int × Image
  postProcess : Tensor → Int × Group
  byteTrackUpdate : Byte → Group → Byte × Group
  deepSortUpdate : Deep → Frame → Group → Deep × Group
  renderOverlay : Group → Image → Int × Image
  /-- `encode_dmabuf` overwrites `encodeData` and returns the length written. -/
  encodeDmabuf : Enc → Image → List UInt8 → Enc × Int × List UInt8

/-- `tracker_type_` with the tracker it selects. -/
inductive Tracker (Byte Deep : Type) where
  | none
  | bytetrack (byteTracker : Byte)
  | deepsort (deepSortTracker : Deep)
  deriving DecidableEq

/-- A worker object. `inbuf` names the capture buffer and `outbuf` the output
DMA buffer its two pointers point into. -/
structure RkYolo (Tensor Group : Type) where
  inbuf : Option Nat
  outbuf : Option Nat
  outputMems : Tensor
  lastDetectResultGroup : Group
  deriving DecidableEq

/-- `PendingJob`; `yolo` and `future` are positions in `rkyoloList` and `promises`. -/
structure PendingJob where
  slot : Nat
  captureIndex : Nat
  yolo : Nat
  future : Nat
  deriving DecidableEq

/-- A packaged `RkYolo::Inference` call in the pool. -/
structure Task where
  promise : Nat
  yolo : Nat
  deriving DecidableEq

/-- Where the thread of `run` stands. The two waiting positions are the calls of
`future.get()`, after the job has left `pending_jobs_`. -/
inductive Control where
  | head
  | waiting (finished : PendingJob)
  | draining
  | drainWaiting (finished : PendingJob)
  | closed
  | aborted
  deriving DecidableEq

/-- What a processed frame acts on: the tracker, the encoder with its output
buffer, and the payloads handed to the callback so far. -/
structure Sink (Byte Deep Enc : Type) where
  tracker : Tracker Byte Deep
  encoder : Enc
  encodeData : List UInt8
  payloads : List (List UInt8)
  deriving DecidableEq

/-- `buffers` holds a capture buffer's content, or `none` where its `va` is null;
`queued` are the indices the driver owns; `captured` records, for the proofs,
the frames handed to a worker in capture order. -/
structure State (Frame Tensor Group Image Byte Deep Enc : Type) where
  curYolo : Nat
  rkyoloList : List (RkYolo Tensor Group)
  outputDmaBuffers : List Image
  buffers : List (Option Frame)
  queued : List Nat
  pendingJobs : List PendingJob
  promises : List (Option Int)
  tasks : List Task
  running : List Task
  sink : Sink Byte Deep Enc
  control : Control
  captured : List Frame
  deriving DecidableEq

variable {Frame Tensor Group Image Byte Deep Enc : Type}

/-- `VIDIOC_QBUF` succeeds; `v4l2_dmabuf_qbuf` itself rejects an index out of range. -/
def State.qbuf (index : Nat) (state : State Frame Tensor Group Image Byte Deep Enc) :
    State Frame Tensor Group Image Byte Deep Enc :=
  if index < state.buffers.length then { state with queued := state.queued ++ [index] } else state

/-- The wrap of `m_cur_yolo` at the top of the loop. -/
def State.nextSlot (threads : Nat) (state : State Frame Tensor Group Image Byte Deep Enc) : Nat :=
  if threads ≤ state.curYolo then 0 else state.curYolo

def State.wrap (threads : Nat) (state : State Frame Tensor Group Image Byte Deep Enc) :
    State Frame Tensor Group Image Byte Deep Enc :=
  { state with curYolo := state.nextSlot threads }

/-- `SetBuffers` on the worker of `slot`, then `ThreadPool::enqueue` of its
`Inference` and the push onto `pending_jobs_`. -/
def enqueue (slot index : Nat) (yolo : RkYolo Tensor Group) (frame : Frame)
    (state : State Frame Tensor Group Image Byte Deep Enc) :
    State Frame Tensor Group Image Byte Deep Enc :=
  { state with
    rkyoloList := state.rkyoloList.set slot { yolo with inbuf := some index, outbuf := some slot }
    curYolo := slot + 1
    promises := state.promises ++ [none]
    tasks := state.tasks ++ [⟨state.promises.length, slot⟩]
    pendingJobs := state.pendingJobs ++ [⟨slot, index, slot, state.promises.length⟩]
    captured := state.captured ++ [frame] }

/-- Once `rknn_thread` jobs are pending, the oldest is popped and awaited. -/
def popWhenFull (threads : Nat) (state : State Frame Tensor Group Image Byte Deep Enc) :
    State Frame Tensor Group Image Byte Deep Enc :=
  if threads ≤ state.pendingJobs.length then
    match state.pendingJobs with
    | finished :: rest => { state with pendingJobs := rest, control := .waiting finished }
    | [] => state
  else state

/-- The loop body from `v4l2_dmabuf_dqbuf` returning 1 with `index` up to the
first `future.get()`. -/
def capture (threads index : Nat) (state : State Frame Tensor Group Image Byte Deep Enc) :
    State Frame Tensor Group Image Byte Deep Enc :=
  match state.buffers[index]? with
  | none => state
  | some none => state.qbuf index
  | some (some frame) =>
    match state.rkyoloList[state.curYolo]?, state.outputDmaBuffers[state.curYolo]? with
    | some yolo, some _ => popWhenFull threads (enqueue state.curYolo index yolo frame state)
    -- `m_rkyolo_list.at(slot)` throws
    | _, _ => { state with control := .aborted }

variable (calls : Calls Frame Tensor Group Image Byte Deep Enc)

/-- The tracker stage. `buffers.at(finished.capture_index)` is read by DeepSort only. -/
def Tracker.update (tracker : Tracker Byte Deep) (frame : Option Frame) (group : Group) :
    Option (Tracker Byte Deep × Group) :=
  match tracker with
  | .none => some (.none, group)
  | .bytetrack byteTracker =>
    let (byteTracker, group) := calls.byteTrackUpdate byteTracker group
    some (.bytetrack byteTracker, group)
  | .deepsort deepSortTracker =>
    frame.map fun frame =>
      let (deepSortTracker, group) := calls.deepSortUpdate deepSortTracker frame group
      (.deepsort deepSortTracker, group)

/-- `startCode3` picks the length of the start code. -/
def startCode (encodeData : List UInt8) : Nat :=
  if encodeData.take 3 = [0, 0, 1] then 3 else 4

/-- `vector(encodeData + startCode, encodeData + frameSize)`; the constructor
throws when the end lies before the begin. -/
def payload (encodeData : List UInt8) (frameSize : Int) : Option (List UInt8) :=
  if frameSize < startCode encodeData then none
  else some ((encodeData.take frameSize.toNat).drop (startCode encodeData))

/-- Everything after `future.get()` returned `inferRet`. The loop and the drain
loop hold one copy each; they differ in the encoder results they skip (`skip`)
and in where they continue. -/
def finishJob (skip : Int → Bool) (onward : Control) (finished : PendingJob) (inferRet : Int)
    (state : State Frame Tensor Group Image Byte Deep Enc) :
    State Frame Tensor Group Image Byte Deep Enc :=
  if inferRet ≠ 0 then { state.qbuf finished.captureIndex with control := onward }
  else
    match state.rkyoloList[finished.yolo]? with
    | none => { state with control := .aborted }
    | some yolo =>
      match state.sink.tracker.update calls state.buffers[finished.captureIndex]?.join
          yolo.lastDetectResultGroup with
      | none => { state with control := .aborted }
      | some (tracker, overlayGroup) =>
        let state := { state with sink := { state.sink with tracker } }
        match yolo.outbuf, yolo.outbuf.bind (state.outputDmaBuffers[·]?) with
        | some outbuf, some image =>
          let (renderRet, image) := calls.renderOverlay overlayGroup image
          let state := { state.qbuf finished.captureIndex with
            outputDmaBuffers := state.outputDmaBuffers.set outbuf image }
          if renderRet ≠ 0 then { state with control := onward }
          else
            match state.outputDmaBuffers[finished.slot]? with
            | none => { state with control := .aborted }
            | some outDma =>
              let (encoder, frameSize, encodeData) :=
                calls.encodeDmabuf state.sink.encoder outDma state.sink.encodeData
              let state := { state with sink := { state.sink with encoder, encodeData } }
              if skip frameSize then { state with control := onward }
              else
                match payload encodeData frameSize with
                | none => { state with control := .aborted }
                | some bytes => { state with
                    sink := { state.sink with payloads := state.sink.payloads ++ [bytes] }
                    control := onward }
        -- `RenderOverlay` without an output buffer returns -1
        | _, _ => { state.qbuf finished.captureIndex with control := onward }

/-- Lines 661-707: `if (onEncodedDataCallback && frameSize)`. -/
def finishLoop (finished : PendingJob) (inferRet : Int)
    (state : State Frame Tensor Group Image Byte Deep Enc) :
    State Frame Tensor Group Image Byte Deep Enc :=
  finishJob calls (· == 0) .head finished inferRet state

/-- Lines 717-758: `if (frameSize <= 0) continue`. -/
def finishDrain (finished : PendingJob) (inferRet : Int)
    (state : State Frame Tensor Group Image Byte Deep Enc) :
    State Frame Tensor Group Image Byte Deep Enc :=
  finishJob calls (· ≤ 0) .draining finished inferRet state

/-- The future of a job becomes ready. -/
def State.settle (promise : Nat) (ret : Int) (state : State Frame Tensor Group Image Byte Deep Enc) :
    State Frame Tensor Group Image Byte Deep Enc :=
  { state with promises := state.promises.set promise (some ret) }

/-- `RkYolo::Inference` up to `rknn_run`; an unset `m_inbuf` is an error. -/
def inferenceFront (frame : Option Frame) : Except Int Tensor :=
  match frame with
  | none => .error (-1)
  | some frame =>
    let (ret, inputMem) := calls.preprocess frame
    if ret < 0 then .error ret
    else
      let (ret, outputMems) := calls.rknnRun inputMem
      if ret < 0 then .error ret else .ok outputMems

/-- `RkYolo::Inference` of one frame by a worker that nobody disturbs: the value
returned and, where it reaches its end, the detections and the output image. -/
def inference (frame : Frame) : Int × Option (Group × Image) :=
  match inferenceFront calls (some frame) with
  | .error ret => (ret, none)
  | .ok outputMems =>
    let (ret, image) := calls.convert frame
    if ret < 0 then (ret, none)
    else
      let (ret, group) := calls.postProcess outputMems
      if ret < 0 then (ret, none) else (ret, some (group, image))

/-- A worker takes `task` and runs it up to `rknn_run`. -/
def beginTask (task : Task) (state : State Frame Tensor Group Image Byte Deep Enc) :
    State Frame Tensor Group Image Byte Deep Enc :=
  match state.rkyoloList[task.yolo]? with
  | none => state.settle task.promise (-1)
  | some yolo =>
    let yolo := { yolo with lastDetectResultGroup := calls.emptyGroup }
    match inferenceFront calls (yolo.inbuf.bind (state.buffers[·]?)).join with
    | .error ret =>
      State.settle task.promise ret { state with rkyoloList := state.rkyoloList.set task.yolo yolo }
    | .ok outputMems => { state with
        rkyoloList := state.rkyoloList.set task.yolo { yolo with outputMems }
        running := state.running ++ [task] }

/-- The worker of `task` runs `ConvertInputToOutputYuv`, which reads the capture
buffer again, and `post_process`. -/
def finishTask (task : Task) (state : State Frame Tensor Group Image Byte Deep Enc) :
    State Frame Tensor Group Image Byte Deep Enc :=
  match state.rkyoloList[task.yolo]? with
  | none => state.settle task.promise (-1)
  | some yolo =>
    match (yolo.inbuf.bind (state.buffers[·]?)).join, yolo.outbuf with
    | some frame, some outbuf =>
      let (ret, image) := calls.convert frame
      let state := { state with outputDmaBuffers := state.outputDmaBuffers.set outbuf image }
      if ret < 0 then state.settle task.promise ret
      else
        let (ret, group) := calls.postProcess yolo.outputMems
        if ret < 0 then state.settle task.promise ret
        else
          State.settle task.promise ret { state with
            rkyoloList := state.rkyoloList.set task.yolo { yolo with lastDetectResultGroup := group } }
    | _, _ => state.settle task.promise (-1)

/-- One step of the driver (`fill`), of the thread of `run` (`frame`, `timeout`
and `error` are the results 1, 0 and -1 of `v4l2_dmabuf_dqbuf`; `resume` is the
return of `future.get()`) or of a pool worker (`begin`, `finish`). -/
inductive Event (Frame : Type) where
  | fill (index : Nat) (content : Frame)
  | frame (index : Nat)
  | timeout
  | error
  | stop
  | resume
  | drain
  | begin
  | finish (position : Nat)
  deriving DecidableEq

/-- The driver writes and returns only buffers it owns. Workers take tasks in the
order they were enqueued and finish them in any order. -/
def step (threads : Nat) : Step (Event Frame) (State Frame Tensor Group Image Byte Deep Enc)
  | .fill index content, state =>
    if index ∈ state.queued then
      some { state with buffers := state.buffers.modify index (Option.map fun _ => content) }
    else none
  | .frame index, state =>
    match state.control with
    | .head =>
      if index ∈ state.queued then
        some (capture threads index { state.wrap threads with queued := state.queued.erase index })
      else none
    | _ => none
  | .timeout, state | .error, state =>
    match state.control with
    | .head => some (state.wrap threads)
    | _ => none
  | .stop, state =>
    match state.control with
    | .head => some { state with control := .draining }
    | _ => none
  | .resume, state =>
    match state.control with
    | .waiting finished =>
      (state.promises[finished.future]?).join.map fun ret => finishLoop calls finished ret state
    | .drainWaiting finished =>
      (state.promises[finished.future]?).join.map fun ret => finishDrain calls finished ret state
    | _ => none
  | .drain, state =>
    match state.control, state.pendingJobs with
    | .draining, finished :: rest =>
      some { state with pendingJobs := rest, control := .drainWaiting finished }
    -- `v4l2_dmabuf_close`
    | .draining, [] => some { state with buffers := [], queued := [], control := .closed }
    | _, _ => none
  | .begin, state =>
    match state.tasks with
    | task :: rest =>
      if state.running.length < threads then some (beginTask calls task { state with tasks := rest })
      else none
    | [] => none
  | .finish position, state =>
    (state.running[position]?).map fun task =>
      finishTask calls task { state with running := state.running.eraseIdx position }

/-- What `init` leaves for `run`: a worker and an output buffer per slot, and
every capture buffer queued with the driver. -/
structure Starts (threads : Nat) (state : State Frame Tensor Group Image Byte Deep Enc) : Prop where
  curYolo : state.curYolo = 0
  workers : state.rkyoloList.length = threads
  outputs : state.outputDmaBuffers.length = threads
  queued : state.queued = List.range state.buffers.length
  pendingJobs : state.pendingJobs = []
  promises : state.promises = []
  tasks : state.tasks = []
  running : state.running = []
  control : state.control = .head
  captured : state.captured = []

/-- The job popped from `pending_jobs_` that the thread of `run` holds, if any,
before the jobs still pending. -/
def inflight (state : State Frame Tensor Group Image Byte Deep Enc) : List PendingJob :=
  match state.control with
  | .waiting finished | .drainWaiting finished => finished :: state.pendingJobs
  | _ => state.pendingJobs

/-- One frame of the plain loop: infer, track, render, encode, call back. -/
def plainStep (sink : Sink Byte Deep Enc) (frame : Frame) : Sink Byte Deep Enc :=
  match inference calls frame with
  | (0, some (group, image)) =>
    match sink.tracker.update calls (some frame) group with
    | none => sink
    | some (tracker, overlayGroup) =>
      let (renderRet, image) := calls.renderOverlay overlayGroup image
      if renderRet ≠ 0 then { sink with tracker }
      else
        let (encoder, frameSize, encodeData) := calls.encodeDmabuf sink.encoder image sink.encodeData
        { tracker, encoder, encodeData,
          payloads := sink.payloads ++ [(encodeData.take frameSize.toNat).drop (startCode encodeData)] }
  | _ => sink

/-- The plain loop, which processes each frame alone in capture order. -/
def plainLoop (frames : List Frame) (sink : Sink Byte Deep Enc) : Sink Byte Deep Enc :=
  frames.foldl (plainStep calls) sink

end Yolov5Rknn.TransCoder
