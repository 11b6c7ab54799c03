import Yolov5Rknn.ThreadPool
import Yolov5Rknn.TransCoder

/-! `TransCoder` (transcoder.cc) on the threads of its `ThreadPool` (ThreadPool.h), from
the first frame to the end of a `~TransCoder` that is called after `run` has returned.
Nothing about the order of the tasks is assumed here: a task reaches a worker through the
queue, its condition and its mutex. -/

namespace Yolov5Rknn.PooledTransCoder
open Transition TransCoder

/-- `deleted` is set where `~TransCoder` has freed the output buffers and the worker
objects and has the pool still to destroy. -/
structure State (Frame Tensor Group Image Byte Deep Enc : Type) where
  transCoder : TransCoder.State Frame Tensor Group Image Byte Deep Enc
  pool : ThreadPool.State Task
  deleted : Bool
  deriving DecidableEq

/-- `run` is a step of the driver or of the thread of `run`, `delete` the part of
`~TransCoder` before `delete m_pool`, where its caller has waited for `run` to return. -/
inductive Event (Frame : Type) where
  | run (event : TransCoder.Event Frame)
  | pool (event : ThreadPool.Event Task)
  | delete
  deriving DecidableEq

variable {Frame Tensor Group Image Byte Deep Enc : Type}

def init (threads : Nat) (transCoder : TransCoder.State Frame Tensor Group Image Byte Deep Enc) :
    State Frame Tensor Group Image Byte Deep Enc where
  transCoder := transCoder
  pool := ThreadPool.init threads
  deleted := false

variable (calls : Calls Frame Tensor Group Image Byte Deep Enc)

/-- What the step handed over is put into the queue of the pool. -/
def runStep (threads : Nat) (event : TransCoder.Event Frame) (state : State Frame Tensor Group Image Byte Deep Enc) :
    Option (State Frame Tensor Group Image Byte Deep Enc) :=
  (TransCoder.step calls threads event state.transCoder).map fun transCoder =>
    { state with
      transCoder
      pool := (transCoder.tasks.drop state.transCoder.tasks.length).foldl
        (fun pool task => ThreadPool.enqueue task pool) state.pool }

/-- The task of the worker at `position`. -/
def workerTask (position : Nat) (pool : ThreadPool.State Task) : Option Task :=
  pool.workers[position]?.bind ThreadPool.Worker.task?

/-- A worker that took a task runs it up to `rknn_run`. -/
def checked (position : Nat) (pool : ThreadPool.State Task)
    (transCoder : TransCoder.State Frame Tensor Group Image Byte Deep Enc) :
    TransCoder.State Frame Tensor Group Image Byte Deep Enc :=
  match workerTask position pool with
  | some task => beginTask calls task { transCoder with tasks := pool.tasks }
  | none => transCoder

/-- A worker runs the rest of its task, unless `Inference` had returned before. -/
def finished (task : Task) (transCoder : TransCoder.State Frame Tensor Group Image Byte Deep Enc) :
    TransCoder.State Frame Tensor Group Image Byte Deep Enc :=
  if task ∈ transCoder.running then
    finishTask calls task { transCoder with running := transCoder.running.erase task }
  else transCoder

/-- What `~TransCoder` does before `delete m_pool`; it does not ask where `run` stands. -/
def destroy (state : State Frame Tensor Group Image Byte Deep Enc) : State Frame Tensor Group Image Byte Deep Enc :=
  { state with
    transCoder := { state.transCoder with rkyoloList := [], outputDmaBuffers := [] }
    deleted := true }

def step (threads : Nat) : Step (Event Frame) (State Frame Tensor Group Image Byte Deep Enc)
  | .run (.fill index content), state => runStep calls threads (.fill index content) state
  | .run .begin, _ | .run (.finish _), _ => none
  | .run event, state =>
    -- the thread of `run` is not inside `enqueue`
    if state.pool.notifying = 0 then runStep calls threads event state else none
  | .pool (.enqueue _), _ => none
  | .pool .stop, state =>
    if state.deleted then (ThreadPool.step .stop state.pool).map fun pool => { state with pool } else none
  | .pool (.check position), state =>
    (ThreadPool.step (.check position) state.pool).map fun pool =>
      { state with pool, transCoder := checked calls position pool state.transCoder }
  | .pool (.finish position), state =>
    (workerTask position state.pool).bind fun task =>
      (ThreadPool.step (.finish position) state.pool).map fun pool =>
        { state with pool, transCoder := finished calls task state.transCoder }
  | .pool event, state => (ThreadPool.step event state.pool).map fun pool => { state with pool }
  | .delete, state =>
    -- the caller of `~TransCoder` waits for `run`, the source does not
    match state.transCoder.control, state.deleted with
    | .closed, false => some (destroy state)
    | _, _ => none

/-- The steps nobody outside has to cause: those of the pool, the return of
`future.get()`, the drain loop and the rest of `~TransCoder`. -/
def internal : Event Frame → Bool
  | .run .resume | .run .drain | .pool .stop => true
  | .run _ | .delete => false
  | .pool event => ThreadPool.internal event

end Yolov5Rknn.PooledTransCoder
