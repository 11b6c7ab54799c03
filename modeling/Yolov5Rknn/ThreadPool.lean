import Yolov5Rknn.Logic.Transition

/-! `ThreadPool` (ThreadPool.h). The callers of `enqueue`, the worker threads and the
destructor take their steps in any order. Every critical section of `queue_mutex` is
one step; `notify_one` and `notify_all` are called outside it and are steps of their own. -/

namespace Yolov5Rknn.ThreadPool
open Transition

/-- Where a worker thread stands. `checking` is about to take the mutex and evaluate
the predicate of `condition.wait`; `waiting` sleeps on the condition. -/
inductive Worker (Task : Type) where
  | checking
  | waiting
  | working (task : Task)
  | returned
  deriving DecidableEq

def Worker.isChecking {Task : Type} : Worker Task → Bool
  | .checking => true
  | _ => false

def Worker.isWaiting {Task : Type} : Worker Task → Bool
  | .waiting => true
  | _ => false

def Worker.task? {Task : Type} : Worker Task → Option Task
  | .working task => some task
  | _ => none

/-- Where `~ThreadPool` stands: between `stop = true` and `notify_all`, or with
`joined` of its `join` calls returned. -/
inductive Destructor where
  | unstarted
  | notifying
  | joining (joined : Nat)
  | returned
  deriving DecidableEq

/-- `notifying` counts the callers of `enqueue` between the critical section and
`notify_one`. `enqueued`, `started` and `finished` record, for the proofs, the tasks
that were put into the queue, taken from it and executed. -/
structure State (Task : Type) where
  workers : List (Worker Task)
  tasks : List Task
  stop : Bool
  notifying : Nat
  destructor : Destructor
  enqueued : List Task
  started : List Task
  finished : List Task
  deriving DecidableEq

variable {Task : Type}

/-- The constructor. -/
def init (threads : Nat) : State Task where
  workers := List.replicate threads .checking
  tasks := []
  stop := false
  notifying := 0
  destructor := .unstarted
  enqueued := []
  started := []
  finished := []

def State.place (position : Nat) (worker : Worker Task) (state : State Task) : State Task :=
  { state with workers := state.workers.set position worker }

/-- The critical section of `enqueue`, which throws after `stop`. -/
def enqueue (task : Task) (state : State Task) : State Task :=
  if state.stop then state
  else { state with
    tasks := state.tasks ++ [task]
    notifying := state.notifying + 1
    enqueued := state.enqueued ++ [task] }

/-- The critical section of a worker: the predicate of `wait`, the test for `return`
and the pop. -/
def check (position : Nat) (state : State Task) : State Task :=
  match state.tasks with
  | [] => state.place position (if state.stop then .returned else .waiting)
  | task :: rest => State.place position (.working task) { state with
      tasks := rest
      started := state.started ++ [task] }

/-- `woken` is the sleeper that `notify_one` picks, `none` where nobody sleeps.
`wakeUp` is a spurious wake-up. -/
inductive Event (Task : Type) where
  | enqueue (task : Task)
  | notifyOne (woken : Option Nat)
  | wakeUp (position : Nat)
  | check (position : Nat)
  | finish (position : Nat)
  | stop
  | notifyAll
  | join
  deriving DecidableEq

def step : Step (Event Task) (State Task)
  | .enqueue task, state => some (enqueue task state)
  | .notifyOne (some position), state =>
    match state.notifying, state.workers[position]? with
    | notifying + 1, some .waiting => some (State.place position .checking { state with notifying })
    | _, _ => none
  | .notifyOne none, state =>
    match state.notifying, state.workers.any Worker.isWaiting with
    | notifying + 1, false => some { state with notifying }
    | _, _ => none
  | .wakeUp position, state =>
    match state.workers[position]? with
    | some .waiting => some (state.place position .checking)
    | _ => none
  | .check position, state =>
    match state.workers[position]? with
    | some .checking => some (check position state)
    | _ => none
  | .finish position, state =>
    match state.workers[position]? with
    | some (.working task) =>
      some (State.place position .checking { state with finished := state.finished ++ [task] })
    | _ => none
  | .stop, state =>
    match state.destructor with
    | .unstarted => some { state with stop := true, destructor := .notifying }
    | _ => none
  | .notifyAll, state =>
    match state.destructor with
    | .notifying => some { state with
        workers := state.workers.map fun worker => if worker.isWaiting then .checking else worker
        destructor := .joining 0 }
    | _ => none
  | .join, state =>
    match state.destructor with
    | .joining joined =>
      match state.workers[joined]? with
      | some .returned => some { state with destructor := .joining (joined + 1) }
      -- `join` blocks
      | some _ => none
      | none => some { state with destructor := .returned }
    | _ => none

/-- What the pool does without a caller: everything but `enqueue`, the call of the
destructor and spurious wake-ups. -/
def internal : Event Task → Bool
  | .notifyOne _ | .check _ | .finish _ | .notifyAll | .join => true
  | .enqueue _ | .wakeUp _ | .stop => false

/-- The tasks a schedule puts into the queue: those enqueued before `stop`. -/
def accepted : List (Event Task) → List Task
  | [] => []
  | .stop :: _ => []
  | .enqueue task :: rest => task :: accepted rest
  | _ :: rest => accepted rest

end Yolov5Rknn.ThreadPool
