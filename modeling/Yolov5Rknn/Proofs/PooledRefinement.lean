import Yolov5Rknn.Logic.Simulation
import Yolov5Rknn.PooledTransCoder
import Yolov5Rknn.Proofs.LoopRefinement
import Yolov5Rknn.Proofs.PipelineSettlement
import Yolov5Rknn.Proofs.PoolOrder

/-! The transcoder on its thread pool refines the transcoder whose tasks are begun in
the order of the queue and finished in any order: the pool adds no other behaviour. -/

namespace Yolov5Rknn.PooledTransCoder
open Transition TransCoder Simulation

variable {Frame Tensor Group Image Byte Deep Enc : Type}
  {calls : Calls Frame Tensor Group Image Byte Deep Enc} {threads : Nat}
  {state next : State Frame Tensor Group Image Byte Deep Enc}
  {spec : TransCoder.State Frame Tensor Group Image Byte Deep Enc}

/-- `spec` is the transcoder without its pool. A task that `spec` is running is in the
hands of a worker; a worker may also hold one whose `Inference` failed early. -/
structure Backed (threads : Nat) (state : State Frame Tensor Group Image Byte Deep Enc)
    (spec : TransCoder.State Frame Tensor Group Image Byte Deep Enc) : Prop where
  owned : Owned threads spec
  served : Served spec
  valid : ThreadPool.Valid threads state.pool
  queue : state.pool.tasks = spec.tasks
  busy : spec.running.Subperm (ThreadPool.busy state.pool.workers)
  view : state.transCoder =
    if state.deleted then { spec with rkyoloList := [], outputDmaBuffers := [] } else spec
  closed : state.deleted = true → spec.control = .closed
  stopped : state.pool.stop = true → state.deleted = true

theorem Starts.backed {start : TransCoder.State Frame Tensor Group Image Byte Deep Enc} (positive : 1 ≤ threads)
    (starts : Starts threads start) : Backed threads (init threads start) start where
  owned := starts.owned positive
  served := starts.served
  valid := ThreadPool.init_valid threads
  queue := starts.tasks.symm
  busy := by rw [starts.running]; exact List.nil_subperm
  view := rfl
  closed := fun deleted => by cases deleted
  stopped := fun stopped => by cases stopped

/-- Once `run` has returned nobody has a task. -/
theorem rests_closed (owned : Owned threads spec) (served : Served spec) (closed : spec.control = .closed) :
    spec.tasks = [] ∧ spec.running = [] := by
  have nothing : spec.tasks ++ spec.running = [] := by
    apply List.eq_nil_iff_forall_not_mem.mpr
    intro task member
    obtain ⟨_, job, flying, _⟩ := owned.owned task member
    simp only [inflight, closed, (served.closed closed).1] at flying
    cases flying
  exact List.append_eq_nil_iff.mp nothing

theorem Backed.undeleted (backed : Backed threads state spec) (active : spec.tasks ≠ [] ∨ spec.running ≠ []) :
    state.deleted = false := by
  cases deleted : state.deleted with
  | false => rfl
  | true =>
    obtain ⟨tasks, running⟩ := rests_closed backed.owned backed.served (backed.closed deleted)
    cases active with
    | inl some => exact absurd tasks some
    | inr some => exact absurd running some

theorem Backed.same (backed : Backed threads state spec) (undeleted : state.deleted = false) :
    state.transCoder = spec := by
  rw [backed.view, undeleted]
  rfl

theorem Backed.control (backed : Backed threads state spec) : state.transCoder.control = spec.control := by
  rw [backed.view]
  split <;> rfl

theorem Backed.running (backed : Backed threads state spec) : state.transCoder.running = spec.running := by
  rw [backed.view]
  split <;> rfl

theorem Backed.sink (backed : Backed threads state spec) : state.transCoder.sink = spec.sink := by
  rw [backed.view]
  split <;> rfl

/-! ### The driver and the thread of `run` -/

theorem closed_stuck {event : TransCoder.Event Frame}
    {transCoder after : TransCoder.State Frame Tensor Group Image Byte Deep Enc}
    (closed : transCoder.control = .closed) (queued : transCoder.queued = []) (tasks : transCoder.tasks = [])
    (running : transCoder.running = []) : TransCoder.step calls threads event transCoder ≠ some after := by
  intro taken
  cases step_stepped taken with
  | fill queue => rw [queued] at queue; cases queue
  | frame head | timeout head | error head | stop head => rw [closed] at head; cases head
  | resume waiting | resumeDrain waiting => rw [closed] at waiting; cases waiting
  | drain draining | close draining => rw [closed] at draining; cases draining
  | begin waiting => rw [tasks] at waiting; cases waiting
  | finish working => rw [running] at working; cases working

/-- Outside the pool's own steps tasks are only added, at the end of the queue. -/
theorem handed {event : TransCoder.Event Frame} {after : TransCoder.State Frame Tensor Group Image Byte Deep Enc}
    (owned : Owned threads spec) (taken : TransCoder.step calls threads event spec = some after)
    (outside : event ≠ .begin ∧ ∀ position, event ≠ .finish position) :
    (∃ fresh, after.tasks = spec.tasks ++ fresh) ∧ after.running = spec.running := by
  have finished (job : PendingJob) (onward : Control) (skip : Int → Bool) (ret : Int) (flying : job ∈ inflight spec) :
      (∃ fresh, (finishJob calls skip onward job ret spec).tasks = spec.tasks ++ fresh) ∧
        (finishJob calls skip onward job ret spec).running = spec.running := by
    obtain ⟨⟨frame, mapped⟩, ⟨yolo, worker⟩, _⟩ := owned.flies flying
    have effect := finishJob_finished calls skip onward ret mapped worker
    exact ⟨⟨[], by rw [effect.tasks, List.append_nil]⟩, effect.running⟩
  cases step_stepped taken with
  | fill | timeout | error | stop | drain | close => exact ⟨⟨[], (List.append_nil _).symm⟩, rfl⟩
  | frame head queued =>
    rcases owned.dequeue head queued with same | ⟨frame, content, captured⟩
    · rw [same]
      exact ⟨⟨[], (List.append_nil _).symm⟩, rfl⟩
    · exact ⟨⟨_, captured.tasks⟩, captured.running⟩
  | resume waiting => exact finished _ _ _ _ (by simp only [inflight, waiting, List.mem_cons, true_or])
  | resumeDrain waiting => exact finished _ _ _ _ (by simp only [inflight, waiting, List.mem_cons, true_or])
  | begin => exact absurd rfl outside.1
  | @finish position => exact absurd rfl (outside.2 position)

theorem enqueue_all {pool : ThreadPool.State Task} (fresh : List Task) (valid : ThreadPool.Valid threads pool)
    (open' : pool.stop = false) :
    let after := fresh.foldl (fun pool task => ThreadPool.enqueue task pool) pool
    ThreadPool.Valid threads after ∧ after.tasks = pool.tasks ++ fresh ∧ after.workers = pool.workers ∧
      after.stop = false := by
  induction fresh generalizing pool with
  | nil => exact ⟨valid, (List.append_nil _).symm, rfl, open'⟩
  | cons task rest ih =>
    have enqueued : ThreadPool.step (.enqueue task) pool = some (ThreadPool.enqueue task pool) := rfl
    have accepted : ThreadPool.enqueue task pool = { pool with
        tasks := pool.tasks ++ [task], notifying := pool.notifying + 1, enqueued := pool.enqueued ++ [task] } := by
      simp only [ThreadPool.enqueue, open', Bool.false_eq_true, ↓reduceIte]
    obtain ⟨valid, tasks, workers, stop⟩ :=
      ih (ThreadPool.step_valid valid enqueued) (by rw [accepted]; exact open')
    refine ⟨valid, ?_, ?_, stop⟩
    · rw [List.foldl_cons, tasks, accepted, List.append_assoc, List.singleton_append]
    · rw [List.foldl_cons, workers, accepted]

theorem runStep_backed {event : TransCoder.Event Frame} (backed : Backed threads state spec)
    (outside : event ≠ .begin ∧ ∀ position, event ≠ .finish position)
    (taken : runStep calls threads event state = some next) :
    ∃ after fresh, TransCoder.step calls threads event spec = some after ∧ after.tasks = spec.tasks ++ fresh ∧
      next.pool = fresh.foldl (fun pool task => ThreadPool.enqueue task pool) state.pool ∧
      Backed threads next after := by
  obtain ⟨after, moved, rfl⟩ := Option.map_eq_some_iff.mp taken
  cases deleted : state.deleted with
  | true =>
    have closed := backed.closed deleted
    obtain ⟨tasks, running⟩ := rests_closed backed.owned backed.served closed
    have stuck : TransCoder.step calls threads event state.transCoder ≠ some after := by
      rw [backed.view, deleted]
      exact closed_stuck closed (backed.served.closed closed).2 tasks running
    exact absurd moved stuck
  | false =>
    rw [backed.same deleted] at moved ⊢
    obtain ⟨⟨fresh, tasks⟩, running⟩ := handed backed.owned moved outside
    have open' : state.pool.stop = false := by
      cases stopped : state.pool.stop with
      | false => rfl
      | true => rw [backed.stopped stopped] at deleted; cases deleted
    have put : after.tasks.drop spec.tasks.length = fresh := by rw [tasks, List.drop_left]
    obtain ⟨valid, queue, workers, stop⟩ := enqueue_all fresh backed.valid open'
    refine ⟨after, fresh, moved, tasks, by rw [put], ?_⟩
    rw [put]
    constructor
    case owned => exact step_owned event backed.owned moved
    case served => exact step_served event backed.owned backed.served moved
    case valid => exact valid
    case queue => rw [queue, backed.queue, tasks]
    case busy => rw [workers, running]; exact backed.busy
    case view => rfl
    case closed => exact fun gone => by cases gone
    case stopped => exact fun gone => by rw [stop] at gone; cases gone

/-! ### The pool -/

/-- What a worker never touches. -/
structure Unmoved (before after : TransCoder.State Frame Tensor Group Image Byte Deep Enc) : Prop where
  pendingJobs : after.pendingJobs = before.pendingJobs
  control : after.control = before.control
  sink : after.sink = before.sink

theorem checked_unmoved (position : Nat) (pool : ThreadPool.State Task) :
    Unmoved spec (checked calls position pool spec) := by
  unfold checked beginTask
  split
  · split
    · exact ⟨rfl, rfl, rfl⟩
    · dsimp only
      split <;> exact ⟨rfl, rfl, rfl⟩
  · exact ⟨rfl, rfl, rfl⟩

theorem finished_unmoved (task : Task) : Unmoved spec (finished calls task spec) := by
  unfold finished finishTask
  split
  · split
    · exact ⟨rfl, rfl, rfl⟩
    · dsimp only
      split
      · split
        · exact ⟨rfl, rfl, rfl⟩
        · split <;> exact ⟨rfl, rfl, rfl⟩
      · exact ⟨rfl, rfl, rfl⟩
  · exact ⟨rfl, rfl, rfl⟩

theorem workerTask_set {pool : ThreadPool.State Task} {position : Nat} {old : ThreadPool.Worker Task}
    (there : pool.workers[position]? = some old) (new : ThreadPool.Worker Task) :
    workerTask position (pool.place position new) = new.task? := by
  have inside := (List.getElem?_eq_some_iff.mp there).1
  simp only [workerTask, ThreadPool.State.place, List.getElem?_set_self inside, Option.bind_some]

/-- A pool step without a task moves no task. -/
theorem Backed.idle {pool : ThreadPool.State Task} {event : ThreadPool.Event Task} (backed : Backed threads state spec)
    (taken : ThreadPool.step event state.pool = some pool) (tasks : pool.tasks = state.pool.tasks)
    (busy : (ThreadPool.busy pool.workers).Perm (ThreadPool.busy state.pool.workers))
    (stop : pool.stop = true → state.pool.stop = true ∨ state.deleted = true) :
    Backed threads { state with pool } spec where
  owned := backed.owned
  served := backed.served
  valid := ThreadPool.step_valid backed.valid taken
  queue := tasks.trans backed.queue
  busy := backed.busy.trans busy.symm.subperm
  view := backed.view
  closed := backed.closed
  stopped := fun stopped => (stop stopped).elim backed.stopped id

theorem Backed.take {position : Nat} {task : Task} {rest : List Task} (backed : Backed threads state spec)
    (turn : state.pool.workers[position]? = some .checking) (queue : state.pool.tasks = task :: rest)
    {pool : ThreadPool.State Task} (taken : ThreadPool.step (.check position) state.pool = some pool)
    (same : pool = ThreadPool.State.place position (.working task)
      { state.pool with tasks := rest, started := state.pool.started ++ [task] }) :
    ∃ after, TransCoder.step calls threads .begin spec = some after ∧
      Backed threads { state with pool, transCoder := checked calls position pool state.transCoder } after := by
  have waiting : spec.tasks = task :: rest := backed.queue.symm.trans queue
  have undeleted := backed.undeleted (.inl (by rw [waiting]; exact List.cons_ne_nil _ _))
  have holds : workerTask position pool = some task := by
    rw [same]
    exact workerTask_set turn (.working task)
  have moved := ThreadPool.busy_set turn (.working task)
  have busy : (ThreadPool.busy pool.workers).Perm (task :: ThreadPool.busy state.pool.workers) := by
    rw [same]
    exact moved
  -- the worker that takes the task is not among the busy ones
  have room : spec.running.length < threads := by
    have fewer : (ThreadPool.busy pool.workers).length ≤ pool.workers.length := List.length_filterMap_le _ _
    have staff := (ThreadPool.step_valid backed.valid taken).staff
    have grown := busy.length_eq
    have below := backed.busy.length_le
    simp only [List.length_cons] at grown
    omega
  have begun : TransCoder.step calls threads .begin spec = some (beginTask calls task { spec with tasks := rest }) := by
    simp only [TransCoder.step, waiting, if_pos room]
  have effect := beginTask_pool calls task { spec with tasks := rest }
  refine ⟨_, begun, ?_⟩
  have view : checked calls position pool state.transCoder = beginTask calls task { spec with tasks := rest } := by
    simp only [checked, holds, backed.same undeleted]
    rw [same]
    rfl
  constructor
  case owned => exact step_owned .begin backed.owned begun
  case served => exact step_served .begin backed.owned backed.served begun
  case valid => exact ThreadPool.step_valid backed.valid taken
  case queue => rw [effect.1, same]; rfl
  case busy =>
    refine List.Subperm.trans ?_ busy.symm.subperm
    cases effect.2 with
    | inl unchanged =>
      rw [unchanged]
      exact backed.busy.trans (List.sublist_cons_self _ _).subperm
    | inr extended =>
      rw [extended]
      exact (List.perm_append_singleton _ _).subperm.trans (List.subperm_cons _ |>.mpr backed.busy)
  case view => simp only [undeleted, Bool.false_eq_true, ↓reduceIte, view]
  case closed => exact fun gone => by rw [undeleted] at gone; cases gone
  case stopped =>
    intro stopped
    rw [same] at stopped
    exact backed.stopped stopped

theorem Backed.finish {position : Nat} {task : Task} (backed : Backed threads state spec)
    (works : state.pool.workers[position]? = some (.working task))
    {pool : ThreadPool.State Task} (taken : ThreadPool.step (.finish position) state.pool = some pool)
    (same : pool = ThreadPool.State.place position .checking
      { state.pool with finished := state.pool.finished ++ [task] }) :
    ∃ answer after, run (TransCoder.step calls threads) answer spec = some after ∧
      Backed threads { state with pool, transCoder := finished calls task state.transCoder } after := by
  have moved := ThreadPool.busy_set works .checking
  have busy : (task :: ThreadPool.busy pool.workers).Perm (ThreadPool.busy state.pool.workers) := by
    rw [same]
    exact moved
  have left : (spec.running.erase task).Subperm (ThreadPool.busy pool.workers) := by
    have erased := (backed.busy.trans busy.symm.subperm).erase task
    rwa [List.erase_cons_head] at erased
  have valid := ThreadPool.step_valid backed.valid taken
  have queue : pool.tasks = spec.tasks := by rw [same]; exact backed.queue
  have stopped : pool.stop = true → state.deleted = true := by rw [same]; exact backed.stopped
  by_cases running : task ∈ spec.running
  · have undeleted := backed.undeleted (.inr (List.ne_nil_of_mem running))
    have index := List.idxOf_lt_length_of_mem running
    have there : spec.running[spec.running.idxOf task]? = some task := by
      rw [List.getElem?_eq_getElem index, List.getElem_idxOf index]
    have completed : TransCoder.step calls threads (.finish (spec.running.idxOf task)) spec =
        some (finishTask calls task { spec with running := spec.running.erase task }) := by
      simp only [TransCoder.step, there, Option.map_some, ← List.erase_eq_eraseIdx_of_idxOf rfl]
    have effect := finishTask_pool calls task { spec with running := spec.running.erase task }
    have view : finished calls task state.transCoder =
        finishTask calls task { spec with running := spec.running.erase task } := by
      simp only [finished, backed.same undeleted, running, ↓reduceIte]
    refine ⟨[.finish (spec.running.idxOf task)], _, by rw [run_cons, completed]; rfl, ?_⟩
    constructor
    case owned => exact step_owned _ backed.owned completed
    case served => exact step_served _ backed.owned backed.served completed
    case valid => exact valid
    case queue => rw [effect.1]; exact queue
    case busy => rw [effect.2]; exact left
    case view => simp only [undeleted, Bool.false_eq_true, ↓reduceIte, view]
    case closed => exact fun gone => by rw [undeleted] at gone; cases gone
    case stopped => exact stopped
  · have view : finished calls task state.transCoder = state.transCoder := by
      simp only [finished, backed.running, running, ↓reduceIte]
    refine ⟨[], spec, rfl, ?_⟩
    rw [view]
    exact {
      owned := backed.owned, served := backed.served, valid, queue, view := backed.view, closed := backed.closed
      stopped, busy := by rwa [List.erase_of_not_mem running] at left }

theorem pool_backed {event : ThreadPool.Event Task} (backed : Backed threads state spec)
    (taken : step calls threads (.pool event) state = some next) :
    ∃ answer after, run (TransCoder.step calls threads) answer spec = some after ∧ Backed threads next after := by
  have placed {position : Nat} {old new : ThreadPool.Worker Task} (there : state.pool.workers[position]? = some old)
      (before : old.task? = none) (after : new.task? = none) :
      (ThreadPool.busy (state.pool.workers.set position new)).Perm (ThreadPool.busy state.pool.workers) := by
    simpa only [before, after, Option.toList_none, List.nil_append] using ThreadPool.busy_set there new
  cases event with
  | enqueue task => cases taken
  | check position =>
    obtain ⟨pool, moved, rfl⟩ := Option.map_eq_some_iff.mp taken
    have still {new : ThreadPool.Worker Task} (turn : state.pool.workers[position]? = some .checking)
        (after : new.task? = none) (same : pool = state.pool.place position new) :
        ∃ answer after, run (TransCoder.step calls threads) answer spec = some after ∧
          Backed threads { state with pool, transCoder := checked calls position pool state.transCoder } after := by
      have nothing : workerTask position pool = none := by rw [same, workerTask_set turn, after]
      refine ⟨[], spec, rfl, ?_⟩
      simp only [checked, nothing]
      apply backed.idle moved
      · rw [same]; rfl
      · rw [same]; exact placed turn rfl after
      · rw [same]; exact .inl
    cases same : ThreadPool.step_stepped moved with
    | sleep turn empty running => exact still turn rfl rfl
    | leave turn empty stopped => exact still turn rfl rfl
    | take turn queue =>
      obtain ⟨after, begun, kept⟩ : ∃ after, TransCoder.step calls threads .begin spec = some after ∧ _ :=
        backed.take turn queue moved rfl
      exact ⟨[.begin], after, by rw [run_cons, begun]; rfl, kept⟩
  | finish position =>
    obtain ⟨task, works, rest⟩ := Option.bind_eq_some_iff.mp taken
    obtain ⟨pool, moved, rfl⟩ := Option.map_eq_some_iff.mp rest
    cases ThreadPool.step_stepped moved with
    | @finish _ other there =>
      have same : other = task := by
        simpa only [workerTask, there, Option.bind_some, ThreadPool.Worker.task?, Option.some.injEq] using works
      subst same
      exact backed.finish there moved rfl
  | notifyOne woken =>
    obtain ⟨pool, moved, rfl⟩ := Option.map_eq_some_iff.mp taken
    refine ⟨[], spec, rfl, ?_⟩
    cases ThreadPool.step_stepped moved with
    | notifyOne owed sleeps => exact backed.idle moved rfl (placed sleeps rfl rfl) .inl
    | nobody owed awake => exact backed.idle moved rfl .rfl .inl
  | wakeUp position =>
    obtain ⟨pool, moved, rfl⟩ := Option.map_eq_some_iff.mp taken
    refine ⟨[], spec, rfl, ?_⟩
    cases ThreadPool.step_stepped moved with
    | wakeUp sleeps => exact backed.idle moved rfl (placed sleeps rfl rfl) .inl
  | stop =>
    simp only [step] at taken
    split at taken
    next deleted =>
      obtain ⟨pool, moved, rfl⟩ := Option.map_eq_some_iff.mp taken
      refine ⟨[], spec, rfl, ?_⟩
      cases ThreadPool.step_stepped moved with
      | stop unstarted => exact backed.idle moved rfl .rfl fun _ => .inr deleted
    next => cases taken
  | notifyAll =>
    obtain ⟨pool, moved, rfl⟩ := Option.map_eq_some_iff.mp taken
    refine ⟨[], spec, rfl, ?_⟩
    cases ThreadPool.step_stepped moved with
    | notifyAll stopped => exact backed.idle moved rfl (.of_eq (ThreadPool.busy_roused _)) .inl
  | join =>
    obtain ⟨pool, moved, rfl⟩ := Option.map_eq_some_iff.mp taken
    refine ⟨[], spec, rfl, ?_⟩
    cases ThreadPool.step_stepped moved with
    | join | destroyed => exact backed.idle moved rfl .rfl .inl

/-- A step is one of the transcoder alone, or moves nothing of the thread of `run`. -/
theorem step_split {event : Event Frame} (backed : Backed threads state spec)
    (taken : step calls threads event state = some next) :
    (∃ own after, event = .run own ∧ TransCoder.step calls threads own spec = some after ∧
      Backed threads next after) ∨
    (∀ own, event ≠ .run own) ∧ Unmoved state.transCoder next.transCoder := by
  cases event with
  | run event =>
    left
    have alone (outside : event ≠ .begin ∧ ∀ position, event ≠ .finish position)
        (taken : runStep calls threads event state = some next) :
        ∃ own after, Event.run event = .run own ∧ TransCoder.step calls threads own spec = some after ∧
          Backed threads next after := by
      obtain ⟨after, _, moved, _, _, kept⟩ := runStep_backed backed outside taken
      exact ⟨event, after, rfl, moved, kept⟩
    cases event with
    | begin | finish => cases taken
    | fill => exact alone (by simp) taken
    | frame | timeout | error | stop | resume | drain =>
      simp only [step] at taken
      split at taken
      next => exact alone (by simp) taken
      next => cases taken
  | delete =>
    refine .inr ⟨by simp, ?_⟩
    simp only [step] at taken
    split at taken
    next => cases taken; exact ⟨rfl, rfl, rfl⟩
    next => cases taken
  | pool event =>
    refine .inr ⟨by simp, ?_⟩
    cases event with
    | enqueue => cases taken
    | check position =>
      obtain ⟨pool, _, rfl⟩ := Option.map_eq_some_iff.mp taken
      exact checked_unmoved position pool
    | finish position =>
      obtain ⟨task, _, rest⟩ := Option.bind_eq_some_iff.mp taken
      obtain ⟨pool, _, rfl⟩ := Option.map_eq_some_iff.mp rest
      exact finished_unmoved task
    | stop =>
      simp only [step] at taken
      split at taken
      next =>
        obtain ⟨pool, _, rfl⟩ := Option.map_eq_some_iff.mp taken
        exact ⟨rfl, rfl, rfl⟩
      next => cases taken
    | wakeUp | notifyOne | notifyAll | join =>
      obtain ⟨pool, _, rfl⟩ := Option.map_eq_some_iff.mp taken
      exact ⟨rfl, rfl, rfl⟩

theorem step_simulates : Simulates (step calls threads) (TransCoder.step calls threads) (Backed threads) := by
  intro event state next spec backed taken
  have once {event : TransCoder.Event Frame} (outside : event ≠ .begin ∧ ∀ position, event ≠ .finish position)
      (taken : runStep calls threads event state = some next) :
      ∃ answer after, run (TransCoder.step calls threads) answer spec = some after ∧ Backed threads next after := by
    obtain ⟨after, _, moved, _, _, kept⟩ := runStep_backed backed outside taken
    exact ⟨[event], after, by rw [run_cons, moved]; rfl, kept⟩
  cases event with
  | run event =>
    cases event with
    | fill => exact once (by simp) taken
    | begin | finish => cases taken
    | frame | timeout | error | stop | resume | drain =>
      simp only [step] at taken
      split at taken
      next => exact once (by simp) taken
      next => cases taken
  | pool event => exact pool_backed backed taken
  | delete =>
    simp only [step] at taken
    split at taken
    next closed undeleted =>
      cases taken
      have same := backed.same undeleted
      refine ⟨[], spec, rfl, ?_⟩
      exact { backed with
        view := by rw [destroy, same]; rfl
        closed := fun _ => same ▸ closed
        stopped := fun _ => rfl }
    next => cases taken

theorem Backed.projects {start : TransCoder.State Frame Tensor Group Image Byte Deep Enc} (positive : 1 ≤ threads)
    (starts : Starts threads start) (reached : Reachable (step calls threads) (init threads start) state) :
    ∃ spec, Reachable (TransCoder.step calls threads) start spec ∧ Backed threads state spec :=
  step_simulates.reachable (Starts.backed positive starts) reached

theorem Backed.captured (backed : Backed threads state spec) : state.transCoder.captured = spec.captured := by
  rw [backed.view]
  split <;> rfl

theorem Backed.sequential (backed : Backed threads state spec) {sink : Sink Byte Deep Enc}
    {looped drained pending : List Frame} (sequential : Sequential calls sink spec looped drained pending) :
    Sequential calls sink state.transCoder looped drained pending where
  captured := backed.captured.trans sequential.captured
  closed ended := sequential.closed (backed.control.symm.trans ended)
  looping := by
    rw [backed.control]
    exact sequential.looping
  plain := by
    rw [backed.control, backed.sink]
    exact sequential.plain

/-- On its real thread pool the transcoder computes the plain loops, whatever its encoder returns, and
after `run` has returned no task is left that could use a worker object. -/
theorem pooled_eq_plainRun {start : TransCoder.State Frame Tensor Group Image Byte Deep Enc}
    (positive : 1 ≤ threads) (starts : Starts threads start)
    (reached : Reachable (step calls threads) (init threads start) state) :
    (∃ looped drained pending, Sequential calls start.sink state.transCoder looped drained pending) ∧
    (state.transCoder.control = .closed → state.pool.tasks = [] ∧ state.transCoder.running = []) := by
  obtain ⟨spec, projected, backed⟩ := Backed.projects positive starts reached
  refine ⟨?_, ?_⟩
  · obtain ⟨looped, drained, pending, sequential⟩ := reachable_sequential positive starts projected
    exact ⟨looped, drained, pending, backed.sequential sequential⟩
  · intro closed
    rw [backed.control] at closed
    rw [backed.queue, backed.running]
    exact rests_closed backed.owned backed.served closed

/-- Two frames; the second is inferred first. Then the drain, `~TransCoder` and its pool. -/
def sampleEvents : List (Event Nat) :=
  [.run (.fill 0 8), .pool (.check 1), .run (.frame 0), .pool (.notifyOne (some 1)), .pool (.check 0), .run (.frame 1),
    .pool (.notifyOne none), .pool (.check 1), .pool (.finish 1), .pool (.finish 0), .run .resume, .run .stop,
    .run .drain, .run .resume, .run .drain, .delete, .pool .stop, .pool (.check 0), .pool .notifyAll,
    .pool (.check 1), .pool .join, .pool .join, .pool .join]

theorem sampleEvents_run :
    ∃ state, run (step sampleCalls 2) sampleEvents (init 2 (sampleStart 2 [some 1, some 6])) = some state ∧
      state.transCoder.control = .closed ∧ state.transCoder.sink.payloads = [[0, 16], [1, 20]] := by
  have outcome : (run (step sampleCalls 2) sampleEvents (init 2 (sampleStart 2 [some 1, some 6]))).map
      (fun state => (state.transCoder.control, state.transCoder.sink.payloads)) =
        some (.closed, [[0, 16], [1, 20]]) := by decide
  obtain ⟨state, executed, observed⟩ := Option.map_eq_some_iff.mp outcome
  obtain ⟨closed, payloads⟩ := Prod.mk.inj observed
  exact ⟨state, executed, closed, payloads⟩

theorem pooled_eq_plainRun_sample :
    ∃ state, Reachable (step sampleCalls 2) (init 2 (sampleStart 2 [some 1, some 6])) state ∧
      state.transCoder.sink.payloads = [[0, 16], [1, 20]] ∧ state.pool.tasks = [] ∧
      state.transCoder.running = [] := by
  obtain ⟨state, executed, closed, payloads⟩ := sampleEvents_run
  have plain := pooled_eq_plainRun (by decide) (sampleStart_starts 2 [some 1, some 6]) ⟨sampleEvents, executed⟩
  exact ⟨state, ⟨sampleEvents, executed⟩, payloads, plain.2 closed⟩

/-- A `~TransCoder` in the middle of the loop would leave tasks in the queue and no worker objects. -/
example : ((run (step sampleCalls 2) (sampleEvents.take 3) (init 2 (sampleStart 2 [some 1, some 6]))).map destroy).map
    (fun state => (state.pool.tasks.length, state.transCoder.rkyoloList.length)) = some (1, 0) := by decide

end Yolov5Rknn.PooledTransCoder
