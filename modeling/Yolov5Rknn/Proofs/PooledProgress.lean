import Yolov5Rknn.Proofs.PoolProgress
import Yolov5Rknn.Proofs.PooledRefinement

/-! Neither `future.get()` nor the destruction of the transcoder waits for ever, whatever
the threads do in between: the steps that nobody outside has to cause run out, and
where none is left the thread of `run` is at the head of its loop or has returned. -/

namespace Yolov5Rknn.PooledTransCoder
open Transition TransCoder Simulation Progress

variable {Frame Tensor Group Image Byte Deep Enc : Type}
  {calls : Calls Frame Tensor Group Image Byte Deep Enc} {threads : Nat}
  {state next : State Frame Tensor Group Image Byte Deep Enc}
  {spec after : TransCoder.State Frame Tensor Group Image Byte Deep Enc}

/-- The steps `run` has left at a place: a job costs its pop in the drain loop and the
return of `future.get()`. -/
def placeDebt : Control → Nat
  | .head => 2
  | .waiting _ => 3
  | .draining => 1
  | .drainWaiting _ => 2
  | .closed | .aborted => 0

def jobDebt (transCoder : TransCoder.State Frame Tensor Group Image Byte Deep Enc) : Nat :=
  2 * transCoder.pendingJobs.length + placeDebt transCoder.control

def potential (threads : Nat) (state : State Frame Tensor Group Image Byte Deep Enc) : Nat :=
  ThreadPool.potential threads state.pool + jobDebt state.transCoder

def gain : Event Frame → Nat
  | .run (.frame _) => 6
  | .pool (.wakeUp _) => 1
  | _ => 0

theorem enqueue_all_potential {pool : ThreadPool.State Task} (fresh : List Task) :
    ThreadPool.potential threads (fresh.foldl (fun pool task => ThreadPool.enqueue task pool) pool) ≤
      ThreadPool.potential threads pool + 4 * fresh.length := by
  induction fresh generalizing pool with
  | nil => exact Nat.le_refl _
  | cons task rest ih =>
    have later := @ih (ThreadPool.enqueue task pool)
    have first : ThreadPool.potential threads (ThreadPool.enqueue task pool) ≤
        ThreadPool.potential threads pool + 4 := by
      unfold ThreadPool.enqueue
      split
      · omega
      · simp only [ThreadPool.potential, List.length_append, List.length_singleton]
        omega
    simp only [List.foldl_cons, List.length_cons]
    omega

theorem finished_debt {onward : Control} {job : PendingJob} (effect : Finished onward job spec after) :
    jobDebt after ≤ 2 * spec.pendingJobs.length + placeDebt onward := by
  simp only [jobDebt, effect.pendingJobs]
  rcases effect.control with control | control <;> rw [control]
  simp only [placeDebt]
  omega

/-- What the driver and the thread of `run` put into the pool and leave to do. -/
theorem handed_debt {event : TransCoder.Event Frame} {fresh : List Task} (owned : Owned threads spec)
    (taken : TransCoder.step calls threads event spec = some after) (tasks : after.tasks = spec.tasks ++ fresh)
    (outside : event ≠ .begin ∧ ∀ position, event ≠ .finish position) :
    4 * fresh.length + jobDebt after + (if internal (.run event) then 1 else 0) ≤
      jobDebt spec + gain (.run event) := by
  have unchanged (same : after.tasks = spec.tasks) : fresh.length = 0 := by
    have length := congrArg List.length tasks
    rw [same, List.length_append] at length
    omega
  have resumed (job : PendingJob) (onward : Control) (skip : Int → Bool) (ret : Int) (flying : job ∈ inflight spec) :
      ∃ onward', onward' = onward ∧ Finished onward' job spec (finishJob calls skip onward job ret spec) := by
    obtain ⟨⟨frame, mapped⟩, ⟨yolo, worker⟩, _⟩ := owned.flies flying
    exact ⟨onward, rfl, finishJob_finished calls skip onward ret mapped worker⟩
  cases step_stepped taken with
  | fill | timeout | error =>
    rw [unchanged rfl]
    simp only [jobDebt, State.wrap, internal, gain, Bool.false_eq_true, ↓reduceIte]
    omega
  | frame head queued =>
    rcases owned.dequeue head queued with same | ⟨frame, content, captured⟩
    · rw [unchanged (by rw [same]; rfl), same]
      simp only [jobDebt, State.wrap, internal, gain, Bool.false_eq_true, ↓reduceIte]
      omega
    · have one := List.append_cancel_left (captured.tasks.symm.trans tasks)
      rw [← one]
      have flying := captured.inflight
      have length := congrArg List.length flying
      simp only [List.length_append, List.length_singleton] at length
      rcases captured.control with control | ⟨_, job, control⟩
      · simp only [inflight, control] at length
        simp only [jobDebt, control, head, placeDebt, internal, gain, Bool.false_eq_true, ↓reduceIte,
          List.length_singleton]
        omega
      · simp only [inflight, control, List.length_cons] at length
        simp only [jobDebt, control, head, placeDebt, internal, gain, Bool.false_eq_true, ↓reduceIte,
          List.length_singleton]
        omega
  | stop head =>
    rw [unchanged rfl]
    simp only [jobDebt, head, placeDebt, internal, gain, Bool.false_eq_true, ↓reduceIte]
    omega
  | @resume job ret waiting ready =>
    obtain ⟨_, rfl, effect⟩ := resumed job .head (· == 0) ret (by simp only [inflight, waiting, List.mem_cons, true_or])
    have bound := finished_debt effect
    rw [unchanged effect.tasks]
    simp only [finishLoop, placeDebt, internal, gain, ↓reduceIte] at bound ⊢
    simp only [jobDebt, waiting, placeDebt] at bound ⊢
    omega
  | @resumeDrain job ret waiting ready =>
    obtain ⟨_, rfl, effect⟩ :=
      resumed job .draining (· ≤ 0) ret (by simp only [inflight, waiting, List.mem_cons, true_or])
    have bound := finished_debt effect
    rw [unchanged effect.tasks]
    simp only [finishDrain, placeDebt, internal, gain, ↓reduceIte] at bound ⊢
    simp only [jobDebt, waiting, placeDebt] at bound ⊢
    omega
  | drain draining pending =>
    rw [unchanged rfl]
    simp only [jobDebt, draining, pending, List.length_cons, placeDebt, internal, gain, ↓reduceIte]
    omega
  | close draining pending =>
    rw [unchanged rfl]
    simp only [jobDebt, draining, pending, List.length_nil, placeDebt, internal, gain, ↓reduceIte]
    omega
  | begin => exact absurd rfl outside.1
  | @finish position => exact absurd rfl (outside.2 position)

theorem Starts.potential {start : TransCoder.State Frame Tensor Group Image Byte Deep Enc}
    (starts : Starts threads start) :
    PooledTransCoder.potential threads (init threads start) = 3 * threads + 5 := by
  have pool : ThreadPool.potential threads (init threads start).pool = 3 * threads + 3 :=
    ThreadPool.init_potential threads
  have jobs : jobDebt (init threads start).transCoder = 2 := by
    simp only [jobDebt, init, starts.pendingJobs, starts.control, placeDebt, List.length_nil]
  rw [PooledTransCoder.potential, pool, jobs]

theorem Backed.jobs (backed : Backed threads state spec) : jobDebt state.transCoder = jobDebt spec := by
  rw [backed.view]
  split <;> rfl

theorem runStep_potential {event : TransCoder.Event Frame} (backed : Backed threads state spec)
    (outside : event ≠ .begin ∧ ∀ position, event ≠ .finish position)
    (taken : runStep calls threads event state = some next) :
    potential threads next + (if internal (.run event) then 1 else 0) ≤
      potential threads state + gain (.run event) := by
  obtain ⟨after, fresh, moved, tasks, pool, kept⟩ := runStep_backed backed outside taken
  have debt := handed_debt backed.owned moved tasks outside
  have queue := @enqueue_all_potential threads state.pool fresh
  simp only [potential, backed.jobs, kept.jobs, pool]
  omega

theorem Unmoved.jobs (unmoved : Unmoved spec after) : jobDebt after = jobDebt spec := by
  simp only [jobDebt, unmoved.pendingJobs, unmoved.control]

/-- Every internal step lowers the potential, and a frame or a spurious wake-up raises
it by `gain` at most. -/
theorem step_potential {event : Event Frame} (backed : Backed threads state spec)
    (taken : step calls threads event state = some next) :
    potential threads next + (if internal event then 1 else 0) ≤ potential threads state + gain event := by
  have pooled {event : ThreadPool.Event Task} {pool : ThreadPool.State Task}
      (moved : ThreadPool.step event state.pool = some pool) := ThreadPool.step_potential backed.valid moved
  cases event with
  | run event =>
    cases event with
    | fill => exact runStep_potential backed (by simp) taken
    | begin | finish => cases taken
    | frame | timeout | error | stop | resume | drain =>
      simp only [step] at taken
      split at taken
      next => exact runStep_potential backed (by simp) taken
      next => cases taken
  | delete =>
    simp only [step] at taken
    split at taken
    next closed undeleted => cases taken; exact Nat.le_refl _
    next => cases taken
  | pool event =>
    cases event with
    | enqueue => cases taken
    | check position =>
      obtain ⟨pool, moved, rfl⟩ := Option.map_eq_some_iff.mp taken
      have paid := pooled moved
      simp only [potential, (checked_unmoved position pool).jobs, internal, ThreadPool.internal, gain, ThreadPool.gain,
        ↓reduceIte] at paid ⊢
      omega
    | finish position =>
      obtain ⟨task, works, rest⟩ := Option.bind_eq_some_iff.mp taken
      obtain ⟨pool, moved, rfl⟩ := Option.map_eq_some_iff.mp rest
      have paid := pooled moved
      simp only [potential, (finished_unmoved task).jobs, internal, ThreadPool.internal, gain, ThreadPool.gain,
        ↓reduceIte] at paid ⊢
      omega
    | stop =>
      simp only [step] at taken
      split at taken
      next deleted =>
        obtain ⟨pool, moved, rfl⟩ := Option.map_eq_some_iff.mp taken
        cases ThreadPool.step_stepped moved with
        | stop unstarted =>
          simp only [potential, ThreadPool.potential, unstarted, ThreadPool.Destructor.debt, internal, gain, ↓reduceIte]
          omega
      next => cases taken
    | wakeUp =>
      obtain ⟨pool, moved, rfl⟩ := Option.map_eq_some_iff.mp taken
      have paid := pooled moved
      simp only [potential, internal, ThreadPool.internal, gain, ThreadPool.gain, Bool.false_eq_true,
        ↓reduceIte] at paid ⊢
      omega
    | notifyOne | notifyAll | join =>
      obtain ⟨pool, moved, rfl⟩ := Option.map_eq_some_iff.mp taken
      have paid := pooled moved
      simp only [potential, internal, ThreadPool.internal, gain, ThreadPool.gain, ↓reduceIte] at paid ⊢
      omega

theorem settling (calls : Calls Frame Tensor Group Image Byte Deep Enc) (threads : Nat) :
    Settling (step calls threads) (fun state => ∃ spec, Backed threads state spec) internal gain
      (potential threads) where
  kept event state next known taken := by
    obtain ⟨spec, backed⟩ := known
    obtain ⟨_, after, _, kept⟩ := step_simulates event state next spec backed taken
    exact ⟨after, kept⟩
  spends event state next known own taken := by
    obtain ⟨spec, backed⟩ := known
    have paid := step_potential backed taken
    have free : gain event = 0 := by
      cases event with
      | run event => cases event <;> first | rfl | cases own
      | pool event => cases event <;> first | rfl | cases own
      | delete => rfl
    simp only [own, free, ↓reduceIte] at paid
    omega
  earns event state next known own taken := by
    obtain ⟨spec, backed⟩ := known
    have paid := step_potential backed taken
    simp only [own, Bool.false_eq_true, ↓reduceIte] at paid
    omega

/-! ### States in which nothing moves -/

theorem Quiet.pool (quiet : Quiet (step calls threads) internal state) :
    Quiet ThreadPool.step ThreadPool.internal state.pool := by
  intro event own
  cases event with
  | enqueue | wakeUp | stop => cases own
  | notifyOne woken => exact Option.map_eq_none_iff.mp (quiet (.pool (.notifyOne woken)) rfl)
  | check position => exact Option.map_eq_none_iff.mp (quiet (.pool (.check position)) rfl)
  | notifyAll => exact Option.map_eq_none_iff.mp (quiet (.pool .notifyAll) rfl)
  | join => exact Option.map_eq_none_iff.mp (quiet (.pool .join) rfl)
  | finish position =>
    by_contra enabled
    obtain ⟨pool, moved⟩ := Option.ne_none_iff_exists'.mp enabled
    have disabled := quiet (.pool (.finish position)) rfl
    cases ThreadPool.step_stepped moved with
    | finish works =>
      simp only [step, workerTask, works, Option.bind_some, ThreadPool.Worker.task?, moved, Option.map_some,
        reduceCtorEq] at disabled

/-- Where nothing moves, `run` does not wait for a result: it asks for the next frame or
has ended, and then the transcoder is destroyed with the pool. -/
theorem Backed.rests (backed : Backed threads state spec) (positive : 1 ≤ threads)
    (quiet : Quiet (step calls threads) internal state) :
    (state.pool.tasks = [] ∧ ∀ worker ∈ state.pool.workers, worker.task? = none) ∧
      spec.tasks = [] ∧ spec.running = [] ∧
      (spec.control = .head ∨ spec.control = .closed ∨ spec.control = .aborted) ∧
      (state.deleted = true → state.pool.destructor = .returned) := by
  have still := Quiet.pool quiet
  obtain ⟨empty, idle, stage⟩ := backed.valid.rests positive still
  have tasks : spec.tasks = [] := backed.queue.symm.trans empty
  have running : spec.running = [] := by
    have few := backed.busy.length_le
    rw [idle] at few
    exact List.eq_nil_of_length_eq_zero (Nat.le_zero.mp few)
  have runs {event : TransCoder.Event Frame} (own : event = .resume ∨ event = .drain)
      (undeleted : state.deleted = false) : TransCoder.step calls threads event spec = none := by
    have owed := ThreadPool.Quiet.nobody_owed still
    have disabled : step calls threads (.run event) state = none := by
      rcases own with rfl | rfl <;> exact quiet _ rfl
    rcases own with rfl | rfl <;>
      · simp only [step, owed, ↓reduceIte, runStep, Option.map_eq_none_iff, backed.same undeleted] at disabled
        exact disabled
  have unclosed (busy : spec.control ≠ .closed) : state.deleted = false := by
    cases deleted : state.deleted with
    | false => rfl
    | true => exact absurd (backed.closed deleted) busy
  refine ⟨⟨empty, List.filterMap_eq_nil_iff.mp idle⟩, tasks, running, ?_, ?_⟩
  · cases place : spec.control with
    | head => exact .inl rfl
    | closed => exact .inr (.inl rfl)
    | aborted => exact .inr (.inr rfl)
    | waiting job =>
      obtain ⟨ret, ready⟩ := backed.served.settled backed.owned tasks running
        (show job ∈ inflight spec by simp only [inflight, place, List.mem_cons, true_or])
      have disabled := runs (.inl rfl) (unclosed (by simp [place]))
      rw [step_waiting place ready] at disabled
      cases disabled
    | drainWaiting job =>
      obtain ⟨ret, ready⟩ := backed.served.settled backed.owned tasks running
        (show job ∈ inflight spec by simp only [inflight, place, List.mem_cons, true_or])
      have disabled := runs (.inl rfl) (unclosed (by simp [place]))
      rw [step_drainWaiting place ready] at disabled
      cases disabled
    | draining =>
      have disabled := runs (.inr rfl) (unclosed (by simp [place]))
      cases pending : spec.pendingJobs with
      | nil => rw [step_close place pending] at disabled; cases disabled
      | cons job rest => rw [step_drain place pending] at disabled; cases disabled
  · intro deleted
    cases stage with
    | inr destroyed => exact destroyed
    | inl unstarted =>
      have disabled := quiet (.pool .stop) rfl
      simp only [step, deleted, ↓reduceIte, ThreadPool.step, unstarted, Option.map_some, reduceCtorEq] at disabled

/-- Past the loop: `run` never captures another frame. -/
def stopping : Control → Bool
  | .draining | .drainWaiting _ | .closed | .aborted => true
  | .head | .waiting _ => false

theorem step_stopping (event : TransCoder.Event Frame) (owned : Owned threads spec)
    (stopped : stopping spec.control = true) (taken : TransCoder.step calls threads event spec = some after) :
    stopping after.control = true := by
  cases step_stepped taken with
  | fill | stop | drain | close => first | exact stopped | rfl
  | frame head | timeout head | error head => rw [head] at stopped; cases stopped
  | resume waiting => rw [waiting] at stopped; cases stopped
  | @resumeDrain job ret waiting ready =>
    obtain ⟨⟨frame, mapped⟩, ⟨yolo, worker⟩, _⟩ :=
      owned.flies (show job ∈ inflight spec by simp only [inflight, waiting, List.mem_cons, true_or])
    have effect := finishJob_finished calls (· ≤ 0) .draining ret mapped worker
    rcases effect.control with control | control <;> rw [finishDrain, control] <;> rfl
  | begin waiting => rw [(beginTask_worked calls waiting).control]; exact stopped
  | finish running => rw [(finishTask_worked calls running).control]; exact stopped

theorem run_stopping {events : List (Event Frame)} (backed : Backed threads state spec)
    (executed : run (step calls threads) events state = some next)
    (stopped : stopping spec.control = true ∨ .run .stop ∈ events) : stopping next.transCoder.control = true := by
  induction events generalizing state spec with
  | nil =>
    cases executed
    rw [backed.control]
    exact stopped.resolve_right List.not_mem_nil
  | cons event rest ih =>
    obtain ⟨middle, taken, remaining⟩ := Option.bind_eq_some_iff.mp executed
    obtain ⟨answer, after, answered, kept⟩ := step_simulates event state middle spec backed taken
    apply ih kept remaining
    rcases stopped with already | asked
    · left
      have both := reachable_keeps
        (fun spec : TransCoder.State Frame Tensor Group Image Byte Deep Enc =>
          Owned threads spec ∧ stopping spec.control = true)
        (fun event _ _ both moved => ⟨step_owned event both.1 moved, step_stopping event both.1 both.2 moved⟩)
        ⟨backed.owned, already⟩ ⟨answer, answered⟩
      exact both.2
    · cases asked with
      | tail _ later => exact .inr later
      | head =>
        left
        simp only [step] at taken
        split at taken
        next =>
          obtain ⟨moved, stepped, rfl⟩ := Option.map_eq_some_iff.mp taken
          have same := kept.control
          cases step_stepped stepped with
          | stop head => rw [← same]; rfl
        next => cases taken

def Event.isFrame : Event Frame → Bool
  | .run (.frame _) => true
  | _ => false

def Event.isWakeUp : Event Frame → Bool
  | .pool (.wakeUp _) => true
  | _ => false

theorem gain_sum (events : List (Event Frame)) :
    (events.map gain).sum = 6 * events.countP Event.isFrame + events.countP Event.isWakeUp := by
  induction events with
  | nil => rfl
  | cons event rest ih =>
    have one : gain event = 6 * (if event.isFrame then 1 else 0) + if event.isWakeUp then 1 else 0 := by
      cases event with
      | run event => cases event <;> rfl
      | pool event => cases event <;> rfl
      | delete => rfl
    simp only [List.map_cons, List.sum_cons, List.countP_cons, one, ih]
    omega

/-- No `future.get()` waits for ever. In every run the steps of the pool and the returns
of `future.get()` are bounded by the frames captured and the spurious wake-ups; they
alone reach a state in which none of them is enabled, and there `run` asks for the next
frame, or has ended if it was stopped, with nothing left in the pool; and the destruction
that followed its return is over. -/
theorem run_never_hangs {start : TransCoder.State Frame Tensor Group Image Byte Deep Enc}
    {events : List (Event Frame)} (positive : 1 ≤ threads) (starts : Starts threads start)
    (executed : run (step calls threads) events (init threads start) = some state) :
    events.countP internal ≤
        3 * threads + 5 + 6 * events.countP Event.isFrame + events.countP Event.isWakeUp ∧
      (∃ own final, (∀ event ∈ own, internal event = true) ∧ run (step calls threads) own state = some final ∧
        Quiet (step calls threads) internal final) ∧
      (Quiet (step calls threads) internal state →
        state.pool.tasks = [] ∧ (∀ worker ∈ state.pool.workers, worker.task? = none) ∧
        state.transCoder.tasks = [] ∧ state.transCoder.running = [] ∧
        (state.transCoder.control = .head ∨ state.transCoder.control = .closed ∨
          state.transCoder.control = .aborted) ∧
        (.run .stop ∈ events → state.transCoder.control ≠ .head) ∧
        (state.deleted = true → state.pool.destructor = .returned)) := by
  have initially := Starts.backed positive starts
  obtain ⟨spec, _, backed⟩ := Backed.projects positive starts ⟨events, executed⟩
  refine ⟨?_, (settling calls threads).settles ⟨spec, backed⟩, ?_⟩
  · have bounded := (settling calls threads).bounded ⟨start, initially⟩ executed
    rw [Starts.potential starts, gain_sum] at bounded
    omega
  · intro quiet
    obtain ⟨⟨empty, idle⟩, tasks, running, place, destroyed⟩ := backed.rests positive quiet
    have queue : state.transCoder.tasks = spec.tasks := by rw [backed.view]; split <;> rfl
    rw [backed.control, backed.running, queue]
    refine ⟨empty, idle, tasks, running, place, ?_, destroyed⟩
    intro asked head
    have stopped := run_stopping initially executed (.inr asked)
    rw [backed.control, head] at stopped
    cases stopped

theorem run_never_hangs_sample : sampleEvents.countP internal ≤ 3 * 2 + 5 + 6 * 2 + 0 ∧
    ∃ own final, run (step sampleCalls 2) (sampleEvents ++ own) (init 2 (sampleStart 2 [some 1, some 6])) = some final ∧
      final.pool.tasks = [] ∧ final.transCoder.control ≠ .head := by
  obtain ⟨state, executed, _⟩ := sampleEvents_run
  obtain ⟨bounded, ⟨own, final, _, later, quiet⟩, _⟩ :=
    run_never_hangs (by decide) (sampleStart_starts 2 [some 1, some 6]) executed
  have onward := run_trans executed later
  obtain ⟨empty, _, _, _, _, ended, _⟩ :=
    (run_never_hangs (by decide) (sampleStart_starts 2 [some 1, some 6]) onward).2.2 quiet
  exact ⟨bounded, own, final, onward, empty, ended (List.mem_append_left _ (by decide))⟩

end Yolov5Rknn.PooledTransCoder
