import Yolov5Rknn.Proofs.PipelineOwnership

/-! Every promise that the thread of `run` may wait for is one that the pool still has to
settle, and nothing is left of the run once the capture is closed. -/

namespace Yolov5Rknn.TransCoder
open Transition

variable {Frame Tensor Group Image Byte Deep Enc : Type}
  {calls : Calls Frame Tensor Group Image Byte Deep Enc} {threads : Nat}
  {state next start : State Frame Tensor Group Image Byte Deep Enc}

structure Served (state : State Frame Tensor Group Image Byte Deep Enc) : Prop where
  served : ∀ job ∈ inflight state, state.promises[job.future]? = some none →
    ∃ task ∈ state.tasks ++ state.running, task.promise = job.future
  closed : state.control = .closed → state.pendingJobs = [] ∧ state.queued = []

theorem Starts.served (starts : Starts threads start) : Served start where
  served := by simp [inflight, starts.control, starts.pendingJobs]
  closed := by simp [starts.control]

theorem Served.work {task : Task} (kept : Served state) (worked : Worked task state next) : Served next where
  closed := by
    rw [worked.control, worked.pendingJobs, worked.queued]
    exact kept.closed
  served := by
    intro job flying unset
    rw [worked.inflight] at flying
    rcases worked.tasks with ⟨promises, same⟩ | ⟨⟨ret, settled⟩, removed⟩
    · rw [promises] at unset
      obtain ⟨other, member, future⟩ := kept.served job flying unset
      exact ⟨other, same.mem_iff.mpr member, future⟩
    · rw [settled] at unset
      have different : task.promise ≠ job.future := by
        intro same
        rw [same, List.getElem?_set] at unset
        split at unset
        · split at unset <;> cases unset
        next apart => exact apart rfl
      rw [List.getElem?_set_ne different] at unset
      obtain ⟨other, member, future⟩ := kept.served job flying unset
      cases removed.mem_iff.mpr member with
      | head => exact absurd future different
      | tail _ later => exact ⟨other, later, future⟩

theorem Served.finish {onward : Control} {finished : PendingJob} (kept : Served state)
    (held : inflight state = finished :: state.pendingJobs) (idle : onward = .head ∨ onward = .draining)
    (effect : Finished onward finished state next) : Served next := by
  have open' : next.control ≠ .closed := by
    rcases effect.control with control | control <;> rcases idle with rfl | rfl <;> simp [control]
  have remaining : inflight next = state.pendingJobs := by
    rcases effect.control with control | control <;> rcases idle with rfl | rfl <;>
      simp only [inflight, control, effect.pendingJobs]
  constructor
  case closed => exact fun control => absurd control open'
  case served =>
    rw [remaining, effect.promises, effect.tasks, effect.running]
    intro job member
    apply kept.served
    rw [held]
    exact .tail _ member

theorem Served.capture {index : Nat} {frame : Frame} (kept : Served state) (owned : Owned threads state)
    (head : state.control = .head) (effect : Captured threads index frame state next) : Served next := by
  have idle : inflight state = state.pendingJobs := by simp only [inflight, head]
  constructor
  case closed =>
    intro closed
    rcases effect.control with control | ⟨_, _, control⟩ <;> rw [control] at closed <;> cases closed
  case served =>
    rw [effect.inflight, effect.promises, effect.tasks, effect.running]
    intro job member unset
    rcases List.mem_append.mp member with earlier | fresh
    · rw [← idle] at earlier
      rw [List.getElem?_append_left (owned.promised job earlier)] at unset
      obtain ⟨task, present, future⟩ := kept.served job earlier unset
      refine ⟨task, ?_, future⟩
      rw [List.append_assoc]
      rcases List.mem_append.mp present with queued | running
      · exact List.mem_append_left _ queued
      · exact List.mem_append_right _ (List.mem_append_right _ running)
    · rw [List.mem_singleton.mp fresh]
      exact ⟨⟨state.promises.length, state.nextSlot threads⟩, by simp, rfl⟩

theorem step_served (event : Event Frame) (owned : Owned threads state) (kept : Served state)
    (taken : step calls threads event state = some next) : Served next := by
  have finished (job : PendingJob) (onward : Control) (skip : Int → Bool) (ret : Int)
      (held : inflight state = job :: state.pendingJobs) (idle : onward = .head ∨ onward = .draining) :
      Served (finishJob calls skip onward job ret state) := by
    have flying : job ∈ inflight state := by rw [held]; exact .head _
    obtain ⟨⟨frame, mapped⟩, ⟨yolo, worker⟩, _⟩ := owned.flies flying
    exact kept.finish held idle (finishJob_finished calls skip onward ret mapped worker)
  cases step_stepped taken with
  | fill queued => exact ⟨kept.served, kept.closed⟩
  | frame head queued =>
    rcases owned.dequeue head queued with same | ⟨frame, content, captured⟩
    · rw [same]
      exact ⟨kept.served, fun closed => absurd (head.symm.trans closed) (by simp)⟩
    · exact kept.capture owned head captured
  | timeout head | error head => exact ⟨kept.served, fun closed => absurd (head.symm.trans closed) (by simp)⟩
  | stop head =>
    refine ⟨?_, fun closed => by cases closed⟩
    have served := kept.served
    simpa only [inflight, head] using served
  | resume waiting ready => exact finished _ _ _ _ (by simp only [inflight, waiting]) (.inl rfl)
  | resumeDrain waiting ready => exact finished _ _ _ _ (by simp only [inflight, waiting]) (.inr rfl)
  | drain draining pending =>
    refine ⟨?_, fun closed => by cases closed⟩
    have served := kept.served
    simpa only [inflight, draining, pending] using served
  | close draining pending =>
    refine ⟨?_, fun _ => ⟨pending, rfl⟩⟩
    simp only [inflight, pending]
    exact fun _ member => by cases member
  | begin waiting => exact kept.work (beginTask_worked calls waiting)
  | finish running => exact kept.work (finishTask_worked calls running)

/-- With the pool at rest every job in flight has its result. -/
theorem Served.settled {job : PendingJob} (kept : Served state) (owned : Owned threads state)
    (tasks : state.tasks = []) (running : state.running = []) (flying : job ∈ inflight state) :
    ∃ ret, state.promises[job.future]? = some (some ret) := by
  obtain ⟨promise, there⟩ : ∃ promise, state.promises[job.future]? = some promise :=
    ⟨_, List.getElem?_eq_getElem (owned.promised job flying)⟩
  cases promise with
  | some ret => exact ⟨ret, there⟩
  | none =>
    obtain ⟨task, member, _⟩ := kept.served job flying there
    rw [tasks, running] at member
    cases member

end Yolov5Rknn.TransCoder
