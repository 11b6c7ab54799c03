import Yolov5Rknn.Proofs.PipelineOwnership
import Mathlib.Data.List.Forall2

/-! The pipelined `run` computes what the plain loop computes. Each job in flight
carries the frame captured for it, and the sink is the plain loop's over the
frames whose jobs have left the pipeline. -/

namespace Yolov5Rknn.TransCoder
open Transition RoundRobin

variable {Frame Tensor Group Image Byte Deep Enc : Type}
  {calls : Calls Frame Tensor Group Image Byte Deep Enc} {threads : Nat}
  {state next start : State Frame Tensor Group Image Byte Deep Enc}
  {job : PendingJob} {frame : Frame}

/-- The encoder always returns a length larger than the start code it wrote. -/
def Encodes (calls : Calls Frame Tensor Group Image Byte Deep Enc) : Prop :=
  ∀ encoder image encodeData,
    (startCode (calls.encodeDmabuf encoder image encodeData).2.2 : Int) <
      (calls.encodeDmabuf encoder image encodeData).2.1

/-- How far the pool has come with the job of `frame`, whose worker is `yolo`. -/
inductive Stage (calls : Calls Frame Tensor Group Image Byte Deep Enc)
    (state : State Frame Tensor Group Image Byte Deep Enc) (job : PendingJob) (frame : Frame)
    (yolo : RkYolo Tensor Group) : Prop where
  | queued (task : ⟨job.future, job.slot⟩ ∈ state.tasks)
  | running (task : ⟨job.future, job.slot⟩ ∈ state.running)
      (front : inferenceFront calls (some frame) = .ok yolo.outputMems)
  | ready (settled : state.promises[job.future]? = some (some (inference calls frame).1))
      (result : ∀ group image, (inference calls frame).2 = some (group, image) →
        yolo.lastDetectResultGroup = group ∧ state.outputDmaBuffers[job.slot]? = some image)

/-- A frame that alone ends without a result. -/
theorem Stage.failed {yolo : RkYolo Tensor Group} {ret : Int} (alone : inference calls frame = (ret, none))
    (settled : state.promises[job.future]? = some (some ret)) : Stage calls state job frame yolo := by
  refine .ready ?_ ?_
  · rw [alone]
    exact settled
  · rw [alone]
    intro _ _ impossible
    cases impossible

/-- The job holds `frame`: its capture buffer still does, and its worker is bound
to that buffer and to the output buffer of its slot. -/
structure Carries (calls : Calls Frame Tensor Group Image Byte Deep Enc)
    (state : State Frame Tensor Group Image Byte Deep Enc) (job : PendingJob) (frame : Frame) : Prop where
  content : state.buffers[job.captureIndex]? = some (some frame)
  worker : ∃ yolo, state.rkyoloList[job.slot]? = some yolo ∧ yolo.inbuf = some job.captureIndex ∧
    yolo.outbuf = some job.slot ∧ Stage calls state job frame yolo

/-- A job is untouched by a step on other buffers, workers and tasks. -/
theorem Carries.untouched (carries : Carries calls state job frame)
    (content : next.buffers[job.captureIndex]? = state.buffers[job.captureIndex]?)
    (worker : next.rkyoloList[job.slot]? = state.rkyoloList[job.slot]?)
    (output : next.outputDmaBuffers[job.slot]? = state.outputDmaBuffers[job.slot]?)
    (promise : ∀ value, state.promises[job.future]? = some (some value) →
      next.promises[job.future]? = some (some value))
    (queued : ⟨job.future, job.slot⟩ ∈ state.tasks → ⟨job.future, job.slot⟩ ∈ next.tasks)
    (running : ⟨job.future, job.slot⟩ ∈ state.running → ⟨job.future, job.slot⟩ ∈ next.running) :
    Carries calls next job frame := by
  obtain ⟨yolo, bound, inbuf, outbuf, stage⟩ := carries.worker
  refine ⟨content.trans carries.content, yolo, worker.trans bound, inbuf, outbuf, ?_⟩
  cases stage with
  | queued task => exact .queued (queued task)
  | running task front => exact .running (running task) front
  | ready settled result =>
    exact .ready (promise _ settled) fun group image same =>
      ⟨(result group image same).1, output.trans (result group image same).2⟩

/-! ### One job alone -/

theorem inferenceFront_error {content : Option Frame} {ret : Int}
    (failed : inferenceFront calls content = .error ret) : ret < 0 := by
  unfold inferenceFront at failed
  split at failed
  · cases failed; decide
  · dsimp only at failed
    split at failed
    · cases failed; assumption
    · split at failed
      · cases failed; assumption
      · cases failed

/-- Inference that returns 0 has reached its end. -/
theorem inference_zero (success : (inference calls frame).1 = 0) :
    ∃ group image, inference calls frame = (0, some (group, image)) := by
  unfold inference at success ⊢
  split at success
  next ret failed =>
    have negative := inferenceFront_error failed
    simp only at success
    omega
  next outputMems front =>
    dsimp only at success ⊢
    split at success
    · simp only at success; omega
    · split at success
      · simp only at success; omega
      next converted processed =>
        exact ⟨_, _, by rw [if_neg converted, if_neg processed]; exact Prod.ext success rfl⟩

theorem startCode_pos (encodeData : List UInt8) : 0 < startCode encodeData := by
  unfold startCode
  split <;> decide

/-- The tail of the loop body does to the sink what the plain loop does. -/
theorem finishJob_sink {skip : Int → Bool} (onward : Control) {ret : Int} (encodes : Encodes calls)
    (emits : ∀ size : Int, 0 < size → skip size = false) (yolo : job.yolo = job.slot)
    (carries : Carries calls state job frame) (ready : state.promises[job.future]? = some (some ret))
    (idle : ∀ task ∈ state.tasks ++ state.running, state.promises[task.promise]? = some none) :
    (finishJob calls skip onward job ret state).sink = plainStep calls state.sink frame ∧
      (finishJob calls skip onward job ret state).control = onward := by
  have inside : job.captureIndex < state.buffers.length :=
    (List.getElem?_eq_some_iff.mp carries.content).1
  obtain ⟨worker, bound, _, outbuf, stage⟩ := carries.worker
  -- a job whose promise is settled is neither queued nor running
  have unset (task : ⟨job.future, job.slot⟩ ∈ state.tasks ++ state.running) : False := by
    have := idle _ task
    rw [ready] at this
    cases this
  cases stage with
  | queued task => exact (unset (List.mem_append_left _ task)).elim
  | running task _ => exact (unset (List.mem_append_right _ task)).elim
  | ready settled result =>
    obtain rfl : ret = (inference calls frame).1 := by
      rw [ready] at settled
      exact Option.some.inj (Option.some.inj settled)
    by_cases success : (inference calls frame).1 = 0
    · obtain ⟨group, image, same⟩ := inference_zero success
      obtain ⟨detections, output⟩ := result group image (by rw [same])
      obtain ⟨⟨tracker, overlay⟩, tracked⟩ := update_isSome calls state.sink.tracker frame group
      have slot : job.slot < state.outputDmaBuffers.length := (List.getElem?_eq_some_iff.mp output).1
      unfold finishJob plainStep
      simp only [same, yolo, bound, carries.content, Option.join_some, detections, tracked,
        outbuf, Option.bind_some, output, ne_eq, not_true_eq_false, ↓reduceIte]
      rw [qbuf_inside (by exact inside)]
      dsimp only
      by_cases rendered : (calls.renderOverlay overlay image).1 = 0
      · have encoded := encodes state.sink.encoder (calls.renderOverlay overlay image).2 state.sink.encodeData
        have positive := startCode_pos (calls.encodeDmabuf state.sink.encoder
          (calls.renderOverlay overlay image).2 state.sink.encodeData).2.2
        simp only [rendered, not_true_eq_false, ↓reduceIte, List.getElem?_set_self slot]
        have emitted := emits (calls.encodeDmabuf state.sink.encoder
          (calls.renderOverlay overlay image).2 state.sink.encodeData).2.1 (by omega)
        rw [emitted]
        simp [payload, Int.not_lt.mpr encoded.le]
      · simp [rendered]
    · unfold finishJob plainStep
      rw [if_pos success, qbuf_inside inside]
      refine ⟨?_, rfl⟩
      split
      next reached => exact absurd (by rw [reached]) success
      next => rfl

/-! ### The pool -/

/-- Carrying a frame says nothing about the tasks of other jobs. -/
theorem Carries.other {task : Task} (carries : Carries calls state job frame)
    (slot : job.slot ≠ task.yolo) (future : job.future ≠ task.promise)
    (worked : Worked task state next)
    (worker : next.rkyoloList[job.slot]? = state.rkyoloList[job.slot]?)
    (output : next.outputDmaBuffers[job.slot]? = state.outputDmaBuffers[job.slot]?)
    (queued : ∀ other ∈ state.tasks, other ≠ task → other ∈ next.tasks)
    (running : ∀ other ∈ state.running, other ≠ task → other ∈ next.running) :
    Carries calls next job frame := by
  have different : (⟨job.future, job.slot⟩ : Task) ≠ task := by
    rintro rfl
    exact slot rfl
  refine carries.untouched (by rw [worked.buffers]) worker output ?_
    (fun member => queued _ member different) (fun member => running _ member different)
  intro value settled
  rcases worked.tasks with ⟨same, _⟩ | ⟨⟨_, set⟩, _⟩
  · rw [same]; exact settled
  · rw [set, List.getElem?_set_ne (Ne.symm future)]; exact settled

theorem beginTask_pool (calls : Calls Frame Tensor Group Image Byte Deep Enc) (task : Task)
    (state : State Frame Tensor Group Image Byte Deep Enc) :
    (beginTask calls task state).tasks = state.tasks ∧
      ((beginTask calls task state).running = state.running ∨
        (beginTask calls task state).running = state.running ++ [task]) := by
  unfold beginTask
  split
  · exact ⟨rfl, Or.inl rfl⟩
  · dsimp only
    split
    · exact ⟨rfl, Or.inl rfl⟩
    · exact ⟨rfl, Or.inr rfl⟩

theorem finishTask_pool (calls : Calls Frame Tensor Group Image Byte Deep Enc) (task : Task)
    (state : State Frame Tensor Group Image Byte Deep Enc) :
    (finishTask calls task state).tasks = state.tasks ∧
      (finishTask calls task state).running = state.running := by
  unfold finishTask
  split
  · exact ⟨rfl, rfl⟩
  · dsimp only
    split
    · split
      · exact ⟨rfl, rfl⟩
      · split <;> exact ⟨rfl, rfl⟩
    · exact ⟨rfl, rfl⟩

theorem beginTask_other (calls : Calls Frame Tensor Group Image Byte Deep Enc) (task : Task)
    (state : State Frame Tensor Group Image Byte Deep Enc) {slot : Nat} (other : slot ≠ task.yolo) :
    (beginTask calls task state).rkyoloList[slot]? = state.rkyoloList[slot]? ∧
      (beginTask calls task state).outputDmaBuffers[slot]? = state.outputDmaBuffers[slot]? := by
  unfold beginTask
  split
  · exact ⟨rfl, rfl⟩
  · dsimp only
    split <;> exact ⟨List.getElem?_set_ne (Ne.symm other), rfl⟩

theorem finishTask_other (calls : Calls Frame Tensor Group Image Byte Deep Enc) (task : Task)
    (state : State Frame Tensor Group Image Byte Deep Enc) {slot : Nat} (other : slot ≠ task.yolo)
    (bound : ∀ yolo, state.rkyoloList[task.yolo]? = some yolo → yolo.outbuf = some task.yolo) :
    (finishTask calls task state).rkyoloList[slot]? = state.rkyoloList[slot]? ∧
      (finishTask calls task state).outputDmaBuffers[slot]? = state.outputDmaBuffers[slot]? := by
  unfold finishTask
  split
  · exact ⟨rfl, rfl⟩
  next yolo worker =>
    dsimp only
    split
    next outbuf _ same =>
      obtain rfl : outbuf = task.yolo := Option.some.inj (same.symm.trans (bound yolo worker))
      split
      · exact ⟨rfl, List.getElem?_set_ne (Ne.symm other)⟩
      · split
        · exact ⟨rfl, List.getElem?_set_ne (Ne.symm other)⟩
        · exact ⟨List.getElem?_set_ne (Ne.symm other), List.getElem?_set_ne (Ne.symm other)⟩
    next => exact ⟨rfl, rfl⟩

/-- Taking a task up: its job has failed, or is running. -/
theorem Carries.begin {task : Task} {rest : List Task} (carries : Carries calls state job frame)
    (same : task = ⟨job.future, job.slot⟩) (promised : job.future < state.promises.length) :
    Carries calls (beginTask calls task { state with tasks := rest }) job frame := by
  subst same
  obtain ⟨yolo, worker, inbuf, outbuf, _⟩ := carries.worker
  have slot : job.slot < state.rkyoloList.length := (List.getElem?_eq_some_iff.mp worker).1
  unfold beginTask
  simp only [worker, inbuf, Option.bind_some, carries.content, Option.join_some]
  cases front : inferenceFront calls (some frame) with
  | error ret =>
    have alone : inference calls frame = (ret, none) := by simp only [inference, front]
    exact ⟨carries.content, _, List.getElem?_set_self slot, rfl, outbuf,
      .failed alone (List.getElem?_set_self promised)⟩
  | ok outputMems =>
    refine ⟨carries.content, _, List.getElem?_set_self slot, rfl, outbuf, .running ?_ front⟩
    exact List.mem_append_right _ (List.mem_singleton.mpr rfl)

/-- Finishing a task: its job is ready, with the result of its frame alone. -/
theorem Carries.finish {task : Task} {position : Nat} {yolo : RkYolo Tensor Group}
    (same : task = ⟨job.future, job.slot⟩) (promised : job.future < state.promises.length)
    (content : state.buffers[job.captureIndex]? = some (some frame))
    (worker : state.rkyoloList[job.slot]? = some yolo) (inbuf : yolo.inbuf = some job.captureIndex)
    (outbuf : yolo.outbuf = some job.slot) (output : job.slot < state.outputDmaBuffers.length)
    (front : inferenceFront calls (some frame) = .ok yolo.outputMems) :
    Carries calls (finishTask calls task { state with running := state.running.eraseIdx position })
      job frame := by
  subst same
  have slot : job.slot < state.rkyoloList.length := (List.getElem?_eq_some_iff.mp worker).1
  unfold finishTask
  simp only [worker, inbuf, outbuf, Option.bind_some, content, Option.join_some]
  split
  next failed =>
    have alone : inference calls frame = ((calls.convert frame).1, none) := by
      simp only [inference, front, if_pos failed]
    exact ⟨content, _, worker, inbuf, outbuf, .failed alone (List.getElem?_set_self promised)⟩
  next converted =>
    split
    next failed =>
      have alone : inference calls frame = ((calls.postProcess yolo.outputMems).1, none) := by
        simp only [inference, front, if_neg converted, if_pos failed]
      exact ⟨content, _, worker, inbuf, outbuf, .failed alone (List.getElem?_set_self promised)⟩
    next processed =>
      have alone : inference calls frame = ((calls.postProcess yolo.outputMems).1,
          some ((calls.postProcess yolo.outputMems).2, (calls.convert frame).2)) := by
        simp only [inference, front, if_neg converted, if_neg processed]
      refine ⟨content, _, List.getElem?_set_self slot, rfl, rfl, .ready ?_ ?_⟩
      · simp only [State.settle, alone]
        exact List.getElem?_set_self promised
      · rw [alone]
        intro group image reached
        cases reached
        exact ⟨rfl, List.getElem?_set_self output⟩

/-! ### Every step -/

/-- The simulation invariant: the captured frames are the `done` ones, on which
the sink is the plain loop's, followed by those the jobs in flight carry. -/
structure Refines (calls : Calls Frame Tensor Group Image Byte Deep Enc) (initial : Sink Byte Deep Enc)
    (state : State Frame Tensor Group Image Byte Deep Enc) : Prop where
  sound : state.control ≠ .aborted
  closed : state.control = .closed → inflight state = []
  refined : ∃ done frames, state.captured = done ++ frames ∧
    List.Forall₂ (Carries calls state) (inflight state) frames ∧
    state.sink = plainLoop calls done initial

theorem Starts.refines (starts : Starts threads start) : Refines calls start.sink start := by
  refine ⟨by simp [starts.control], by simp [starts.control], [], [], starts.captured, ?_, rfl⟩
  simp only [inflight, starts.control, starts.pendingJobs]
  exact .nil

private theorem forall₂_of_mem {α β : Type} {first second : α → β → Prop} {left : List α} {right : List β}
    (all : List.Forall₂ first left right) (kept : ∀ a ∈ left, ∀ b, first a b → second a b) :
    List.Forall₂ second left right := by
  induction all with
  | nil => exact .nil
  | cons head _ ih =>
    exact .cons (kept _ (.head _) _ head) (ih fun a member => kept a (.tail _ member))

variable {initial : Sink Byte Deep Enc}

/-- A step that leaves the sink and the jobs in flight alone, and their frames
with them. -/
theorem Refines.carry (refines : Refines calls initial state) (sound : next.control ≠ .aborted)
    (closed : next.control = .closed → inflight state = [])
    (flying : inflight next = inflight state) (captured : next.captured = state.captured)
    (sink : next.sink = state.sink)
    (kept : ∀ job ∈ inflight state, ∀ frame, Carries calls state job frame → Carries calls next job frame) :
    Refines calls initial next := by
  obtain ⟨done, frames, split, carried, plain⟩ := refines.refined
  refine ⟨sound, fun ended => flying.trans (closed ended), done, frames, captured.trans split, ?_,
    sink.trans plain⟩
  rw [flying]
  exact forall₂_of_mem carried kept

theorem Owned.apart (owned : Owned threads state) {first second : PendingJob}
    (left : first ∈ inflight state) (right : second ∈ inflight state) (different : first ≠ second) :
    first.slot ≠ second.slot ∧ first.future ≠ second.future := by
  have slots : ((inflight state).map PendingJob.slot).Nodup := by
    rw [owned.slots]
    refine window_nodup _ ?_
    have := owned.room
    unfold inflight
    split
    · rw [List.length_cons]; omega
    · rw [List.length_cons]; omega
    · omega
  exact ⟨fun same => different (List.inj_on_of_nodup_map slots left right same),
    fun same => different (List.inj_on_of_nodup_map owned.futures left right same)⟩

theorem Refines.work {task : Task} (refines : Refines calls initial state) (owned : Owned threads state)
    (present : task ∈ state.tasks ++ state.running) (worked : Worked task state next)
    (own : ∀ job ∈ inflight state, ∀ frame, task = ⟨job.future, job.slot⟩ → Carries calls state job frame →
      Carries calls next job frame)
    (others : ∀ job ∈ inflight state, ∀ frame, task = ⟨job.future, job.slot⟩ →
      Carries calls state job frame → ∀ slot, slot ≠ task.yolo →
        next.rkyoloList[slot]? = state.rkyoloList[slot]? ∧
        next.outputDmaBuffers[slot]? = state.outputDmaBuffers[slot]? ∧
        (∀ other ∈ state.tasks, other ≠ task → other ∈ next.tasks) ∧
        ∀ other ∈ state.running, other ≠ task → other ∈ next.running) :
    Refines calls initial next := by
  obtain ⟨done, frames, _, carried, _⟩ := refines.refined
  obtain ⟨_, owner, flying, future, slot⟩ := owned.owned task present
  obtain rfl : task = ⟨owner.future, owner.slot⟩ := by rw [future, slot]
  -- the frame of the task's own job
  obtain ⟨ownFrame, ownCarries⟩ : ∃ frame, Carries calls state owner frame := by
    obtain ⟨position, inside, rfl⟩ := List.getElem_of_mem flying
    exact ⟨_, carried.get inside (by rw [← carried.length_eq]; exact inside)⟩
  refine refines.carry (by rw [worked.control]; exact refines.sound)
    (by rw [worked.control]; exact refines.closed) worked.inflight worked.captured worked.sink
    fun job member frame carries => ?_
  by_cases same : job = owner
  · subst same
    exact own job member frame rfl carries
  · obtain ⟨slot, future⟩ := owned.apart member flying same
    obtain ⟨worker, output, queued, running⟩ := others owner flying ownFrame rfl ownCarries job.slot slot
    exact carries.other slot future worked worker output queued running

theorem Refines.begin {task : Task} {rest : List Task} (refines : Refines calls initial state)
    (owned : Owned threads state) (waiting : state.tasks = task :: rest) :
    Refines calls initial (beginTask calls task { state with tasks := rest }) := by
  have present : task ∈ state.tasks ++ state.running := by simp [waiting]
  refine refines.work owned present (beginTask_worked calls waiting) ?_ ?_
  · exact fun job member frame same carries => carries.begin same (owned.promised job member)
  · intro _ _ _ _ _ slot other
    obtain ⟨worker, output⟩ := beginTask_other calls task { state with tasks := rest } other
    obtain ⟨tasks, running⟩ := beginTask_pool calls task { state with tasks := rest }
    refine ⟨worker, output, fun kept member different => ?_, fun kept member _ => ?_⟩
    · rw [tasks]
      rw [waiting] at member
      exact (List.mem_cons.mp member).resolve_left different
    · rcases running with same | extended
      · rw [same]; exact member
      · rw [extended]; exact List.mem_append_left _ member

theorem Refines.finish {task : Task} {position : Nat} (refines : Refines calls initial state)
    (owned : Owned threads state) (taken : state.running[position]? = some task) :
    Refines calls initial (finishTask calls task { state with running := state.running.eraseIdx position }) := by
  have member := List.mem_of_getElem? taken
  have present : task ∈ state.tasks ++ state.running := List.mem_append_right _ member
  refine refines.work owned present (finishTask_worked calls taken) ?_ ?_
  · intro job flying frame same carries
    obtain ⟨yolo, worker, inbuf, outbuf, stage⟩ := carries.worker
    have unset := (owned.owned task present).1
    have slot : job.slot < state.outputDmaBuffers.length := by
      rw [owned.outputs, ← owned.workers]
      exact (List.getElem?_eq_some_iff.mp worker).1
    cases stage with
    | queued queued =>
      -- the task is running, so it is no longer queued
      have distinct := owned.distinct
      rw [List.map_append, List.nodup_append] at distinct
      exact (distinct.2.2 _ (List.mem_map_of_mem queued) _ (List.mem_map_of_mem member) (by rw [same])).elim
    | running _ front =>
      exact Carries.finish same (owned.promised job flying) carries.content worker inbuf outbuf slot front
    | ready settled _ =>
      rw [same, settled] at unset
      cases unset
  · intro job _ frame same carries slot other
    obtain ⟨yolo, worker, _, outbuf, _⟩ := carries.worker
    obtain ⟨workers, output⟩ := finishTask_other calls task
      { state with running := state.running.eraseIdx position } other (by
        intro found bound
        rw [same] at bound ⊢
        obtain rfl : found = yolo := Option.some.inj (bound.symm.trans worker)
        exact outbuf)
    obtain ⟨tasks, running⟩ := finishTask_pool calls task
      { state with running := state.running.eraseIdx position }
    refine ⟨workers, output, fun kept stays _ => by rw [tasks]; exact stays, fun kept stays different => ?_⟩
    rw [running]
    obtain ⟨inside, rfl⟩ := List.getElem?_eq_some_iff.mp taken
    have removed := (List.getElem_cons_eraseIdx_perm inside).mem_iff.mpr stays
    exact (List.mem_cons.mp removed).resolve_left different

theorem Refines.resume {skip : Int → Bool} {onward : Control} {ret : Int} (encodes : Encodes calls)
    (emits : ∀ size : Int, 0 < size → skip size = false) (refines : Refines calls initial state)
    (owned : Owned threads state) (held : inflight state = job :: state.pendingJobs)
    (idle : onward = .head ∨ onward = .draining)
    (ready : state.promises[job.future]? = some (some ret)) :
    Refines calls initial (finishJob calls skip onward job ret state) := by
  obtain ⟨done, frames, split, carried, plain⟩ := refines.refined
  rw [held] at carried
  cases carried with
  | @cons _ frame _ rest first remaining =>
    have flying : job ∈ inflight state := by rw [held]; exact .head _
    have same := owned.yolo job flying
    obtain ⟨yolo, worker, _, outbuf, _⟩ := first.worker
    have effect := finishJob_finished calls skip onward ret first.content (same ▸ worker)
    obtain ⟨sink, control⟩ := finishJob_sink onward encodes emits same first ready
      (fun task member => (owned.owned task member).1)
    have left : inflight (finishJob calls skip onward job ret state) = state.pendingJobs := by
      rw [← effect.pendingJobs]
      rcases idle with rfl | rfl <;> simp only [inflight, control]
    refine ⟨?_, ?_, done ++ [frame], rest, ?_, ?_, ?_⟩
    · rw [control]
      rcases idle with rfl | rfl <;> simp
    · rw [control]
      rcases idle with rfl | rfl <;> simp
    · rw [effect.captured, split, List.append_assoc, List.singleton_append]
    · rw [left]
      refine forall₂_of_mem remaining fun other member frame carries => ?_
      have unique : job ∉ state.pendingJobs := by
        have futures := owned.futures
        rw [held, List.map_cons, List.nodup_cons] at futures
        exact fun member => futures.1 (List.mem_map_of_mem member)
      have beside : other ∈ inflight state := by rw [held]; exact .tail _ member
      have apart := owned.apart beside flying (fun equal => unique (equal ▸ member))
      refine carries.untouched (by rw [effect.buffers]) (by rw [effect.rkyoloList]) ?_
        (fun _ settled => by rw [effect.promises]; exact settled)
        (fun queued => by rw [effect.tasks]; exact queued)
        (fun running => by rw [effect.running]; exact running)
      rcases effect.outputs with unchanged | ⟨found, slot, _, bound, points, changed⟩
      · rw [unchanged]
      · obtain rfl : found = yolo := Option.some.inj (bound.symm.trans (same ▸ worker))
        obtain rfl : slot = job.slot := Option.some.inj (points.symm.trans outbuf)
        rw [changed, List.getElem?_set_ne (Ne.symm apart.1)]
    · rw [sink, plain, plainLoop, plainLoop, List.foldl_append]
      rfl

theorem Refines.capture {index : Nat} (refines : Refines calls initial state) (owned : Owned threads state)
    (head : state.control = .head) (content : state.buffers[index]? = some (some frame))
    (effect : Captured threads index frame state next) : Refines calls initial next := by
  obtain ⟨done, frames, split, carried, plain⟩ := refines.refined
  have idle : inflight state = state.pendingJobs := by simp only [inflight, head]
  obtain ⟨yolo, worker, workers⟩ := effect.rkyoloList
  have slot : state.nextSlot threads < state.rkyoloList.length := (List.getElem?_eq_some_iff.mp worker).1
  have free : state.nextSlot threads ∉ (inflight state).map PendingJob.slot := by
    rw [owned.slots, owned.window_nextSlot _ (by rw [idle]; exact owned.room.le), idle]
    exact next_not_mem owned.nextSlot_lt owned.room
  refine ⟨?_, ?_, done, frames ++ [frame], ?_, ?_, effect.sink.trans plain⟩
  · rcases effect.control with control | ⟨_, _, control⟩ <;> simp [control]
  · rcases effect.control with control | ⟨_, _, control⟩ <;> simp [control]
  · rw [effect.captured, split, List.append_assoc]
  · rw [effect.inflight, ← idle]
    refine List.rel_append (forall₂_of_mem carried fun job member frame carries => ?_) (.cons ?_ .nil)
    · have other : state.nextSlot threads ≠ job.slot := fun same => free (same ▸ List.mem_map_of_mem member)
      refine carries.untouched (by rw [effect.buffers]) ?_ (by rw [effect.outputs]) ?_ ?_ ?_
      · rw [workers, List.getElem?_set_ne other]
      · intro value settled
        rw [effect.promises, List.getElem?_append_left (owned.promised job member)]
        exact settled
      · intro queued
        rw [effect.tasks]
        exact List.mem_append_left _ queued
      · intro running
        rw [effect.running]
        exact running
    · refine ⟨by rw [effect.buffers]; exact content,
        { yolo with inbuf := some index, outbuf := some (state.nextSlot threads) }, ?_, rfl, rfl, .queued ?_⟩
      · rw [workers]
        exact List.getElem?_set_self slot
      · rw [effect.tasks]
        exact List.mem_append_right _ (List.mem_singleton.mpr rfl)

/-- Both copies of the size test let a positive length through. -/
theorem emits_loop (size : Int) (positive : 0 < size) : (size == 0) = false := by simp; omega

theorem emits_drain (size : Int) (positive : 0 < size) : (decide (size ≤ 0)) = false := by simp; omega

theorem step_refines (encodes : Encodes calls) (event : Event Frame) (owned : Owned threads state)
    (refines : Refines calls initial state) (taken : step calls threads event state = some next) :
    Refines calls initial next := by
  cases step_stepped taken with
  | @fill index content queued =>
    refine refines.carry refines.sound refines.closed rfl rfl rfl fun job member frame carries => ?_
    -- the driver writes only what it owns, so not this job's buffer
    have distinct := owned.captures.nodup_iff.mpr List.nodup_range
    have other : index ≠ job.captureIndex :=
      (List.nodup_append.mp distinct).2.2 index queued _ (List.mem_map_of_mem member)
    exact carries.untouched (List.getElem?_modify_ne _ _ other) rfl rfl (fun _ => id) id id
  | frame head queued =>
    rcases owned.dequeue head queued with same | ⟨frame, content, captured⟩
    · rw [same]
      exact refines.carry refines.sound refines.closed rfl rfl rfl fun _ _ _ carries =>
        carries.untouched rfl rfl rfl (fun _ => id) id id
    · exact refines.capture owned head content captured
  | timeout | error =>
    exact refines.carry refines.sound refines.closed rfl rfl rfl fun _ _ _ carries =>
      carries.untouched rfl rfl rfl (fun _ => id) id id
  | stop head =>
    refine refines.carry (by simp) (by simp) (by simp only [inflight, head]) rfl rfl
      fun _ _ _ carries => ?_
    exact carries.untouched rfl rfl rfl (fun _ => id) id id
  | resume waiting ready =>
    exact refines.resume encodes emits_loop owned (by simp only [inflight, waiting]) (Or.inl rfl) ready
  | resumeDrain waiting ready =>
    exact refines.resume encodes emits_drain owned (by simp only [inflight, waiting]) (Or.inr rfl) ready
  | drain draining pending =>
    refine refines.carry (by simp) (by simp) (by simp only [inflight, draining, pending]) rfl rfl
      fun _ _ _ carries => carries.untouched rfl rfl rfl (fun _ => id) id id
  | close draining pending =>
    have empty : inflight state = [] := by simp only [inflight, draining, pending]
    refine refines.carry (by simp) (fun _ => empty) (by simp only [inflight, draining, pending]) rfl rfl
      fun job member => by rw [empty] at member; cases member
  | begin waiting => exact refines.begin owned waiting
  | finish running => exact refines.finish owned running

/-- The two invariants together, over whole runs. -/
structure Pipelined (calls : Calls Frame Tensor Group Image Byte Deep Enc) (threads : Nat)
    (initial : Sink Byte Deep Enc) (state : State Frame Tensor Group Image Byte Deep Enc) : Prop where
  owned : Owned threads state
  refines : Refines calls initial state

theorem Pipelined.reachable (encodes : Encodes calls) (pipelined : Pipelined calls threads initial start)
    (reached : Reachable (step calls threads) start state) : Pipelined calls threads initial state :=
  reachable_keeps (Pipelined calls threads initial) (fun event _ _ both taken =>
    ⟨step_owned event both.owned taken, step_refines encodes event both.owned both.refines taken⟩)
    pipelined reached

/-! ### The run can always finish -/

/-- The workers can bring the pool to rest without the thread of `run`. -/
theorem pool_rests (encodes : Encodes calls) (pipelined : Pipelined calls threads initial state) :
    ∃ next, Reachable (step calls threads) state next ∧ next.tasks = [] ∧ next.running = [] ∧
      next.control = state.control ∧ next.captured = state.captured := by
  induction work : 2 * state.tasks.length + state.running.length using Nat.strong_induction_on
    generalizing state with
  | h total ih =>
    have continues {event : Event Frame} {task : Task} {middle : State Frame Tensor Group Image Byte Deep Enc}
        (taken : step calls threads event state = some middle) (worked : Worked task state middle)
        (less : 2 * middle.tasks.length + middle.running.length < total) :
        ∃ next, Reachable (step calls threads) state next ∧ next.tasks = [] ∧ next.running = [] ∧
          next.control = state.control ∧ next.captured = state.captured := by
      have first : Reachable (step calls threads) state middle := (Reachable.refl state).extend taken
      obtain ⟨next, rest, tasks, running, control, captured⟩ :=
        ih _ less (pipelined.reachable encodes first) rfl
      exact ⟨next, first.trans rest, tasks, running, control.trans worked.control,
        captured.trans worked.captured⟩
    cases running : state.running with
    | cons task others =>
      have taken : state.running[0]? = some task := by rw [running]; rfl
      have finished : step calls threads (.finish 0) state = some (finishTask calls task
          { state with running := state.running.eraseIdx 0 }) := by
        simp only [step, taken, Option.map_some]
      refine continues finished (finishTask_worked calls taken) ?_
      rw [(finishTask_pool calls _ _).1, (finishTask_pool calls _ _).2]
      simp only [running, List.eraseIdx_cons_zero, List.length_cons] at work ⊢
      omega
    | nil =>
      cases tasks : state.tasks with
      | nil => exact ⟨state, .refl _, tasks, running, rfl, rfl⟩
      | cons task rest =>
        have room : state.running.length < threads := by
          rw [running]
          exact Nat.zero_lt_of_lt pipelined.owned.room
        have begun : step calls threads .begin state = some (beginTask calls task
            { state with tasks := rest }) := by
          simp only [step, tasks, if_pos room]
        refine continues begun (beginTask_worked calls tasks) ?_
        have pool := beginTask_pool calls task { state with tasks := rest }
        rw [tasks, running, List.length_cons, List.length_nil] at work
        rcases pool.2 with same | extended
        · rw [pool.1, same, running]; simp only [List.length_nil]; omega
        · rw [pool.1, extended, running]; simp only [List.nil_append, List.length_singleton]; omega

/-- With the pool at rest every job in flight is ready. -/
theorem Refines.ready (refines : Refines calls initial state) (tasks : state.tasks = [])
    (running : state.running = []) (member : job ∈ inflight state) :
    ∃ ret, state.promises[job.future]? = some (some ret) := by
  obtain ⟨_, _, _, carried, _⟩ := refines.refined
  obtain ⟨position, inside, rfl⟩ := List.getElem_of_mem member
  obtain ⟨_, _, _, _, stage⟩ := (carried.get inside (by rw [← carried.length_eq]; exact inside)).worker
  cases stage with
  | queued task => rw [tasks] at task; cases task
  | running task _ => rw [running] at task; cases task
  | ready settled _ => exact ⟨_, settled⟩

/-- With the pool at rest `future.get()` returns, and the job is finished. -/
theorem Pipelined.finishes {skip : Int → Bool} (onward : Control) (job : PendingJob)
    (encodes : Encodes calls) (emits : ∀ size : Int, 0 < size → skip size = false) (pipelined : Pipelined calls threads initial state)
    (tasks : state.tasks = []) (running : state.running = [])
    (held : inflight state = job :: state.pendingJobs) :
    ∃ ret, state.promises[job.future]? = some (some ret) ∧
      Finished onward job state (finishJob calls skip onward job ret state) ∧
      (finishJob calls skip onward job ret state).control = onward := by
  have flying : job ∈ inflight state := by rw [held]; exact .head _
  obtain ⟨ret, ready⟩ := pipelined.refines.ready tasks running flying
  obtain ⟨_, _, _, carried, _⟩ := pipelined.refines.refined
  rw [held] at carried
  cases carried with
  | cons first _ =>
    have same := pipelined.owned.yolo job flying
    obtain ⟨yolo, worker, _⟩ := first.worker
    exact ⟨ret, ready, finishJob_finished calls skip onward ret first.content (same ▸ worker),
      (finishJob_sink onward encodes emits same first ready fun task member =>
        (pipelined.owned.owned task member).1).2⟩

theorem step_stop (head : state.control = .head) :
    step calls threads .stop state = some { state with control := .draining } := by simp only [step, head]

theorem step_waiting {ret : Int} (waiting : state.control = .waiting job)
    (ready : state.promises[job.future]? = some (some ret)) :
    step calls threads .resume state = some (finishLoop calls job ret state) := by
  simp only [step, waiting, ready, Option.join_some, Option.map_some]

theorem step_drainWaiting {ret : Int} (waiting : state.control = .drainWaiting job)
    (ready : state.promises[job.future]? = some (some ret)) :
    step calls threads .resume state = some (finishDrain calls job ret state) := by
  simp only [step, waiting, ready, Option.join_some, Option.map_some]

theorem step_drain {rest : List PendingJob} (draining : state.control = .draining)
    (pending : state.pendingJobs = job :: rest) :
    step calls threads .drain state =
      some { state with pendingJobs := rest, control := .drainWaiting job } := by
  simp only [step, draining, pending]

theorem step_close (draining : state.control = .draining) (pending : state.pendingJobs = []) :
    step calls threads .drain state =
      some { state with buffers := [], queued := [], control := .closed } := by
  simp only [step, draining, pending]

theorem drains (encodes : Encodes calls) (pipelined : Pipelined calls threads initial state)
    (tasks : state.tasks = []) (running : state.running = []) (draining : state.control = .draining) :
    ∃ final, Reachable (step calls threads) state final ∧ final.control = .closed ∧
      final.captured = state.captured := by
  induction pending : state.pendingJobs generalizing state with
  | nil => exact ⟨_, (Reachable.refl state).extend (step_close draining pending), rfl, rfl⟩
  | cons job rest ih =>
    have popped : step calls threads .drain state =
        some { state with pendingJobs := rest, control := .drainWaiting job } := step_drain draining pending
    have first := (Reachable.refl state).extend popped
    obtain ⟨ret, ready, effect, control⟩ := (pipelined.reachable encodes first).finishes
      .draining job encodes emits_drain tasks running rfl
    have second := first.extend (step_drainWaiting rfl ready)
    obtain ⟨final, later, closed, captured⟩ := ih (pipelined.reachable encodes second)
      (effect.tasks.trans tasks) (effect.running.trans running) control effect.pendingJobs
    exact ⟨final, second.trans later, closed, captured.trans effect.captured⟩

/-- From every state of a run some schedule of the workers and of the thread of
`run` ends it without capturing another frame: no `future.get()` waits for ever. -/
theorem closes (encodes : Encodes calls) (pipelined : Pipelined calls threads initial state) :
    ∃ final, Reachable (step calls threads) state final ∧ final.control = .closed ∧
      final.captured = state.captured := by
  obtain ⟨rested, reached, tasks, running, control, captured⟩ := pool_rests encodes pipelined
  have kept := pipelined.reachable encodes reached
  have stopped {stopping : State Frame Tensor Group Image Byte Deep Enc}
      (reached : Reachable (step calls threads) state stopping) (tasks : stopping.tasks = [])
      (running : stopping.running = []) (draining : stopping.control = .draining)
      (captured : stopping.captured = state.captured) :
      ∃ final, Reachable (step calls threads) state final ∧ final.control = .closed ∧
        final.captured = state.captured := by
    obtain ⟨final, later, closed, same⟩ :=
      drains encodes (pipelined.reachable encodes reached) tasks running draining
    exact ⟨final, reached.trans later, closed, same.trans captured⟩
  cases position : rested.control with
  | head => exact stopped (reached.extend (step_stop position)) tasks running rfl captured
  | waiting job =>
    obtain ⟨ret, ready, effect, head⟩ := kept.finishes .head job encodes emits_loop tasks running
      (by simp only [inflight, position])
    have resumed := reached.extend (step_waiting position ready)
    exact stopped (resumed.extend (step_stop head)) (effect.tasks.trans tasks)
      (effect.running.trans running) rfl (effect.captured.trans captured)
  | draining => exact stopped reached tasks running position captured
  | drainWaiting job =>
    obtain ⟨ret, ready, effect, draining⟩ := kept.finishes .draining job encodes emits_drain tasks running
      (by simp only [inflight, position])
    exact stopped (reached.extend (step_drainWaiting position ready)) (effect.tasks.trans tasks)
      (effect.running.trans running) draining (effect.captured.trans captured)
  | closed => exact ⟨rested, reached, position, captured⟩
  | aborted => exact absurd position kept.refines.sound

/-- The pipelined run is the plain loop. Whatever the order in which workers take
and finish jobs, a run that has ended leaves the tracker, the encoder and the
payloads exactly as the plain loop over the captured frames does; at every moment
before, it has processed a prefix of them; and it can always be brought to its
end without capturing more. -/
theorem run_eq_plainLoop (encodes : Encodes calls) (positive : 1 ≤ threads) (starts : Starts threads start)
    (reached : Reachable (step calls threads) start state) :
    (state.control = .closed → state.sink = plainLoop calls state.captured start.sink) ∧
    (∃ done pending, state.captured = done ++ pending ∧ pending.length = (inflight state).length ∧
      state.sink = plainLoop calls done start.sink) ∧
    ∃ final, Reachable (step calls threads) state final ∧ final.control = .closed ∧
      final.captured = state.captured ∧ final.sink = plainLoop calls state.captured start.sink := by
  have pipelined : Pipelined calls threads start.sink state :=
    Pipelined.reachable encodes ⟨starts.owned positive, starts.refines⟩ reached
  have ended {final : State Frame Tensor Group Image Byte Deep Enc}
      (both : Pipelined calls threads start.sink final) (closed : final.control = .closed) :
      final.sink = plainLoop calls final.captured start.sink := by
    obtain ⟨done, frames, split, carried, plain⟩ := both.refines.refined
    rw [both.refines.closed closed] at carried
    cases carried
    rw [split, List.append_nil]
    exact plain
  refine ⟨ended pipelined, ?_, ?_⟩
  · obtain ⟨done, frames, split, carried, plain⟩ := pipelined.refines.refined
    exact ⟨done, frames, split, carried.length_eq.symm, plain⟩
  · obtain ⟨final, later, closed, captured⟩ := closes encodes pipelined
    refine ⟨final, later, closed, captured, ?_⟩
    rw [← captured]
    exact ended (pipelined.reachable encodes later) closed

theorem sampleCalls_encodes : Encodes sampleCalls := by
  intro encoder image encodeData
  simp [sampleCalls, startCode]

/-- Two workers, four frames: the second fails in the network, the third fails to
render, and the fourth is finished before the third. -/
theorem run_eq_plainLoop_sample :
    ∃ state, Reachable (step sampleCalls 2) (sampleStart 2 [some 8, some 5, some 7]) state ∧
      state.captured = [8, 5, 7, 3] ∧ state.sink.payloads = [[0, 16], [1, 21]] ∧
      state.sink = plainLoop sampleCalls state.captured ⟨.bytetrack 0, 0, [], []⟩ := by
  let schedule : List (Event Nat) :=
    [.frame 0, .frame 1, .begin, .begin, .finish 0, .resume, .fill 0 3, .frame 2, .resume, .frame 0,
      .begin, .begin, .finish 1, .finish 0, .resume, .stop, .drain, .resume, .drain]
  have outcome : (run (step sampleCalls 2) schedule (sampleStart 2 [some 8, some 5, some 7])).map
      (fun state => (state.control, state.captured, state.sink.payloads)) =
        some (.closed, [8, 5, 7, 3], [[0, 16], [1, 21]]) := by decide
  obtain ⟨state, executed, observed⟩ := Option.map_eq_some_iff.mp outcome
  simp only [Prod.mk.injEq] at observed
  obtain ⟨closed, captured, payloads⟩ := observed
  have reached : Reachable (step sampleCalls 2) (sampleStart 2 [some 8, some 5, some 7]) state :=
    ⟨schedule, executed⟩
  exact ⟨state, reached, captured, payloads,
    (run_eq_plainLoop sampleCalls_encodes (by decide) (sampleStart_starts _ _) reached).1 closed⟩

end Yolov5Rknn.TransCoder
