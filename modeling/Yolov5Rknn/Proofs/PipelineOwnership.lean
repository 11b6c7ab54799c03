import Yolov5Rknn.Logic.RoundRobin
import Yolov5Rknn.TransCoder
import Mathlib.Data.List.Perm.Basic

/-! Who owns a capture buffer, a worker object and an output DMA buffer while
`TransCoder::run` and its pool run. The jobs in flight occupy the most recent
round-robin slots, so the slot handed out next is never one of theirs. -/

namespace Yolov5Rknn.TransCoder
open Transition RoundRobin

variable {Frame Tensor Group Image Byte Deep Enc : Type}
  {calls : Calls Frame Tensor Group Image Byte Deep Enc} {threads : Nat}
  {state next start : State Frame Tensor Group Image Byte Deep Enc}

/-- The ownership invariant. `captures` says that every capture buffer is queued
with the driver or held by one job, and by nothing else. -/
structure Owned (threads : Nat) (state : State Frame Tensor Group Image Byte Deep Enc) : Prop where
  workers : state.rkyoloList.length = threads
  outputs : state.outputDmaBuffers.length = threads
  cursor : state.curYolo ≤ threads
  room : state.pendingJobs.length < threads
  slots : (inflight state).map PendingJob.slot = window threads state.curYolo (inflight state).length
  captures : List.Perm (state.queued ++ (inflight state).map PendingJob.captureIndex)
    (List.range state.buffers.length)
  mapped : ∀ job ∈ inflight state, ∃ frame, state.buffers[job.captureIndex]? = some (some frame)
  yolo : ∀ job ∈ inflight state, job.yolo = job.slot
  futures : ((inflight state).map PendingJob.future).Nodup
  promised : ∀ job ∈ inflight state, job.future < state.promises.length
  distinct : ((state.tasks ++ state.running).map Task.promise).Nodup
  owned : ∀ task ∈ state.tasks ++ state.running, state.promises[task.promise]? = some none ∧
    ∃ job ∈ inflight state, job.future = task.promise ∧ job.slot = task.yolo

theorem Starts.owned (positive : 1 ≤ threads) (starts : Starts threads state) : Owned threads state := by
  have empty : inflight state = [] := by simp [inflight, starts.control, starts.pendingJobs]
  constructor
  case workers => exact starts.workers
  case outputs => exact starts.outputs
  case cursor => rw [starts.curYolo]; omega
  case room => rw [starts.pendingJobs]; exact positive
  case slots => simp [empty]
  case captures => simp [empty, starts.queued]
  case mapped => simp [empty]
  case yolo => simp [empty]
  case futures => simp [empty]
  case promised => simp [empty]
  case distinct => simp [starts.tasks, starts.running]
  case owned => simp [starts.tasks, starts.running]

/-! ### The tail of the loop body -/

/-- What everything after `future.get()` may change outside the sink: the buffer
of the finished job goes back to the driver and one output buffer is rewritten. -/
structure Finished (onward : Control) (finished : PendingJob)
    (state next : State Frame Tensor Group Image Byte Deep Enc) : Prop where
  curYolo : next.curYolo = state.curYolo
  rkyoloList : next.rkyoloList = state.rkyoloList
  outputs : next.outputDmaBuffers = state.outputDmaBuffers ∨
    ∃ yolo outbuf image, state.rkyoloList[finished.yolo]? = some yolo ∧ yolo.outbuf = some outbuf ∧
      next.outputDmaBuffers = state.outputDmaBuffers.set outbuf image
  buffers : next.buffers = state.buffers
  queued : next.queued = state.queued ++ [finished.captureIndex]
  pendingJobs : next.pendingJobs = state.pendingJobs
  promises : next.promises = state.promises
  tasks : next.tasks = state.tasks
  running : next.running = state.running
  captured : next.captured = state.captured
  control : next.control = onward ∨ next.control = .aborted

theorem qbuf_inside {index : Nat} (inside : index < state.buffers.length) :
    state.qbuf index = { state with queued := state.queued ++ [index] } := by
  simp [State.qbuf, inside]

theorem update_isSome (calls : Calls Frame Tensor Group Image Byte Deep Enc) 
    (tracker : Tracker Byte Deep) (frame : Frame) (group : Group) :
    ∃ result, tracker.update calls (some frame) group = some result := by
  cases tracker <;> exact ⟨_, rfl⟩

theorem finishJob_finished (calls : Calls Frame Tensor Group Image Byte Deep Enc) (skip : Int → Bool)
    (onward : Control) {finished : PendingJob} (ret : Int) {frame : Frame} {yolo : RkYolo Tensor Group}
    (mapped : state.buffers[finished.captureIndex]? = some (some frame))
    (worker : state.rkyoloList[finished.yolo]? = some yolo) :
    Finished onward finished state (finishJob calls skip onward finished ret state) := by
  have inside : finished.captureIndex < state.buffers.length := (List.getElem?_eq_some_iff.mp mapped).1
  obtain ⟨⟨tracker, overlay⟩, tracked⟩ :=
    update_isSome calls state.sink.tracker frame yolo.lastDetectResultGroup
  unfold finishJob
  simp only [worker, mapped, Option.join_some, tracked]
  split
  · rw [qbuf_inside inside]
    constructor
    case outputs => exact Or.inl rfl
    all_goals simp
  · split
    next outbuf image bound _ =>
      rw [qbuf_inside (by exact inside)]
      dsimp only
      split
      · constructor
        case outputs => exact Or.inr ⟨yolo, outbuf, _, worker, bound, rfl⟩
        all_goals simp
      · split
        · constructor
          case outputs => exact Or.inr ⟨yolo, outbuf, _, worker, bound, rfl⟩
          all_goals simp
        · split
          · constructor
            case outputs => exact Or.inr ⟨yolo, outbuf, _, worker, bound, rfl⟩
            all_goals simp
          · split
            all_goals
              constructor
              case outputs => exact Or.inr ⟨yolo, outbuf, _, worker, bound, rfl⟩
              all_goals simp
    next =>
      rw [qbuf_inside (by exact inside)]
      constructor
      case outputs => exact Or.inl rfl
      all_goals simp

theorem Owned.finish {onward : Control} {finished : PendingJob} {ret : Int} (owned : Owned threads state)
    (held : inflight state = finished :: state.pendingJobs)
    (ready : state.promises[finished.future]? = some (some ret))
    (effect : Finished onward finished state next) (idle : inflight next = next.pendingJobs) :
    Owned threads next := by
  have remaining : inflight next = state.pendingJobs := idle.trans effect.pendingJobs
  have later : ∀ job ∈ inflight next, job ∈ inflight state := by
    intro job member
    rw [held]
    exact .tail _ (remaining ▸ member)
  constructor
  case workers => rw [effect.rkyoloList]; exact owned.workers
  case outputs =>
    rcases effect.outputs with same | ⟨_, _, _, _, _, changed⟩
    · rw [same]; exact owned.outputs
    · rw [changed, List.length_set]; exact owned.outputs
  case cursor => rw [effect.curYolo]; exact owned.cursor
  case room => rw [effect.pendingJobs]; exact owned.room
  case slots =>
    have turns := congrArg List.tail owned.slots
    simp only [held, List.map_cons, List.tail_cons, List.length_cons] at turns
    rw [remaining, effect.curYolo, turns]
    exact window_tail owned.room
  case captures =>
    rw [remaining, effect.queued, effect.buffers, List.append_assoc, List.singleton_append]
    simpa only [held, List.map_cons] using owned.captures
  case mapped => intro job member; rw [effect.buffers]; exact owned.mapped job (later job member)
  case yolo => exact fun job member => owned.yolo job (later job member)
  case futures =>
    have unique := owned.futures
    rw [held, List.map_cons, List.nodup_cons] at unique
    rw [remaining]
    exact unique.2
  case promised => intro job member; rw [effect.promises]; exact owned.promised job (later job member)
  case distinct => rw [effect.tasks, effect.running]; exact owned.distinct
  case owned =>
    rw [effect.tasks, effect.running, effect.promises, remaining]
    intro task member
    obtain ⟨unset, job, flying, future, slot⟩ := owned.owned task member
    rw [held, List.mem_cons] at flying
    rcases flying with rfl | flying
    -- the finished job is no longer anybody's task
    · rw [← future, ready] at unset
      cases unset
    · exact ⟨unset, job, flying, future, slot⟩

/-! ### The pool -/

/-- What a worker may change besides its own objects: it keeps its task, or
settles the promise of it. -/
structure Worked (task : Task) (state next : State Frame Tensor Group Image Byte Deep Enc) : Prop where
  curYolo : next.curYolo = state.curYolo
  workers : next.rkyoloList.length = state.rkyoloList.length
  outputs : next.outputDmaBuffers.length = state.outputDmaBuffers.length
  buffers : next.buffers = state.buffers
  queued : next.queued = state.queued
  pendingJobs : next.pendingJobs = state.pendingJobs
  control : next.control = state.control
  captured : next.captured = state.captured
  sink : next.sink = state.sink
  tasks : next.promises = state.promises ∧
      (next.tasks ++ next.running).Perm (state.tasks ++ state.running) ∨
    (∃ ret, next.promises = state.promises.set task.promise (some ret)) ∧
      (task :: (next.tasks ++ next.running)).Perm (state.tasks ++ state.running)

theorem Worked.inflight {task : Task} (worked : Worked task state next) : inflight next = inflight state := by
  simp only [TransCoder.inflight, worked.control, worked.pendingJobs]

theorem beginTask_worked (calls : Calls Frame Tensor Group Image Byte Deep Enc) {task : Task}
    {rest : List Task} (waiting : state.tasks = task :: rest) :
    Worked task state (beginTask calls task { state with tasks := rest }) := by
  have taken : (rest ++ (state.running ++ [task])).Perm (state.tasks ++ state.running) := by
    rw [waiting, ← List.append_assoc]
    exact List.perm_append_comm
  have removed : (task :: (rest ++ state.running)).Perm (state.tasks ++ state.running) := by rw [waiting]; rfl
  unfold beginTask
  split
  · constructor
    case tasks => exact Or.inr ⟨⟨_, rfl⟩, removed⟩
    all_goals rfl
  · dsimp only
    split
    · constructor
      case tasks => exact Or.inr ⟨⟨_, rfl⟩, removed⟩
      all_goals simp [State.settle]
    · constructor
      case tasks => exact Or.inl ⟨rfl, taken⟩
      all_goals simp

theorem finishTask_worked (calls : Calls Frame Tensor Group Image Byte Deep Enc) {task : Task}
    {position : Nat} (running : state.running[position]? = some task) :
    Worked task state (finishTask calls task { state with running := state.running.eraseIdx position }) := by
  obtain ⟨inside, rfl⟩ := List.getElem?_eq_some_iff.mp running
  have removed : (state.running[position] :: (state.tasks ++ state.running.eraseIdx position)).Perm
      (state.tasks ++ state.running) :=
    List.perm_middle.symm.trans ((List.getElem_cons_eraseIdx_perm inside).append_left _)
  have settled (worked : State Frame Tensor Group Image Byte Deep Enc) (ret : Int)
      (objects : worked = { state with
        running := state.running.eraseIdx position
        rkyoloList := worked.rkyoloList
        outputDmaBuffers := worked.outputDmaBuffers })
      (workers : worked.rkyoloList.length = state.rkyoloList.length)
      (outputs : worked.outputDmaBuffers.length = state.outputDmaBuffers.length) :
      Worked state.running[position] state (worked.settle state.running[position].promise ret) := by
    rw [objects]
    constructor
    case tasks => exact Or.inr ⟨⟨_, rfl⟩, removed⟩
    all_goals first | rfl | assumption
  unfold finishTask
  split
  · exact settled _ _ rfl rfl rfl
  · dsimp only
    split
    · split
      · exact settled _ _ rfl rfl (by simp)
      · split
        · exact settled _ _ rfl rfl (by simp)
        · exact settled _ _ rfl (by simp) (by simp)
    · exact settled _ _ rfl rfl rfl

theorem Owned.work {task : Task} (owned : Owned threads state) (worked : Worked task state next) :
    Owned threads next := by
  have flying := worked.inflight
  constructor
  case workers => rw [worked.workers]; exact owned.workers
  case outputs => rw [worked.outputs]; exact owned.outputs
  case cursor => rw [worked.curYolo]; exact owned.cursor
  case room => rw [worked.pendingJobs]; exact owned.room
  case slots => rw [flying, worked.curYolo]; exact owned.slots
  case captures => rw [flying, worked.queued, worked.buffers]; exact owned.captures
  case mapped => rw [flying, worked.buffers]; exact owned.mapped
  case yolo => rw [flying]; exact owned.yolo
  case futures => rw [flying]; exact owned.futures
  case promised =>
    rw [flying]
    have length : next.promises.length = state.promises.length := by
      rcases worked.tasks with ⟨same, _⟩ | ⟨⟨_, settled⟩, _⟩
      · rw [same]
      · rw [settled, List.length_set]
    rw [length]
    exact owned.promised
  case distinct =>
    rcases worked.tasks with ⟨_, same⟩ | ⟨_, removed⟩
    · exact (same.map _).nodup_iff.mpr owned.distinct
    · exact ((removed.map _).nodup_iff.mpr owned.distinct).of_cons
  case owned =>
    rw [flying]
    intro other member
    rcases worked.tasks with ⟨promises, same⟩ | ⟨⟨_, settled⟩, removed⟩
    · rw [promises]
      exact owned.owned other (same.mem_iff.mp member)
    · have apart := (removed.map Task.promise).nodup_iff.mpr owned.distinct
      rw [List.map_cons, List.nodup_cons] at apart
      have different : task.promise ≠ other.promise := fun same =>
        apart.1 (same ▸ List.mem_map_of_mem member)
      rw [settled, List.getElem?_set_ne different]
      exact owned.owned other (removed.mem_iff.mp (.tail _ member))

/-! ### The head of the loop -/

theorem Owned.nextSlot_lt (owned : Owned threads state) : state.nextSlot threads < threads := by
  have := owned.room
  unfold State.nextSlot
  split <;> omega

theorem Owned.window_nextSlot (owned : Owned threads state) (count : Nat) (fits : count ≤ threads) :
    window threads state.curYolo count = window threads (state.nextSlot threads) count := by
  have := owned.cursor
  unfold State.nextSlot
  split
  next full => rw [show state.curYolo = threads by omega, window_wrap fits]
  next => rfl

theorem Owned.wrap (owned : Owned threads state) (head : state.control = .head) :
    Owned threads (state.wrap threads) := by
  have idle : inflight state = state.pendingJobs := by simp [inflight, head]
  have same : inflight (state.wrap threads) = inflight state := rfl
  refine { owned with cursor := owned.nextSlot_lt.le, slots := ?_ }
  rw [same, owned.slots, idle]
  exact owned.window_nextSlot _ owned.room.le

theorem Owned.queued_inside (owned : Owned threads state) {index : Nat} (queued : index ∈ state.queued) :
    index < state.buffers.length :=
  List.mem_range.mp (owned.captures.mem_iff.mp (List.mem_append_left _ queued))

/-- What handing `frame`, in capture buffer `index`, to the next worker changes. -/
structure Captured (threads index : Nat) (frame : Frame)
    (state next : State Frame Tensor Group Image Byte Deep Enc) : Prop where
  curYolo : next.curYolo = state.nextSlot threads + 1
  rkyoloList : ∃ yolo, state.rkyoloList[state.nextSlot threads]? = some yolo ∧
    next.rkyoloList = state.rkyoloList.set (state.nextSlot threads)
      { yolo with inbuf := some index, outbuf := some (state.nextSlot threads) }
  outputs : next.outputDmaBuffers = state.outputDmaBuffers
  buffers : next.buffers = state.buffers
  queued : next.queued = state.queued.erase index
  inflight : inflight next = state.pendingJobs ++
    [⟨state.nextSlot threads, index, state.nextSlot threads, state.promises.length⟩]
  room : next.pendingJobs.length < threads
  promises : next.promises = state.promises ++ [none]
  tasks : next.tasks = state.tasks ++ [⟨state.promises.length, state.nextSlot threads⟩]
  running : next.running = state.running
  sink : next.sink = state.sink
  captured : next.captured = state.captured ++ [frame]
  control : next.control = .head ∨
    threads ≤ state.pendingJobs.length + 1 ∧ ∃ finished, next.control = .waiting finished

/-- The state from which `capture` continues. -/
abbrev dequeued (threads index : Nat) (state : State Frame Tensor Group Image Byte Deep Enc) :
    State Frame Tensor Group Image Byte Deep Enc :=
  { state.wrap threads with queued := state.queued.erase index }

theorem popWhenFull_cases (threads : Nat) (state : State Frame Tensor Group Image Byte Deep Enc)
    (pending : state.pendingJobs ≠ []) :
    threads ≤ state.pendingJobs.length ∧ (∃ oldest rest, state.pendingJobs = oldest :: rest ∧
      popWhenFull threads state = { state with pendingJobs := rest, control := .waiting oldest }) ∨
    state.pendingJobs.length < threads ∧ popWhenFull threads state = state := by
  unfold popWhenFull
  split
  next full =>
    cases jobs : state.pendingJobs with
    | nil => exact absurd jobs pending
    | cons oldest rest => exact Or.inl ⟨by simpa [jobs] using full, oldest, rest, rfl, rfl⟩
  next small => exact Or.inr ⟨by omega, rfl⟩

theorem capture_captured {index : Nat} {frame : Frame} (owned : Owned threads state)
    (head : state.control = .head) (content : state.buffers[index]? = some (some frame)) :
    Captured threads index frame state (capture threads index (dequeued threads index state)) := by
  have inside := owned.nextSlot_lt
  obtain ⟨yolo, worker⟩ : ∃ yolo, state.rkyoloList[state.nextSlot threads]? = some yolo :=
    ⟨_, List.getElem?_eq_getElem (by rw [owned.workers]; exact inside)⟩
  obtain ⟨image, output⟩ : ∃ image, state.outputDmaBuffers[state.nextSlot threads]? = some image :=
    ⟨_, List.getElem?_eq_getElem (by rw [owned.outputs]; exact inside)⟩
  have room := owned.room
  let pushed := enqueue (state.nextSlot threads) index yolo frame (dequeued threads index state)
  have reaches : capture threads index (dequeued threads index state) = popWhenFull threads pushed := by
    unfold capture
    simp only [State.wrap, content, worker, output]
    rfl
  have jobs : pushed.pendingJobs = state.pendingJobs ++
      [⟨state.nextSlot threads, index, state.nextSlot threads, state.promises.length⟩] := rfl
  rw [reaches]
  rcases popWhenFull_cases threads pushed (by simp [jobs]) with
    ⟨full, oldest, rest, pending, popped⟩ | ⟨small, popped⟩
  · rw [popped]
    constructor
    case rkyoloList => exact ⟨yolo, worker, rfl⟩
    case room =>
      have length := congrArg List.length (jobs.symm.trans pending)
      simp only [List.length_append, List.length_cons, List.length_nil] at length
      simp only
      omega
    case control => exact Or.inr ⟨by simpa [jobs] using full, _, rfl⟩
    case inflight => exact pending.symm.trans jobs
    all_goals rfl
  · rw [popped]
    constructor
    case rkyoloList => exact ⟨yolo, worker, rfl⟩
    case room => exact small
    case control => exact Or.inl head
    case inflight =>
      have idle : pushed.control = .head := head
      simp only [TransCoder.inflight, idle, jobs]
    all_goals rfl

theorem Owned.capture {index : Nat} {frame : Frame} (owned : Owned threads state)
    (head : state.control = .head) (queued : index ∈ state.queued)
    (content : state.buffers[index]? = some (some frame))
    (effect : Captured threads index frame state next) : Owned threads next := by
  have idle : inflight state = state.pendingJobs := by simp [inflight, head]
  have inside := owned.nextSlot_lt
  constructor
  case workers =>
    obtain ⟨_, _, list⟩ := effect.rkyoloList
    rw [list, List.length_set]
    exact owned.workers
  case outputs => rw [effect.outputs]; exact owned.outputs
  case cursor => rw [effect.curYolo]; exact inside
  case room => exact effect.room
  case slots =>
    have turns := owned.slots
    rw [idle, owned.window_nextSlot _ owned.room.le] at turns
    rw [effect.inflight, effect.curYolo, List.map_append, turns, List.length_append,
      List.length_singleton, window_push inside owned.room]
    rfl
  case captures =>
    rw [effect.inflight, effect.queued, effect.buffers, List.map_append, ← List.append_assoc]
    refine List.perm_append_comm.trans (.trans ?_ owned.captures)
    rw [List.map_singleton, List.singleton_append, ← List.cons_append, idle]
    exact (List.perm_cons_erase queued).symm.append_right _
  case mapped =>
    rw [effect.inflight, effect.buffers]
    intro job member
    rcases List.mem_append.mp member with member | member
    · exact owned.mapped job (idle ▸ member)
    · rw [List.mem_singleton.mp member]
      exact ⟨frame, content⟩
  case yolo =>
    rw [effect.inflight]
    intro job member
    rcases List.mem_append.mp member with member | member
    · exact owned.yolo job (idle ▸ member)
    · rw [List.mem_singleton.mp member]
  case futures =>
    rw [effect.inflight, List.map_append, List.map_singleton, ← idle]
    refine List.nodup_append.mpr ⟨owned.futures, by simp, ?_⟩
    intro future member fresh last
    obtain ⟨job, flying, rfl⟩ := List.mem_map.mp member
    have old := owned.promised job flying
    rw [List.mem_singleton.mp last]
    exact old.ne
  case promised =>
    rw [effect.inflight, effect.promises]
    intro job member
    rw [List.length_append, List.length_singleton]
    rcases List.mem_append.mp member with member | member
    · exact Nat.lt_succ_of_lt (owned.promised job (idle ▸ member))
    · rw [List.mem_singleton.mp member]
      exact Nat.lt_succ_self _
  case distinct =>
    have moved : (next.tasks ++ next.running).Perm
        (⟨state.promises.length, state.nextSlot threads⟩ :: (state.tasks ++ state.running)) := by
      rw [effect.tasks, effect.running, List.append_assoc, List.singleton_append]
      exact List.perm_middle
    refine (moved.map _).nodup_iff.mpr (List.nodup_cons.mpr ⟨?_, owned.distinct⟩)
    intro member
    obtain ⟨task, present, same⟩ := List.mem_map.mp member
    have unset := (owned.owned task present).1
    rw [same, List.getElem?_eq_none (Nat.le_refl _)] at unset
    cases unset
  case owned =>
    intro task member
    rw [effect.tasks, effect.running, List.append_assoc, List.mem_append, List.singleton_append,
      List.mem_cons] at member
    rw [effect.promises, effect.inflight]
    have old (present : task ∈ state.tasks ++ state.running) :
        (state.promises ++ [none])[task.promise]? = some none ∧
          ∃ job ∈ state.pendingJobs ++ [⟨state.nextSlot threads, index, state.nextSlot threads,
            state.promises.length⟩], job.future = task.promise ∧ job.slot = task.yolo := by
      obtain ⟨unset, job, flying, same⟩ := owned.owned task present
      have inside := (List.getElem?_eq_some_iff.mp unset).1
      rw [List.getElem?_append_left inside]
      exact ⟨unset, job, List.mem_append_left _ (idle ▸ flying), same⟩
    rcases member with member | rfl | member
    · exact old (List.mem_append_left _ member)
    · refine ⟨by simp, _, List.mem_append_right _ (List.mem_singleton.mpr rfl), rfl, rfl⟩
    · exact old (List.mem_append_right _ member)

/-- A buffer from the driver goes straight back to it or its frame to the next worker. -/
theorem Owned.dequeue {index : Nat} (owned : Owned threads state) (head : state.control = .head)
    (queued : index ∈ state.queued) :
    TransCoder.capture threads index (dequeued threads index state) =
        { state.wrap threads with queued := state.queued.erase index ++ [index] } ∨
      ∃ frame, state.buffers[index]? = some (some frame) ∧
        Captured threads index frame state (TransCoder.capture threads index (dequeued threads index state)) := by
  have inside := owned.queued_inside queued
  obtain ⟨mapped, content⟩ : ∃ mapped, state.buffers[index]? = some mapped := ⟨_, List.getElem?_eq_getElem inside⟩
  cases mapped with
  | none =>
    left
    unfold TransCoder.capture
    simp only [State.wrap, content]
    exact qbuf_inside inside
  | some frame => exact .inr ⟨frame, content, capture_captured owned head content⟩

/-- A buffer that goes back to the driver. -/
theorem Owned.requeue {index : Nat} (owned : Owned threads state) (head : state.control = .head)
    (queued : index ∈ state.queued) :
    Owned threads { state.wrap threads with queued := state.queued.erase index ++ [index] } := by
  have wrapped := owned.wrap head
  refine { wrapped with captures := ?_ }
  refine List.Perm.trans (List.Perm.append_right _ ?_) wrapped.captures
  exact (List.perm_append_singleton _ _).trans (List.perm_cons_erase queued).symm

/-! ### Every step -/

/-- The steps taken, each with its guard. -/
inductive Stepped (calls : Calls Frame Tensor Group Image Byte Deep Enc) (threads : Nat)
    (state : State Frame Tensor Group Image Byte Deep Enc) :
    Event Frame → State Frame Tensor Group Image Byte Deep Enc → Prop where
  | fill {index content} (queued : index ∈ state.queued) :
    Stepped calls threads state (.fill index content)
      { state with buffers := state.buffers.modify index (Option.map fun _ => content) }
  | frame {index} (head : state.control = .head) (queued : index ∈ state.queued) :
    Stepped calls threads state (.frame index) (capture threads index (dequeued threads index state))
  | timeout (head : state.control = .head) : Stepped calls threads state .timeout (state.wrap threads)
  | error (head : state.control = .head) : Stepped calls threads state .error (state.wrap threads)
  | stop (head : state.control = .head) : Stepped calls threads state .stop { state with control := .draining }
  | resume {job ret} (waiting : state.control = .waiting job)
      (ready : state.promises[job.future]? = some (some ret)) :
    Stepped calls threads state .resume (finishLoop calls job ret state)
  | resumeDrain {job ret} (waiting : state.control = .drainWaiting job)
      (ready : state.promises[job.future]? = some (some ret)) :
    Stepped calls threads state .resume (finishDrain calls job ret state)
  | drain {job rest} (draining : state.control = .draining) (pending : state.pendingJobs = job :: rest) :
    Stepped calls threads state .drain { state with pendingJobs := rest, control := .drainWaiting job }
  | close (draining : state.control = .draining) (pending : state.pendingJobs = []) :
    Stepped calls threads state .drain { state with buffers := [], queued := [], control := .closed }
  | begin {task rest} (waiting : state.tasks = task :: rest) (room : state.running.length < threads) :
    Stepped calls threads state .begin (beginTask calls task { state with tasks := rest })
  | finish {position task} (running : state.running[position]? = some task) :
    Stepped calls threads state (.finish position)
      (finishTask calls task { state with running := state.running.eraseIdx position })

theorem step_stepped {event : Event Frame} (taken : step calls threads event state = some next) :
    Stepped calls threads state event next := by
  cases event with
  | fill index content =>
    simp only [step] at taken
    split at taken
    next queued => cases taken; exact .fill queued
    next => cases taken
  | frame index =>
    simp only [step] at taken
    split at taken
    next head =>
      split at taken
      next queued => cases taken; exact .frame head queued
      next => cases taken
    next => cases taken
  | timeout =>
    simp only [step] at taken
    split at taken
    next head => cases taken; exact .timeout head
    next => cases taken
  | error =>
    simp only [step] at taken
    split at taken
    next head => cases taken; exact .error head
    next => cases taken
  | stop =>
    simp only [step] at taken
    split at taken
    next head => cases taken; exact .stop head
    next => cases taken
  | resume =>
    simp only [step] at taken
    split at taken
    next job waiting =>
      obtain ⟨ret, ready, rfl⟩ := Option.map_eq_some_iff.mp taken
      exact .resume waiting (Option.join_eq_some_iff.mp ready)
    next job waiting =>
      obtain ⟨ret, ready, rfl⟩ := Option.map_eq_some_iff.mp taken
      exact .resumeDrain waiting (Option.join_eq_some_iff.mp ready)
    next => cases taken
  | drain =>
    simp only [step] at taken
    split at taken
    next job rest draining pending => cases taken; exact .drain draining pending
    next draining pending => cases taken; exact .close draining pending
    next => cases taken
  | begin =>
    simp only [step] at taken
    split at taken
    next task rest waiting =>
      split at taken
      next room => cases taken; exact .begin waiting room
      next => cases taken
    next => cases taken
  | finish position =>
    simp only [step] at taken
    obtain ⟨task, running, rfl⟩ := Option.map_eq_some_iff.mp taken
    exact .finish running

/-- A job in flight still has its frame, its worker and its output buffer. -/
theorem Owned.flies {job : PendingJob} (owned : Owned threads state) (flying : job ∈ inflight state) :
    (∃ frame, state.buffers[job.captureIndex]? = some (some frame)) ∧
      (∃ yolo, state.rkyoloList[job.yolo]? = some yolo) ∧ job.slot < state.outputDmaBuffers.length := by
  have turn : job.slot ∈ (inflight state).map PendingJob.slot := List.mem_map_of_mem flying
  rw [owned.slots] at turn
  have inside := window_lt (Nat.zero_lt_of_lt owned.room) _ turn
  refine ⟨owned.mapped job flying, ⟨_, List.getElem?_eq_getElem ?_⟩, ?_⟩
  · rw [owned.workers, owned.yolo job flying]
    exact inside
  · rw [owned.outputs]
    exact inside

theorem step_owned (event : Event Frame) (owned : Owned threads state)
    (taken : step calls threads event state = some next) : Owned threads next := by
  have finished (job : PendingJob) (onward : Control) (skip : Int → Bool) (ret : Int)
      (held : inflight state = job :: state.pendingJobs)
      (idle : onward = .head ∨ onward = .draining)
      (ready : state.promises[job.future]? = some (some ret)) :
      Owned threads (finishJob calls skip onward job ret state) := by
    have flying : job ∈ inflight state := by rw [held]; exact .head _
    obtain ⟨⟨frame, mapped⟩, ⟨yolo, worker⟩, _⟩ := owned.flies flying
    have effect := finishJob_finished calls skip onward ret mapped worker
    refine owned.finish held ready effect ?_
    rcases effect.control with control | control <;> rcases idle with rfl | rfl <;>
      simp only [inflight, control]
  cases step_stepped taken with
  | @fill index content queued =>
    refine { owned with captures := ?_, mapped := ?_ }
    · rw [List.length_modify]
      exact owned.captures
    · intro job flying
      obtain ⟨frame, mapped⟩ := owned.mapped job flying
      rw [List.getElem?_modify, mapped]
      by_cases same : index = job.captureIndex
      · exact ⟨content, by simp [same]⟩
      · exact ⟨frame, by simp [same]⟩
  | frame head queued =>
    rcases owned.dequeue head queued with same | ⟨frame, content, captured⟩
    · rw [same]
      exact owned.requeue head queued
    · exact owned.capture head queued content captured
  | timeout head | error head => exact owned.wrap head
  | stop head =>
    have same : inflight { state with control := Control.draining } = inflight state := by
      simp only [inflight, head]
    exact ⟨owned.workers, owned.outputs, owned.cursor, owned.room, by rw [same]; exact owned.slots,
      by rw [same]; exact owned.captures, by rw [same]; exact owned.mapped,
      by rw [same]; exact owned.yolo, by rw [same]; exact owned.futures,
      by rw [same]; exact owned.promised, owned.distinct, by rw [same]; exact owned.owned⟩
  | resume waiting ready => exact finished _ _ _ _ (by simp only [inflight, waiting]) (Or.inl rfl) ready
  | resumeDrain waiting ready => exact finished _ _ _ _ (by simp only [inflight, waiting]) (Or.inr rfl) ready
  | @drain job rest draining pending =>
    have same : inflight { state with pendingJobs := rest, control := Control.drainWaiting job } =
        inflight state := by simp only [inflight, draining, pending]
    have room : rest.length < threads := by
      have := owned.room
      rw [pending, List.length_cons] at this
      omega
    exact ⟨owned.workers, owned.outputs, owned.cursor, room, by rw [same]; exact owned.slots,
      by rw [same]; exact owned.captures, by rw [same]; exact owned.mapped,
      by rw [same]; exact owned.yolo, by rw [same]; exact owned.futures,
      by rw [same]; exact owned.promised, owned.distinct, by rw [same]; exact owned.owned⟩
  | close draining pending =>
    have empty : inflight state = [] := by simp only [inflight, draining, pending]
    have same : inflight { state with buffers := [], queued := [], control := Control.closed } = [] := by
      simp only [inflight, pending]
    have unowned := owned.owned
    rw [empty] at unowned
    exact ⟨owned.workers, owned.outputs, owned.cursor, owned.room, by simp [same], by simp [same],
      by simp [same], by simp [same], by simp [same], by simp [same], owned.distinct,
      by rw [same]; exact unowned⟩
  | begin waiting => exact owned.work (beginTask_worked calls waiting)
  | finish running => exact owned.work (finishTask_worked calls running)

theorem reachable_owned (positive : 1 ≤ threads) (starts : Starts threads start)
    (reached : Reachable (step calls threads) start state) : Owned threads state :=
  reachable_keeps (Owned threads) (fun event _ _ owned taken => step_owned event owned taken)
    (starts.owned positive) reached

/-- The number of capture buffers is fixed until `v4l2_dmabuf_close`. -/
def Sized (count : Nat) (state : State Frame Tensor Group Image Byte Deep Enc) : Prop :=
  state.control = .closed ∨ state.buffers.length = count

theorem qbuf_buffers (state : State Frame Tensor Group Image Byte Deep Enc) (index : Nat) :
    (state.qbuf index).buffers = state.buffers := by
  unfold State.qbuf
  split <;> rfl

theorem finishJob_buffers (skip : Int → Bool) (onward : Control) (finished : PendingJob) (ret : Int) :
    (finishJob calls skip onward finished ret state).buffers = state.buffers := by
  unfold finishJob
  simp only
  split
  · exact qbuf_buffers _ _
  · split
    · rfl
    · split
      · rfl
      · split
        · split
          · exact qbuf_buffers _ _
          · split
            · exact qbuf_buffers _ _
            · split
              · exact qbuf_buffers _ _
              · split <;> exact qbuf_buffers _ _
        · exact qbuf_buffers _ _

theorem step_sized {count : Nat} (event : Event Frame) (owned : Owned threads state)
    (sized : Sized count state) (taken : step calls threads event state = some next) : Sized count next := by
  have opened (control : state.control ≠ .closed) : state.buffers.length = count :=
    sized.resolve_left control
  cases step_stepped taken with
  | fill => exact sized.imp id fun length => by rw [List.length_modify]; exact length
  | frame head queued =>
    have length := opened (by simp [head])
    right
    rcases owned.dequeue head queued with same | ⟨frame, content, captured⟩
    · rw [same]
      exact length
    · rw [captured.buffers]
      exact length
  | timeout | error => exact sized
  | stop head => exact Or.inr (opened (by simp [head]))
  | resume waiting =>
    exact Or.inr (by simpa only [finishLoop, finishJob_buffers] using opened (by simp [waiting]))
  | resumeDrain waiting =>
    exact Or.inr (by simpa only [finishDrain, finishJob_buffers] using opened (by simp [waiting]))
  | drain draining => exact Or.inr (opened (by simp [draining]))
  | close => exact Or.inl rfl
  | begin waiting =>
    have worked := beginTask_worked calls waiting
    simpa only [Sized, worked.control, worked.buffers] using sized
  | finish running =>
    have worked := finishTask_worked calls running
    simpa only [Sized, worked.control, worked.buffers] using sized

theorem reachable_sized (positive : 1 ≤ threads) (starts : Starts threads start)
    (reached : Reachable (step calls threads) start state) : Sized start.buffers.length state :=
  (reachable_keeps (fun state => Owned threads state ∧ Sized start.buffers.length state)
    (fun event _ _ both taken => ⟨step_owned event both.1 taken, step_sized event both.1 both.2 taken⟩)
    ⟨starts.owned positive, Or.inr rfl⟩ reached).2

/-- Buffer and slot ownership in every reachable state: until the capture is
closed each capture buffer is queued with the driver or held by exactly one job;
at the head of the loop the pending slots are distinct and the slot about to
receive a job belongs to no pending job and to no task of the pool; and the
drain loop leaves every buffer with the driver. -/
theorem run_ownership (positive : 1 ≤ threads) (starts : Starts threads start)
    (reached : Reachable (step calls threads) start state) :
    (state.control ≠ .closed →
      List.Perm (state.queued ++ (inflight state).map PendingJob.captureIndex)
        (List.range start.buffers.length)) ∧
    (state.control = .head →
      List.Perm (state.queued ++ state.pendingJobs.map PendingJob.captureIndex)
        (List.range start.buffers.length) ∧
      (state.pendingJobs.map PendingJob.slot).Nodup ∧
      state.nextSlot threads ∉ state.pendingJobs.map PendingJob.slot ∧
      ∀ task ∈ state.tasks ++ state.running, task.yolo ≠ state.nextSlot threads) ∧
    (state.control = .draining → state.pendingJobs = [] →
      List.Perm state.queued (List.range start.buffers.length)) := by
  have owned := reachable_owned positive starts reached
  have sized := reachable_sized positive starts reached
  have captures (control : state.control ≠ .closed) :
      List.Perm (state.queued ++ (inflight state).map PendingJob.captureIndex)
        (List.range start.buffers.length) := by
    rw [← sized.resolve_left control]
    exact owned.captures
  refine ⟨captures, ?_, ?_⟩
  · intro head
    have idle : inflight state = state.pendingJobs := by simp only [inflight, head]
    have slots := owned.slots
    rw [owned.window_nextSlot _ (by rw [idle]; exact owned.room.le), idle] at slots
    have free : state.nextSlot threads ∉ state.pendingJobs.map PendingJob.slot := by
      rw [slots]
      exact next_not_mem owned.nextSlot_lt owned.room
    refine ⟨idle ▸ captures (by simp [head]), ?_, free, ?_⟩
    · rw [slots]
      exact window_nodup _ owned.room.le
    · intro task member same
      obtain ⟨_, job, flying, _, slot⟩ := owned.owned task member
      exact free (same ▸ slot ▸ List.mem_map_of_mem (idle ▸ flying))
  · intro draining empty
    simpa only [inflight, draining, empty, List.map_nil, List.append_nil] using captures (by simp [draining])

/-- A frame is its own tensor, detection group and image; frames divisible by
five fail in the network and images divisible by seven fail to render. -/
def sampleCalls : Calls Nat Nat Nat Nat Nat Nat Nat where
  emptyGroup := 0
  preprocess frame := (0, frame)
  rknnRun tensor := (if tensor % 5 = 0 then -1 else 0, tensor)
  convert frame := (0, frame)
  postProcess tensor := (0, tensor)
  byteTrackUpdate tracker group := (tracker + group, tracker + group)
  deepSortUpdate tracker frame group := (tracker + frame, group)
  renderOverlay group image := (if image % 7 = 0 then -1 else 0, group + image)
  encodeDmabuf encoder image _ := (encoder + 1, 6, [0, 0, 0, 1, encoder.toUInt8, image.toUInt8])

def sampleStart (threads : Nat) (buffers : List (Option Nat)) : State Nat Nat Nat Nat Nat Nat Nat where
  curYolo := 0
  rkyoloList := List.replicate threads ⟨none, none, 0, 0⟩
  outputDmaBuffers := List.replicate threads 0
  buffers := buffers
  queued := List.range buffers.length
  pendingJobs := []
  promises := []
  tasks := []
  running := []
  sink := ⟨.bytetrack 0, 0, [], []⟩
  control := .head
  captured := []

theorem sampleStart_starts (threads : Nat) (buffers : List (Option Nat)) :
    Starts threads (sampleStart threads buffers) := by
  constructor <;> simp [sampleStart]

/-- Two workers and three buffers, the second of them unmapped: one job finished,
one pending, and the unmapped buffer back in the queue. -/
theorem run_ownership_sample :
    ∃ state, Reachable (step sampleCalls 2) (sampleStart 2 [some 1, none, some 3]) state ∧
      state.control = .head ∧ state.pendingJobs.map PendingJob.slot = [1] ∧
      List.Perm (state.queued ++ state.pendingJobs.map PendingJob.captureIndex) (List.range 3) := by
  let schedule : List (Event Nat) :=
    [.fill 0 8, .frame 0, .frame 1, .begin, .finish 0, .timeout, .frame 2, .resume]
  have outcome : (run (step sampleCalls 2) schedule (sampleStart 2 [some 1, none, some 3])).map
      (fun state => (state.control, state.pendingJobs.map PendingJob.slot)) = some (.head, [1]) := by decide
  obtain ⟨state, executed, observed⟩ := Option.map_eq_some_iff.mp outcome
  obtain ⟨head, slots⟩ := Prod.mk.inj observed
  exact ⟨state, ⟨schedule, executed⟩, head, slots,
    ((run_ownership (by decide) (sampleStart_starts _ _) ⟨schedule, executed⟩).2.1 head).1⟩

end Yolov5Rknn.TransCoder
