import Yolov5Rknn.Proofs.EncodeFailures

/-! The pipelined `run` for an encoder that may fail. It computes its two loops one
frame after another, each with the guard its source has, and it ends early where the
plain loops do: where a callback would be given a vector that ends before it begins. -/

namespace Yolov5Rknn.TransCoder
open Transition

variable {Frame Tensor Group Image Byte Deep Enc : Type} (calls : Calls Frame Tensor Group Image Byte Deep Enc)

/-- One frame of a plain loop that skips the encoder results `skip` names. It fails where the
vector of the payload throws. -/
def plainFrame (skip : Int → Bool) (sink : Sink Byte Deep Enc) (frame : Frame) :
    Except (Sink Byte Deep Enc) (Sink Byte Deep Enc) :=
  match inference calls frame with
  | (0, some (group, image)) =>
    match sink.tracker.update calls (some frame) group with
    | none => .ok sink
    | some (tracker, overlayGroup) =>
      let (renderRet, image) := calls.renderOverlay overlayGroup image
      if renderRet ≠ 0 then .ok { sink with tracker }
      else
        let (encoder, frameSize, encodeData) := calls.encodeDmabuf sink.encoder image sink.encodeData
        let sink := { sink with tracker, encoder, encodeData }
        if skip frameSize then .ok sink
        else
          match payload encodeData frameSize with
          | none => .error sink
          | some bytes => .ok { sink with payloads := sink.payloads ++ [bytes] }
  | _ => .ok sink

/-- The frames one after another. A failure says which of them were never reached. -/
def plainFrames (skip : Int → Bool) : List Frame → Sink Byte Deep Enc →
    Except (Sink Byte Deep Enc × List Frame) (Sink Byte Deep Enc)
  | [], sink => .ok sink
  | frame :: rest, sink =>
    match plainFrame calls skip sink frame with
    | .ok sink => plainFrames skip rest sink
    | .error sink => .error (sink, rest)

/-- The plain loops: `looped` are the frames of the main loop, `drained` those of the drain loop. -/
def plainRun (looped drained : List Frame) (sink : Sink Byte Deep Enc) :
    Except (Sink Byte Deep Enc × List Frame) (Sink Byte Deep Enc) :=
  match plainFrames calls (· == 0) looped sink with
  | .ok sink => plainFrames calls (· ≤ 0) drained sink
  | .error (sink, rest) => .error (sink, rest ++ drained)

variable {calls} {threads : Nat} {state next start : State Frame Tensor Group Image Byte Deep Enc}
  {initial sink : Sink Byte Deep Enc} {skip : Int → Bool} {looped drained frames : List Frame} {frame : Frame}
  {job : PendingJob}

theorem plainFrames_append (ran : plainFrames calls skip frames initial = .ok sink) :
    plainFrames calls skip (frames ++ [frame]) initial = (plainFrame calls skip sink frame).mapError (·, []) := by
  induction frames generalizing initial with
  | nil =>
    cases ran
    change plainFrames calls skip [frame] sink = _
    unfold plainFrames
    cases plainFrame calls skip sink frame with
    | ok => rfl
    | error => rfl
  | cons first rest ih =>
    rw [List.cons_append]
    unfold plainFrames at ran ⊢
    cases result : plainFrame calls skip initial first with
    | ok sink =>
      rw [result] at ran
      exact ih ran
    | error sink =>
      rw [result] at ran
      cases ran

theorem plainRun_loop (ran : plainRun calls looped [] initial = .ok sink) :
    plainRun calls (looped ++ [frame]) [] initial = (plainFrame calls (· == 0) sink frame).mapError (·, []) := by
  unfold plainRun at ran ⊢
  cases result : plainFrames calls (· == 0) looped initial with
  | ok reached =>
    rw [result] at ran
    cases ran
    rw [plainFrames_append result]
    cases plainFrame calls (· == 0) sink frame with
    | ok => rfl
    | error => rfl
  | error threw =>
    rw [result] at ran
    cases ran

theorem plainRun_drain (ran : plainRun calls looped drained initial = .ok sink) :
    plainRun calls looped (drained ++ [frame]) initial = (plainFrame calls (· ≤ 0) sink frame).mapError (·, []) := by
  unfold plainRun at ran ⊢
  cases result : plainFrames calls (· == 0) looped initial with
  | ok reached =>
    rw [result] at ran
    exact plainFrames_append ran
  | error threw =>
    rw [result] at ran
    cases ran

theorem plainFrame_failed (failed : (inference calls frame).1 ≠ 0) (sink : Sink Byte Deep Enc) :
    plainFrame calls skip sink frame = .ok sink := by
  unfold plainFrame
  split
  next reached => exact absurd (by rw [reached]) failed
  next => rfl

theorem plainStep_failed (failed : (inference calls frame).1 ≠ 0) (sink : Sink Byte Deep Enc) :
    plainStep calls sink frame = sink := by
  unfold plainStep
  split
  next reached => exact absurd (by rw [reached]) failed
  next => rfl

/-- With an encoder that never fails the two loops are one, and none of its frames throws. -/
theorem plainFrame_encodes (encodes : Encodes calls) (emits : ∀ size : Int, 0 < size → skip size = false)
    (sink : Sink Byte Deep Enc) (frame : Frame) : plainFrame calls skip sink frame = .ok (plainStep calls sink frame) := by
  by_cases success : (inference calls frame).1 = 0
  · unfold plainFrame plainStep
    obtain ⟨group, image, same⟩ := inference_zero success
    obtain ⟨⟨tracker, overlay⟩, tracked⟩ := update_isSome calls sink.tracker frame group
    by_cases rendered : (calls.renderOverlay overlay image).1 = 0
    · have encoded := encodes sink.encoder (calls.renderOverlay overlay image).2 sink.encodeData
      have positive := startCode_pos (calls.encodeDmabuf sink.encoder (calls.renderOverlay overlay image).2
        sink.encodeData).2.2
      have emitted := emits (calls.encodeDmabuf sink.encoder (calls.renderOverlay overlay image).2
        sink.encodeData).2.1 (by omega)
      simp [same, tracked, rendered, emitted, payload, Int.not_lt.mpr encoded.le]
    · simp [same, tracked, rendered]
  · rw [plainFrame_failed success, plainStep_failed success]

theorem plainFrames_encodes (encodes : Encodes calls) (emits : ∀ size : Int, 0 < size → skip size = false)
    (frames : List Frame) (sink : Sink Byte Deep Enc) :
    plainFrames calls skip frames sink = .ok (plainLoop calls frames sink) := by
  induction frames generalizing sink with
  | nil => rfl
  | cons frame frames ih =>
    unfold plainFrames
    rw [plainFrame_encodes encodes emits]
    exact ih (plainStep calls sink frame)

theorem plainRun_encodes (encodes : Encodes calls) (looped drained : List Frame) (sink : Sink Byte Deep Enc) :
    plainRun calls looped drained sink = .ok (plainLoop calls (looped ++ drained) sink) := by
  unfold plainRun
  rw [plainFrames_encodes encodes emits_loop]
  change plainFrames calls (· ≤ 0) drained (plainLoop calls looped sink) = _
  rw [plainLoop, plainLoop, List.foldl_append]
  exact plainFrames_encodes encodes emits_drain drained (plainLoop calls looped sink)

/-! ### One job -/

/-- A job ends as the plain loop ends with its frame. -/
def Ends (onward : Control) (result : Except (Sink Byte Deep Enc) (Sink Byte Deep Enc))
    (next : State Frame Tensor Group Image Byte Deep Enc) : Prop :=
  match result with
  | .ok sink => next.sink = sink ∧ next.control = onward
  | .error sink => next.sink = sink ∧ next.control = .aborted

theorem finishJob_ends (onward : Control) {ret : Int} (yolo : job.yolo = job.slot)
    (carries : Carries calls state job frame) (ready : state.promises[job.future]? = some (some ret))
    (idle : ∀ task ∈ state.tasks ++ state.running, state.promises[task.promise]? = some none) :
    Ends onward (plainFrame calls skip state.sink frame) (finishJob calls skip onward job ret state) := by
  have inside : job.captureIndex < state.buffers.length := (List.getElem?_eq_some_iff.mp carries.content).1
  obtain ⟨worker, bound, _, outbuf, stage⟩ := carries.worker
  have unset (task : ⟨job.future, job.slot⟩ ∈ state.tasks ++ state.running) : False := by
    have := idle _ task
    rw [ready] at this
    cases this
  cases stage with
  | queued task => exact (unset (List.mem_append_left _ task)).elim
  | running task _ => exact (unset (List.mem_append_right _ task)).elim
  | ready settled result =>
    obtain rfl : ret = (inference calls frame).1 := by
      rw [ready] at settled
      exact Option.some.inj (Option.some.inj settled)
    by_cases success : (inference calls frame).1 = 0
    · obtain ⟨group, image, same⟩ := inference_zero success
      obtain ⟨detections, output⟩ := result group image (by rw [same])
      obtain ⟨⟨tracker, overlay⟩, tracked⟩ := update_isSome calls state.sink.tracker frame group
      have slot : job.slot < state.outputDmaBuffers.length := (List.getElem?_eq_some_iff.mp output).1
      unfold finishJob plainFrame
      simp only [same, yolo, bound, carries.content, Option.join_some, detections, tracked,
        outbuf, Option.bind_some, output, ne_eq, not_true_eq_false, ↓reduceIte]
      rw [qbuf_inside (by exact inside)]
      dsimp only
      by_cases rendered : (calls.renderOverlay overlay image).1 = 0
      · simp only [rendered, not_true_eq_false, ↓reduceIte, List.getElem?_set_self slot]
        cases skip (calls.encodeDmabuf state.sink.encoder (calls.renderOverlay overlay image).2
          state.sink.encodeData).2.1 with
        | true => simp [Ends]
        | false =>
          cases payload (calls.encodeDmabuf state.sink.encoder (calls.renderOverlay overlay image).2
              state.sink.encodeData).2.2 (calls.encodeDmabuf state.sink.encoder
              (calls.renderOverlay overlay image).2 state.sink.encodeData).2.1 with
          | none => simp [Ends]
          | some bytes => simp [Ends]
      · simp [rendered, Ends]
    · rw [plainFrame_failed success]
      unfold finishJob
      rw [if_pos success, qbuf_inside inside]
      exact ⟨rfl, rfl⟩

/-! ### Every step -/

/-- The thread of `run` is in its main loop. -/
def Control.Looping : Control → Prop
  | .head | .waiting _ => True
  | _ => False

/-- The plain loops have run over the frames whose jobs are gone. Those in flight carry theirs,
unless a callback has thrown. -/
structure Ran (calls : Calls Frame Tensor Group Image Byte Deep Enc) (initial : Sink Byte Deep Enc)
    (state : State Frame Tensor Group Image Byte Deep Enc) (looped drained frames : List Frame) : Prop where
  captured : state.captured = looped ++ drained ++ frames
  flying : frames.length = (inflight state).length
  looping : state.control.Looping → drained = []
  thrown : state.control = .aborted → plainRun calls looped drained initial = .error (state.sink, [])
  kept : state.control ≠ .aborted → plainRun calls looped drained initial = .ok state.sink ∧
    List.Forall₂ (Carries calls state) (inflight state) frames

structure Loops (calls : Calls Frame Tensor Group Image Byte Deep Enc) (initial : Sink Byte Deep Enc)
    (state : State Frame Tensor Group Image Byte Deep Enc) : Prop where
  closed : state.control = .closed → inflight state = []
  ran : ∃ looped drained frames, Ran calls initial state looped drained frames

theorem Starts.loops (starts : Starts threads start) : Loops calls start.sink start := by
  have empty : inflight start = [] := by simp only [inflight, starts.control, starts.pendingJobs]
  refine ⟨fun _ => empty, [], [], [], starts.captured, ?_, fun _ => rfl, ?_, ?_⟩
  · rw [empty]
    rfl
  · simp [starts.control]
  · intro _
    rw [empty]
    exact ⟨rfl, .nil⟩

/-- What a step that finishes no job does: frames may be captured for new jobs, and the sink stays. -/
structure Flown (state next : State Frame Tensor Group Image Byte Deep Enc) (extra : List Frame) : Prop where
  captured : next.captured = state.captured ++ extra
  flying : (inflight next).length = (inflight state).length + extra.length
  sink : next.sink = state.sink
  looping : next.control.Looping → state.control.Looping
  aborted : next.control = .aborted ↔ state.control = .aborted

theorem Worked.flown {task : Task} (worked : Worked task state next) : Flown state next [] where
  captured := by rw [worked.captured, List.append_nil]
  flying := by rw [worked.inflight]; rfl
  sink := worked.sink
  looping := worked.control ▸ id
  aborted := by rw [worked.control]

theorem step_flown {event : Event Frame} (owned : Owned threads state) (other : event ≠ .resume)
    (taken : step calls threads event state = some next) : ∃ extra, Flown state next extra := by
  cases step_stepped taken with
  | fill | timeout | error => exact ⟨[], (List.append_nil _).symm, rfl, rfl, id, Iff.rfl⟩
  | frame head queued =>
    have idle : inflight state = state.pendingJobs := by simp only [inflight, head]
    rcases owned.dequeue head queued with same | ⟨frame, _, captured⟩
    · rw [same]
      exact ⟨[], (List.append_nil _).symm, rfl, rfl, id, Iff.rfl⟩
    · refine ⟨[frame], captured.captured, ?_, captured.sink, fun _ => by rw [head]; trivial, ?_⟩
      · rw [captured.inflight, idle, List.length_append]
        rfl
      · rcases captured.control with control | ⟨_, finished, control⟩ <;> simp [control, head]
  | stop head => exact ⟨[], (List.append_nil _).symm, by simp [inflight, head], rfl, False.elim, by simp [head]⟩
  | resume | resumeDrain => exact absurd rfl other
  | drain draining pending =>
    exact ⟨[], (List.append_nil _).symm, by simp [inflight, draining, pending], rfl, False.elim, by simp [draining]⟩
  | close draining pending =>
    exact ⟨[], (List.append_nil _).symm, by simp [inflight, draining], rfl, False.elim, by simp [draining]⟩
  | begin waiting => exact ⟨[], (beginTask_worked calls waiting).flown⟩
  | finish running => exact ⟨[], (finishTask_worked calls running).flown⟩

/-- Calls whose plain loop leaves every sink alone, with the inference of `calls`. -/
def quiet (calls : Calls Frame Tensor Group Image Byte Deep Enc) : Calls Frame Tensor Group Image Byte Deep Enc :=
  { calls with
    byteTrackUpdate := fun tracker group => (tracker, group)
    deepSortUpdate := fun tracker _ group => (tracker, group)
    renderOverlay := fun _ image => (1, image)
    encodeDmabuf := fun encoder _ encodeData => (encoder, 5, encodeData) }

theorem quiet_encodes : Encodes (quiet calls) := by
  intro encoder image encodeData
  have short : startCode encodeData ≤ 4 := by
    unfold startCode
    split <;> decide
  change (startCode encodeData : Int) < 5
  omega

theorem quiet_plainLoop (frames : List Frame) (sink : Sink Byte Deep Enc) :
    plainLoop (quiet calls) frames sink = sink := by
  induction frames generalizing sink with
  | nil => rfl
  | cons frame frames ih =>
    have step : plainStep (quiet calls) sink frame = sink := by
      unfold plainStep
      split
      next group image _ =>
        obtain ⟨tracker, _, _, _⟩ := sink
        cases tracker <;> rfl
      next => rfl
    rw [plainLoop, List.foldl_cons, step]
    exact ih sink

theorem Carries.quiet_iff : Carries (quiet calls) state job frame ↔ Carries calls state job frame := by
  constructor
  · rintro ⟨content, yolo, worker, inbuf, outbuf, stage⟩
    refine ⟨content, yolo, worker, inbuf, outbuf, ?_⟩
    cases stage with
    | queued task => exact .queued task
    | running task front => exact .running task front
    | ready settled result => exact .ready settled result
  · rintro ⟨content, yolo, worker, inbuf, outbuf, stage⟩
    refine ⟨content, yolo, worker, inbuf, outbuf, ?_⟩
    cases stage with
    | queued task => exact .queued task
    | running task front => exact .running task front
    | ready settled result => exact .ready settled result

theorem step_quiet {event : Event Frame} (other : event ≠ .resume) :
    step (quiet calls) threads event state = step calls threads event state := by
  cases event with
  | resume => exact absurd rfl other
  | fill | frame | timeout | error | stop | drain | begin | finish => rfl

/-- The steps of the pool, of the driver and of `run` that finish no job: what they do to the
jobs in flight does not depend on the calls for a finished one. -/
theorem Loops.other {event : Event Frame} (loops : Loops calls initial state) (owned : Owned threads state)
    (other : event ≠ .resume) (taken : step calls threads event state = some next) : Loops calls initial next := by
  obtain ⟨closed, looped, drained, frames, ran⟩ := loops
  obtain ⟨extra, flown⟩ := step_flown owned other taken
  by_cases aborted : state.control = .aborted
  · have ended := flown.aborted.mpr aborted
    refine ⟨fun same => absurd (ended.symm.trans same) (by simp), looped, drained, frames ++ extra, ?_⟩
    refine ⟨?_, ?_, fun loop => ran.looping (flown.looping loop), fun _ => flown.sink ▸ ran.thrown aborted,
      fun sound => absurd ended sound⟩
    · rw [flown.captured, ran.captured, List.append_assoc]
    · rw [flown.flying, List.length_append, ran.flying]
  · obtain ⟨plain, carried⟩ := ran.kept aborted
    have carriedQuiet := carried.imp fun _ _ => Carries.quiet_iff.mpr
    have refines : Refines (quiet calls) state.sink state :=
      ⟨aborted, closed, looped ++ drained, frames, ran.captured, carriedQuiet, (quiet_plainLoop _ _).symm⟩
    rw [← step_quiet other] at taken
    obtain ⟨sound, closes, done, later, split, flying, _⟩ := step_refines quiet_encodes event owned refines taken
    have whole : done ++ later = (looped ++ drained) ++ (frames ++ extra) := by
      rw [← split, flown.captured, ran.captured, List.append_assoc]
    have long : later.length = (frames ++ extra).length := by
      rw [← flying.length_eq, flown.flying, List.length_append, ran.flying]
    obtain ⟨rfl, rfl⟩ := List.append_inj' whole long
    refine ⟨closes, looped, drained, frames ++ extra, split, flying.length_eq.symm, ?_, ?_, ?_⟩
    · exact fun loop => ran.looping (flown.looping loop)
    · exact fun thrown => absurd thrown sound
    · exact fun _ => ⟨flown.sink ▸ plain, flying.imp fun _ _ => Carries.quiet_iff.mp⟩

/-- The jobs behind the finished one keep their frames. -/
theorem Finished.carried {onward : Control} (owned : Owned threads state)
    (held : inflight state = job :: state.pendingJobs) (carries : Carries calls state job frame)
    (effect : Finished onward job state next) (remaining : List.Forall₂ (Carries calls state) state.pendingJobs frames) :
    List.Forall₂ (Carries calls next) state.pendingJobs frames := by
  have flying : job ∈ inflight state := by rw [held]; exact .head _
  have unique : job ∉ state.pendingJobs := by
    have futures := owned.futures
    rw [held, List.map_cons, List.nodup_cons] at futures
    exact fun member => futures.1 (List.mem_map_of_mem member)
  obtain ⟨yolo, worker, _, outbuf, _⟩ := carries.worker
  have among := (List.forall₂_and_left (p := (· ∈ state.pendingJobs)) _ _).mpr ⟨fun _ => id, remaining⟩
  refine among.imp fun other later ⟨member, own⟩ => ?_
  have beside : other ∈ inflight state := by rw [held]; exact .tail _ member
  have apart := owned.apart beside flying (fun equal => unique (equal ▸ member))
  refine own.untouched (by rw [effect.buffers]) (by rw [effect.rkyoloList]) ?_
    (fun _ settled => by rw [effect.promises]; exact settled)
    (fun queued => by rw [effect.tasks]; exact queued)
    (fun running => by rw [effect.running]; exact running)
  rcases effect.outputs with unchanged | ⟨found, slot, _, bound, points, changed⟩
  · rw [unchanged]
  · obtain rfl : found = yolo := Option.some.inj (bound.symm.trans (owned.yolo job flying ▸ worker))
    obtain rfl : slot = job.slot := Option.some.inj (points.symm.trans outbuf)
    rw [changed, List.getElem?_set_ne (Ne.symm apart.1)]

/-- The finished job leaves the pipeline: its frame is the next of the loop that waited for it. -/
theorem Loops.finish {onward : Control} {ret : Int} (loops : Loops calls initial state) (owned : Owned threads state)
    (sound : state.control ≠ .aborted) (held : inflight state = job :: state.pendingJobs)
    (idle : onward = .head ∨ onward = .draining) (ready : state.promises[job.future]? = some (some ret))
    (continues : ∀ looped drained frame, (state.control.Looping → drained = []) →
      plainRun calls looped drained initial = .ok state.sink →
      ∃ looped' drained', looped' ++ drained' = looped ++ drained ++ [frame] ∧ (onward = .head → drained' = []) ∧
        plainRun calls looped' drained' initial = (plainFrame calls skip state.sink frame).mapError (·, [])) :
    Loops calls initial (finishJob calls skip onward job ret state) := by
  obtain ⟨_, looped, drained, _, ran⟩ := loops
  obtain ⟨plain, carried⟩ := ran.kept sound
  have captured := ran.captured
  rw [held] at carried
  cases carried with
  | @cons _ frame _ rest first remaining =>
    have flying : job ∈ inflight state := by rw [held]; exact .head _
    have same := owned.yolo job flying
    obtain ⟨yolo, worker, _⟩ := first.worker
    have effect := finishJob_finished calls skip onward ret first.content (same ▸ worker)
    have ends : Ends onward (plainFrame calls skip state.sink frame) (finishJob calls skip onward job ret state) :=
      finishJob_ends onward same first ready fun task member => (owned.owned task member).1
    have left : inflight (finishJob calls skip onward job ret state) = state.pendingJobs := by
      rw [← effect.pendingJobs]
      rcases effect.control with control | control
      · rcases idle with rfl | rfl <;> simp only [inflight, control]
      · simp only [inflight, control]
    have later := effect.carried owned held first remaining
    obtain ⟨looped', drained', whole, loop, next⟩ := continues looped drained frame ran.looping plain
    have split : (finishJob calls skip onward job ret state).captured = looped' ++ drained' ++ rest := by
      rw [effect.captured, captured, whole]
      simp
    have counted : rest.length = (inflight (finishJob calls skip onward job ret state)).length := by
      rw [left]
      exact remaining.length_eq.symm
    cases result : plainFrame calls skip state.sink frame with
    | ok sink =>
      rw [result] at ends next
      obtain ⟨emitted, control⟩ := ends
      refine ⟨?_, looped', drained', rest, split, counted, ?_, ?_, ?_⟩
      · rw [control]
        rcases idle with rfl | rfl <;> simp
      · rw [control]
        rcases idle with rfl | rfl
        · exact fun _ => loop rfl
        · exact False.elim
      · rw [control]
        rcases idle with rfl | rfl <;> simp
      · intro _
        rw [left, emitted]
        exact ⟨next, later⟩
    | error sink =>
      rw [result] at ends next
      obtain ⟨emitted, control⟩ := ends
      refine ⟨?_, looped', drained', rest, split, counted, ?_, ?_, ?_⟩
      · simp [control]
      · rw [control]
        exact False.elim
      · intro _
        rw [emitted]
        exact next
      · exact fun kept => absurd control kept

theorem step_loops (event : Event Frame) (owned : Owned threads state) (loops : Loops calls initial state)
    (taken : step calls threads event state = some next) : Loops calls initial next := by
  by_cases resumes : event = .resume
  · subst resumes
    cases step_stepped taken with
    | resume waiting ready =>
      refine loops.finish owned (by simp [waiting]) (by simp only [inflight, waiting]) (.inl rfl) ready ?_
      intro looped drained frame looping plain
      obtain rfl := looping (by rw [waiting]; trivial)
      exact ⟨looped ++ [frame], [], by simp, fun _ => rfl, plainRun_loop plain⟩
    | resumeDrain waiting ready =>
      refine loops.finish owned (by simp [waiting]) (by simp only [inflight, waiting]) (.inr rfl) ready ?_
      intro looped drained frame _ plain
      exact ⟨looped, drained ++ [frame], (List.append_assoc ..).symm, by simp, plainRun_drain plain⟩
  · exact loops.other owned resumes taken

/-- The plain loops have run over all captured frames but the `pending` ones: they have reached the
sink of the state or, where `run` has thrown, have thrown on the last frame they reached. -/
structure Sequential (calls : Calls Frame Tensor Group Image Byte Deep Enc) (initial : Sink Byte Deep Enc)
    (state : State Frame Tensor Group Image Byte Deep Enc) (looped drained pending : List Frame) : Prop where
  captured : state.captured = looped ++ drained ++ pending
  closed : state.control = .closed → pending = []
  looping : state.control.Looping → drained = []
  plain : plainRun calls looped drained initial =
    if state.control = .aborted then .error (state.sink, []) else .ok state.sink

theorem Loops.sequential (loops : Loops calls initial state) :
    ∃ looped drained pending, Sequential calls initial state looped drained pending := by
  obtain ⟨closed, looped, drained, pending, ran⟩ := loops
  refine ⟨looped, drained, pending, ran.captured, ?_, ran.looping, ?_⟩
  · intro ended
    apply List.eq_nil_of_length_eq_zero
    rw [ran.flying, closed ended]
    rfl
  · split
    next aborted => exact ran.thrown aborted
    next sound => exact (ran.kept sound).1

/-- Whatever the encoder returns, and whatever the order in which workers take and finish jobs, the
pipelined run is the two plain loops. -/
theorem reachable_sequential (positive : 1 ≤ threads) (starts : Starts threads start)
    (reached : Reachable (step calls threads) start state) :
    ∃ looped drained pending, Sequential calls start.sink state looped drained pending := by
  have kept : Owned threads state ∧ Loops calls start.sink state :=
    reachable_keeps (fun state => Owned threads state ∧ Loops calls start.sink state)
      (fun event _ _ both taken => ⟨step_owned event both.1 taken, step_loops event both.1 both.2 taken⟩)
      ⟨starts.owned positive, starts.loops⟩ reached
  exact kept.2.sequential

end Yolov5Rknn.TransCoder
