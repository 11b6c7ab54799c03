import Yolov5Rknn.Proofs.PipelineRefinement

/-! What the two loops of `TransCoder::run` do with the value `encode_dmabuf`
returned. The main loop asks only for a value other than zero, the drain loop for
a positive one, and neither compares it with the start code before it is used as
the end of a vector. -/

namespace Yolov5Rknn.TransCoder
open Transition

variable {Frame Tensor Group Image Byte Deep Enc : Type}
  {calls : Calls Frame Tensor Group Image Byte Deep Enc} {threads : Nat}
  {state next start encoded : State Frame Tensor Group Image Byte Deep Enc}

/-- A job as far as `encode_dmabuf`: the state in which it has returned, with
the value. `none` where the frame never gets there. -/
def encodeCall (calls : Calls Frame Tensor Group Image Byte Deep Enc) (finished : PendingJob) (inferRet : Int)
    (state : State Frame Tensor Group Image Byte Deep Enc) :
    Option (State Frame Tensor Group Image Byte Deep Enc × Int) := do
  guard (inferRet = 0)
  let yolo ← state.rkyoloList[finished.yolo]?
  let (tracker, overlayGroup) ← state.sink.tracker.update calls
    state.buffers[finished.captureIndex]?.join yolo.lastDetectResultGroup
  let outbuf ← yolo.outbuf
  let image ← state.outputDmaBuffers[outbuf]?
  let (renderRet, image) := calls.renderOverlay overlayGroup image
  guard (renderRet = 0)
  let outDma ← (state.outputDmaBuffers.set outbuf image)[finished.slot]?
  let (encoder, frameSize, encodeData) :=
    calls.encodeDmabuf state.sink.encoder outDma state.sink.encodeData
  some ({ state.qbuf finished.captureIndex with
    outputDmaBuffers := state.outputDmaBuffers.set outbuf image
    sink := { state.sink with tracker, encoder, encodeData } }, frameSize)

/-- A job whose future `run` waits for, with its value once it is ready and the
place where the waiting loop goes on. -/
structure Awaited where
  onward : Control
  finished : PendingJob
  inferRet : Int
  deriving DecidableEq

def awaited (state : State Frame Tensor Group Image Byte Deep Enc) : Option Awaited :=
  match state.control with
  | .waiting finished => (state.promises[finished.future]?).join.map (⟨.head, finished, ·⟩)
  | .drainWaiting finished => (state.promises[finished.future]?).join.map (⟨.draining, finished, ·⟩)
  | _ => none

/-- What both loops are to make of an encoded frame: the callback for one longer
than its start code, and nothing but the next round for any other. -/
def skipOrCall (onward : Control) (frameSize : Int) (encoded : State Frame Tensor Group Image Byte Deep Enc) :
    State Frame Tensor Group Image Byte Deep Enc :=
  if startCode encoded.sink.encodeData < frameSize then
    { encoded with
      sink := { encoded.sink with
        payloads := encoded.sink.payloads ++
          [(encoded.sink.encodeData.take frameSize.toNat).drop (startCode encoded.sink.encodeData)] }
      control := onward }
  else { encoded with control := onward }

/-- The frame awaited in `state` has been handled so in `next`. -/
def Skips (calls : Calls Frame Tensor Group Image Byte Deep Enc)
    (state next : State Frame Tensor Group Image Byte Deep Enc) : Prop :=
  ∀ wait ∈ awaited state,
    match encodeCall calls wait.finished wait.inferRet state with
    | none => next.sink.payloads = state.sink.payloads ∧ next.control = wait.onward
    | some (encoded, frameSize) => next = skipOrCall wait.onward frameSize encoded

/-- The values of `encode_dmabuf` that the loop going on at `onward` is written for. -/
def Expected (onward : Control) (frameSize : Int) (encodeData : List UInt8) : Prop :=
  startCode encodeData < frameSize ∨ frameSize = 0 ∨ onward = .draining ∧ frameSize < 0
  deriving Decidable

/-- The call of `encode_dmabuf` for the awaited job, if there is one, returns such a value. -/
def Encodable (calls : Calls Frame Tensor Group Image Byte Deep Enc)
    (state : State Frame Tensor Group Image Byte Deep Enc) : Prop :=
  ∀ wait ∈ awaited state, ∀ result ∈ encodeCall calls wait.finished wait.inferRet state,
    Expected wait.onward result.2 result.1.sink.encodeData

instance : Decidable (Encodable calls state) :=
  inferInstanceAs (Decidable (∀ wait ∈ awaited state, ∀ result ∈ encodeCall calls _ _ state, Expected _ _ _))

/-- The loop body after `encode_dmabuf`. -/
def afterEncode (skip : Int → Bool) (onward : Control) (frameSize : Int)
    (encoded : State Frame Tensor Group Image Byte Deep Enc) :
    State Frame Tensor Group Image Byte Deep Enc :=
  if skip frameSize then { encoded with control := onward }
  else
    match payload encoded.sink.encodeData frameSize with
    | none => { encoded with control := .aborted }
    | some bytes => { encoded with
        sink := { encoded.sink with payloads := encoded.sink.payloads ++ [bytes] }
        control := onward }

section Job

variable {finished : PendingJob} {ret frameSize : Int} {frame : Frame} {yolo : RkYolo Tensor Group}
  {skip : Int → Bool} {onward : Control}

theorem qbuf_withSink (index : Nat) (sink : Sink Byte Deep Enc) :
    State.qbuf index { state with sink := sink } = { state.qbuf index with sink := sink } := by
  unfold State.qbuf
  split <;> rfl

theorem qbuf_sink (index : Nat) : (state.qbuf index).sink = state.sink := by
  unfold State.qbuf
  split <;> rfl

/-- `finishJob` is `encodeCall`, then `afterEncode`. -/
theorem finishJob_encodes (encodes : encodeCall calls finished ret state = some (encoded, frameSize)) :
    finishJob calls skip onward finished ret state = afterEncode skip onward frameSize encoded := by
  simp only [encodeCall, Option.bind_eq_bind, Option.bind_eq_some_iff, Option.guard_eq_some'] at encodes
  obtain ⟨_, inferred, yolo, worker, ⟨tracker, overlay⟩, tracked, outbuf, bound, image, output, _,
    rendered, outDma, reread, same⟩ := encodes
  cases same
  simp only [finishJob, inferred, worker, tracked, bound, Option.bind_some, output, rendered, reread,
    ne_eq, not_true_eq_false, if_false, qbuf_withSink]
  rfl

/-- A frame that never gets to the encoder leaves the payloads alone. -/
theorem finishJob_drops (mapped : state.buffers[finished.captureIndex]? = some (some frame))
    (worker : state.rkyoloList[finished.yolo]? = some yolo)
    (output : finished.slot < state.outputDmaBuffers.length)
    (unencoded : encodeCall calls finished ret state = none) :
    (finishJob calls skip onward finished ret state).sink.payloads = state.sink.payloads ∧
      (finishJob calls skip onward finished ret state).control = onward := by
  obtain ⟨⟨tracker, overlay⟩, tracked⟩ :=
    update_isSome calls state.sink.tracker frame yolo.lastDetectResultGroup
  by_cases inferred : ret = 0
  · simp only [encodeCall, finishJob, inferred, worker, mapped, tracked, Option.join_some, Option.bind_eq_bind,
      Option.bind_some, guard_true, ne_eq, not_true_eq_false, if_false, qbuf_withSink] at unencoded ⊢
    cases bound : yolo.outbuf with
    | none => exact ⟨rfl, rfl⟩
    | some outbuf =>
      simp only [bound, Option.bind_some] at unencoded ⊢
      cases read : state.outputDmaBuffers[outbuf]? with
      | none => exact ⟨rfl, rfl⟩
      | some image =>
        simp only [read, Option.bind_some] at unencoded ⊢
        by_cases rendered : (calls.renderOverlay overlay image).1 = 0
        · have inside : finished.slot <
              (state.outputDmaBuffers.set outbuf (calls.renderOverlay overlay image).2).length := by
            rw [List.length_set]
            exact output
          simp only [rendered, guard_true, Option.bind_some, List.getElem?_eq_getElem inside] at unencoded
          cases unencoded
        · simp only [rendered, not_false_eq_true, if_true, and_self]
  · simp only [finishJob, inferred, ne_eq, not_false_eq_true, if_true, qbuf_sink, and_self]

/-- The guards of the two loops. -/
inductive Guard : Control → (Int → Bool) → Prop where
  | loop : Guard .head (· == 0)
  | drain : Guard .draining (· ≤ 0)

theorem Guard.keeps (guards : Guard onward skip) (positive : 0 < frameSize) : skip frameSize = false := by
  cases guards with
  | loop => exact emits_loop frameSize positive
  | drain => exact emits_drain frameSize positive

theorem Guard.skips_iff (guards : Guard onward skip) :
    skip frameSize = true ↔ frameSize = 0 ∨ onward = .draining ∧ frameSize < 0 := by
  cases guards with
  | loop => simp
  | drain => 
    simp only [decide_eq_true_eq, true_and]
    omega

theorem Guard.onward_ne (guards : Guard onward skip) : onward ≠ .aborted := by
  cases guards <;> simp

/-- The guards meet the claimed one on the expected values and on no others. -/
theorem Guard.afterEncode_eq_iff (guards : Guard onward skip) :
    afterEncode skip onward frameSize encoded = skipOrCall onward frameSize encoded ↔
      Expected onward frameSize encoded.sink.encodeData := by
  have positive := startCode_pos encoded.sink.encodeData
  by_cases longer : startCode encoded.sink.encodeData < frameSize
  · have called : payload encoded.sink.encodeData frameSize =
        some ((encoded.sink.encodeData.take frameSize.toNat).drop (startCode encoded.sink.encodeData)) :=
      if_neg (by omega)
    simp only [afterEncode, guards.keeps (show 0 < frameSize by omega), called, skipOrCall, longer, Expected,
      true_or, if_true, Bool.false_eq_true, if_false]
  · simp only [skipOrCall, longer, if_false, Expected, false_or, ← guards.skips_iff]
    cases skipped : skip frameSize with
    | true => simp only [afterEncode, skipped, if_true]
    | false =>
      simp only [afterEncode, skipped, Bool.false_eq_true, if_false, iff_false]
      intro same
      cases bytes : payload encoded.sink.encodeData frameSize with
      | none =>
        have control := congrArg State.control same
        simp only [bytes] at control
        exact guards.onward_ne control.symm
      | some bytes =>
        have payloads := congrArg (fun state => state.sink.payloads) same
        simp [bytes] at payloads

end Job

/-! ### Every run -/

theorem resume_finishes (taken : step calls threads .resume state = some next) :
    ∃ skip wait, Guard wait.onward skip ∧ awaited state = some wait ∧ wait.finished ∈ inflight state ∧
      next = finishJob calls skip wait.onward wait.finished wait.inferRet state := by
  cases step_stepped taken with
  | @resume finished ret waiting ready =>
    refine ⟨_, ⟨.head, finished, ret⟩, .loop, ?_, ?_, rfl⟩
    · simp only [awaited, waiting, ready, Option.join_some, Option.map_some]
    · simp only [inflight, waiting, List.mem_cons, true_or]
  | @resumeDrain finished ret waiting ready =>
    refine ⟨_, ⟨.draining, finished, ret⟩, .drain, ?_, ?_, rfl⟩
    · simp only [awaited, waiting, ready, Option.join_some, Option.map_some]
    · simp only [inflight, waiting, List.mem_cons, true_or]

theorem resume_skips_iff (owned : Owned threads state) (taken : step calls threads .resume state = some next) :
    Skips calls state next ↔ Encodable calls state := by
  obtain ⟨skip, wait, guards, waits, flying, rfl⟩ := resume_finishes taken
  obtain ⟨⟨frame, mapped⟩, ⟨yolo, worker⟩, output⟩ := owned.flies flying
  simp only [Skips, Encodable, waits, Option.mem_some, forall_eq']
  cases encodes : encodeCall calls wait.finished wait.inferRet state with
  | none =>
    simp only [Option.not_mem_none, false_imp_iff, implies_true, iff_true]
    exact finishJob_drops mapped worker output encodes
  | some result =>
    simp only [Option.mem_some, forall_eq', finishJob_encodes encodes]
    exact guards.afterEncode_eq_iff

theorem skipOrCall_control (onward : Control) (frameSize : Int) :
    (skipOrCall onward frameSize encoded).control = onward := by
  unfold skipOrCall
  split <;> rfl

/-- A frame handled as claimed leaves `run` in its loop. -/
theorem Skips.control (taken : step calls threads .resume state = some next)
    (skips : Skips calls state next) : next.control ≠ .aborted := by
  obtain ⟨skip, wait, guards, waits, _, rfl⟩ := resume_finishes taken
  have handled := skips wait waits
  cases encodes : encodeCall calls wait.finished wait.inferRet state with
  | none =>
    rw [encodes] at handled
    rw [handled.2]
    exact guards.onward_ne
  | some result =>
    rw [encodes] at handled
    rw [handled, skipOrCall_control]
    exact guards.onward_ne

/-- No other step ends `run` early. -/
theorem step_control {event : Event Frame} (owned : Owned threads state) (sound : state.control ≠ .aborted)
    (other : event ≠ .resume) (taken : step calls threads event state = some next) :
    next.control ≠ .aborted := by
  cases step_stepped taken with
  | fill | timeout | error => exact sound
  | frame head queued =>
    rcases owned.dequeue head queued with same | ⟨frame, _, captured⟩
    · rw [same]
      exact sound
    · rcases captured.control with control | ⟨_, finished, control⟩ <;> simp [control]
  | stop | drain | close => simp
  | resume | resumeDrain => exact absurd rfl other
  | begin waiting =>
    rw [(beginTask_worked calls waiting).control]
    exact sound
  | finish running =>
    rw [(finishTask_worked calls running).control]
    exact sound

/-- In every run each awaited frame is handled as claimed exactly when its call
of `encode_dmabuf` returned one of the expected values: more than the length of
the start code, zero, or in the drain loop a negative value. While they all do,
`run` is never aborted. -/
theorem encode_failures_skipped_iff (calls : Calls Frame Tensor Group Image Byte Deep Enc)
    (positive : 1 ≤ threads) (starts : Starts threads start) :
    (∀ state next, Reachable (step calls threads) start state →
      step calls threads .resume state = some next → (Skips calls state next ↔ Encodable calls state)) ∧
    ∀ events state, Along (step calls threads) (fun state event => event = .resume → Encodable calls state)
        events start →
      run (step calls threads) events start = some state → state.control ≠ .aborted := by
  refine ⟨?_, ?_⟩
  · intro state next reached taken
    exact resume_skips_iff (reachable_owned positive starts reached) taken
  · intro events state permitted executed
    have kept : ∀ event state next, (event = .resume → Encodable calls state) →
        Owned threads state ∧ state.control ≠ .aborted → step calls threads event state = some next →
        Owned threads next ∧ next.control ≠ .aborted := by
      intro event state next encodable ⟨owned, sound⟩ taken
      refine ⟨step_owned event owned taken, ?_⟩
      by_cases resumes : event = .resume
      · subst resumes
        exact ((resume_skips_iff owned taken).mpr (encodable rfl)).control taken
      · exact step_control owned sound resumes taken
    refine (run_keeps (fun state => Owned threads state ∧ state.control ≠ .aborted) kept permitted ?_ executed).2
    exact ⟨starts.owned positive, by simp [starts.control]⟩

/-- The encoder of `sampleCalls`, failing on every image divisible by eleven. -/
def failingCalls : Calls Nat Nat Nat Nat Nat Nat Nat :=
  { sampleCalls with
    encodeDmabuf := fun encoder image encodeData =>
      if image % 11 = 0 then (encoder, -1, encodeData) else sampleCalls.encodeDmabuf encoder image encodeData }

/-- The frame 11, in buffer 0, through the whole pool. -/
def failingFrame : List (Event Nat) := [.fill 0 11, .frame 0, .begin, .finish 0]

/-- The drain loop skips the failed frame. -/
theorem encode_failures_skipped_iff_sample :
    ∃ state next, run (step failingCalls 2) (failingFrame ++ [.stop, .drain]) (sampleStart 2 [some 0]) =
        some state ∧
      step failingCalls 2 .resume state = some next ∧ Skips failingCalls state next ∧
      next.control ≠ .aborted := by
  have starts := sampleStart_starts 2 [some 0]
  have outcome : (run (step failingCalls 2) (failingFrame ++ [.stop, .drain, .resume])
      (sampleStart 2 [some 0])).isSome := by decide
  obtain ⟨next, executed⟩ := Option.isSome_iff_exists.mp outcome
  have whole := executed
  rw [show failingFrame ++ [.stop, .drain, .resume] = (failingFrame ++ [.stop, .drain]) ++ [.resume] from rfl,
    run_append] at executed
  obtain ⟨state, reached, resumed⟩ := Option.bind_eq_some_iff.mp executed
  obtain ⟨final, taken, last⟩ := Option.bind_eq_some_iff.mp resumed
  cases last
  have encodable : ((run (step failingCalls 2) (failingFrame ++ [.stop, .drain]) (sampleStart 2 [some 0])).map
      fun state => decide (Encodable failingCalls state)) = some true := by decide
  simp only [reached, Option.map_some, Option.some.injEq, decide_eq_true_eq] at encodable
  have handled := encode_failures_skipped_iff failingCalls (by decide) starts
  exact ⟨state, next, reached, taken, (handled.1 state next ⟨_, reached⟩ taken).mpr encodable,
    handled.2 _ next (by decide) whole⟩

/-- The main loop does not: with one worker the same frame ends `run`. -/
theorem failure_aborts :
    ∃ state next, Reachable (step failingCalls 1) (sampleStart 1 [some 0]) state ∧
      step failingCalls 1 .resume state = some next ∧ ¬ Skips failingCalls state next ∧
      next.control = .aborted := by
  have outcome : (run (step failingCalls 1) (failingFrame ++ [.resume]) (sampleStart 1 [some 0])).map
      State.control = some .aborted := by decide
  obtain ⟨next, executed, aborted⟩ := Option.map_eq_some_iff.mp outcome
  rw [run_append] at executed
  obtain ⟨state, reached, resumed⟩ := Option.bind_eq_some_iff.mp executed
  obtain ⟨final, taken, last⟩ := Option.bind_eq_some_iff.mp resumed
  cases last
  exact ⟨state, next, ⟨_, reached⟩, taken, fun skips => skips.control taken aborted, aborted⟩

end Yolov5Rknn.TransCoder
