import Yolov5Rknn.Proofs.PooledProgress
import Yolov5Rknn.Proofs.StreamDelivery

/-! The whole stream comes to rest: between two acts of the driver and of the client the
threads take boundedly many steps, and then a client that still waits has been given
every frame that was accepted for it. -/

namespace Yolov5Rknn.CamFramedSource
open Transition

variable {state next : State} {event : Event}

/-- An IDR frame is cleared, pushed and triggered before the event loop may turn to it. -/
def Encoder.debt : Encoder → Nat
  | .idle => 0
  | .discarding _ => 1
  | .checkingIdr _ => 8
  | .clearing _ => 7
  | .pushing _ => 6
  | .triggering => 5

def Server.debt : Server → Nat
  | .idle | .consumer | .undefined => 0
  | .stopping | .copying _ => 1
  | .popping => 2
  | .delivering => 3
  | .checkingEmpty => 4

def potential (state : State) : Nat :=
  state.encoder.debt + state.server.debt + 4 * state.triggered.toNat

/-- What the encoder thread and the event loop do without a client. -/
def internal : Event → Bool
  | .encoder | .deliverFrame0 | .server => true
  | .onEncodedData _ | .enter | .leave | .getNextFrame _ | .stopGettingFrames => false

def gain : Event → Nat
  | .onEncodedData _ => 8
  | .getNextFrame _ => 4
  | .stopGettingFrames => 1
  | _ => 0

theorem moved_potential (moved : Moved state event next) :
    potential next + (if internal event then 1 else 0) ≤ potential state + gain event := by
  cases moved with
  | received data ready =>
    cases awaiting : state.isCurrentlyAwaitingData <;>
      simp only [potential, onEncodedData, ready, awaiting, Encoder.debt, internal, gain, Bool.false_eq_true,
        ↓reduceIte] <;> omega
  | dropped _ ready | refused _ ready | resumed _ ready | passed _ ready | cleared _ ready | pushed _ ready =>
    simp only [potential, ready, Encoder.debt, internal, gain, ↓reduceIte]
    omega
  | raised ready =>
    simp only [potential, ready, Encoder.debt, internal, gain, Bool.toNat_true, ↓reduceIte]
    omega
  | served ready pending =>
    simp only [potential, ready, pending, Server.debt, internal, gain, Bool.toNat_true, Bool.toNat_false, ↓reduceIte]
    omega
  | entered ready | left ready | requested _ ready | stopping ready =>
    simp only [potential, ready, Server.debt, internal, gain, Bool.false_eq_true, ↓reduceIte]
    omega
  | stopped ready | empty ready | found ready | awaited ready | ignored ready | popped _ _ ready
  | underflowed ready =>
    simp only [potential, ready, Server.debt, internal, gain, ↓reduceIte]
    omega
  | copied _ ready =>
    simp only [potential, deliver, ready, Server.debt, internal, gain, ↓reduceIte]
    omega

/-- Where neither thread moves, an idle event loop leaves a waiting client nothing to wait for. -/
theorem Awake.rests (awake : Awake state) (quiet : Progress.Quiet step internal state) :
    state.encoder = .idle ∧ (state.server = .idle ∨ state.server = .consumer ∨ state.server = .undefined) ∧
      (state.server = .idle → state.isCurrentlyAwaitingData = true → state.encodedDataBuffer = []) := by
  have encoder : state.encoder = .idle := by
    have disabled := quiet .encoder rfl
    cases place : state.encoder with
    | idle => rfl
    | discarding | clearing | pushing | triggering =>
      simp only [step, encoderStep, place, reduceCtorEq] at disabled
    | checkingIdr frame =>
      simp only [step, encoderStep, place] at disabled
      split at disabled
      · split at disabled <;> cases disabled
      · cases disabled
  refine ⟨encoder, ?_, ?_⟩
  · have disabled := quiet .server rfl
    cases place : state.server with
    | idle => exact .inl rfl
    | consumer => exact .inr (.inl rfl)
    | undefined => exact .inr (.inr rfl)
    | stopping | copying => simp only [step, serverStep, place, reduceCtorEq] at disabled
    | checkingEmpty | delivering =>
      simp only [step, serverStep, place] at disabled
      split at disabled <;> cases disabled
    | popping =>
      simp only [step, serverStep, place] at disabled
      split at disabled <;> cases disabled
  · intro idle awaiting
    by_contra some
    rcases awake.woken (.inl idle) awaiting some with pending | triggering
    · have disabled := quiet .deliverFrame0 rfl
      simp only [step, idle, pending, and_self, ↓reduceIte, reduceCtorEq] at disabled
    · rw [encoder] at triggering
      cases triggering

end Yolov5Rknn.CamFramedSource

namespace Yolov5Rknn.CameraStream
open Transition TransCoder Simulation Progress

variable {Frame Tensor Group Image Byte Deep Enc : Type}
  {calls : Calls Frame Tensor Group Image Byte Deep Enc} {threads : Nat}
  {state next : State Frame Tensor Group Image Byte Deep Enc}
  {spec after : TransCoder.State Frame Tensor Group Image Byte Deep Enc}

/-- Every payload comes from a job of its own. -/
theorem step_flying {event : TransCoder.Event Frame} (owned : Owned threads spec)
    (taken : TransCoder.step calls threads event spec = some after) :
    (inflight after).length + after.sink.payloads.length ≤
      (inflight spec).length + spec.sink.payloads.length +
        if PooledTransCoder.Event.isFrame (.run event) then 1 else 0 := by
  have finished (job : PendingJob) (onward : Control) (skip : Int → Bool) (ret : Int)
      (held : inflight spec = job :: spec.pendingJobs) (idle : onward = .head ∨ onward = .draining) :
      (inflight (finishJob calls skip onward job ret spec)).length +
          (finishJob calls skip onward job ret spec).sink.payloads.length ≤
        (inflight spec).length + spec.sink.payloads.length := by
    obtain ⟨⟨frame, mapped⟩, ⟨yolo, worker⟩, _⟩ := owned.flies (show job ∈ inflight spec by rw [held]; exact .head _)
    have effect := finishJob_finished calls skip onward ret mapped worker
    obtain ⟨fresh, payloads, few⟩ := @finishJob_payloads _ _ _ _ _ _ _ spec calls skip onward job ret
    have remaining : inflight (finishJob calls skip onward job ret spec) = spec.pendingJobs := by
      rcases effect.control with control | control <;> rcases idle with rfl | rfl <;>
        simp only [inflight, control, effect.pendingJobs]
    rw [remaining, payloads, held, List.length_append, List.length_cons]
    omega
  cases step_stepped taken with
  | fill | timeout | error => exact Nat.le_refl _
  | frame head queued =>
    simp only [PooledTransCoder.Event.isFrame, ↓reduceIte]
    rcases owned.dequeue head queued with same | ⟨frame, content, captured⟩
    · rw [same]
      exact Nat.le_succ _
    · rw [captured.inflight, captured.sink, List.length_append, List.length_singleton]
      simp only [inflight, head]
      omega
  | stop head =>
    simp only [inflight, head, PooledTransCoder.Event.isFrame, Bool.false_eq_true, ↓reduceIte]
    exact Nat.le_refl _
  | resume waiting => exact finished _ _ _ _ (by simp only [inflight, waiting]) (.inl rfl)
  | resumeDrain waiting => exact finished _ _ _ _ (by simp only [inflight, waiting]) (.inr rfl)
  | drain draining pending =>
    simp only [inflight, draining, pending, PooledTransCoder.Event.isFrame, Bool.false_eq_true, ↓reduceIte]
    exact Nat.le_refl _
  | close draining pending =>
    simp only [inflight, draining, pending, PooledTransCoder.Event.isFrame, Bool.false_eq_true, ↓reduceIte]
    exact Nat.le_refl _
  | begin waiting =>
    have worked := beginTask_worked calls waiting
    rw [worked.inflight, worked.sink]
    exact Nat.le_refl _
  | finish running =>
    have worked := finishTask_worked calls running
    rw [worked.inflight, worked.sink]
    exact Nat.le_refl _

theorem pooled_flying {event : PooledTransCoder.Event Frame}
    {pooled moved : PooledTransCoder.State Frame Tensor Group Image Byte Deep Enc}
    (backed : PooledTransCoder.Backed threads pooled spec)
    (taken : PooledTransCoder.step calls threads event pooled = some moved) :
    (inflight moved.transCoder).length + moved.transCoder.sink.payloads.length ≤
      (inflight pooled.transCoder).length + pooled.transCoder.sink.payloads.length +
        if event.isFrame then 1 else 0 := by
  have flying {pooled : PooledTransCoder.State Frame Tensor Group Image Byte Deep Enc}
      {spec : TransCoder.State Frame Tensor Group Image Byte Deep Enc}
      (backed : PooledTransCoder.Backed threads pooled spec) : inflight pooled.transCoder = inflight spec := by
    rw [backed.view]
    split <;> rfl
  rcases PooledTransCoder.step_split backed taken with ⟨own, after, rfl, stepped, kept⟩ | ⟨_, unmoved⟩
  · rw [flying backed, flying kept, backed.sink, kept.sink]
    exact step_flying backed.owned stepped
  · simp only [inflight, unmoved.pendingJobs, unmoved.control, unmoved.sink]
    exact Nat.le_add_right _ _

/-- What neither the driver nor the client has to cause. -/
def internal : Event Frame → Bool
  | .transCoder event => PooledTransCoder.internal event
  | .source event => CamFramedSource.internal event

/-- A job in flight may still hand one payload to the source. -/
def potential (threads : Nat) (state : State Frame Tensor Group Image Byte Deep Enc) : Nat :=
  PooledTransCoder.potential threads state.pooled + 8 * (inflight state.pooled.transCoder).length +
    CamFramedSource.potential state.source

def gain : Event Frame → Nat
  | .transCoder (.run (.frame _)) => 14
  | .transCoder (.pool (.wakeUp _)) => 1
  | .source (.getNextFrame _) => 4
  | .source .stopGettingFrames => 1
  | _ => 0

theorem gain_transCoder (event : PooledTransCoder.Event Frame) :
    gain (.transCoder event) = PooledTransCoder.gain event + 8 * if event.isFrame then 1 else 0 := by
  cases event with
  | run event => cases event <;> rfl
  | pool event => cases event <;> rfl
  | delete => rfl

theorem callBack_potential (payloads fresh : List (List UInt8)) (few : fresh.length ≤ 1)
    {source : CamFramedSource.State} (idle : fresh ≠ [] → source.encoder = .idle) :
    CamFramedSource.potential (callBack payloads (payloads ++ fresh) source) ≤
      CamFramedSource.potential source + 8 * fresh.length := by
  rw [callBack, List.drop_left]
  cases fresh with
  | nil => exact Nat.le_refl _
  | cons data rest =>
    obtain rfl : rest = [] := List.eq_nil_of_length_eq_zero (by simpa using few)
    have paid := CamFramedSource.moved_potential (.received data (idle (by simp)))
    simpa [CamFramedSource.internal, CamFramedSource.gain] using paid

theorem step_potential {event : Event Frame} (joined : Joined threads state spec)
    (taken : step calls threads event state = some next) :
    potential threads next + (if internal event then 1 else 0) ≤ potential threads state + gain event := by
  cases event with
  | transCoder event =>
    simp only [step] at taken
    split at taken
    next => cases taken
    next free =>
      obtain ⟨pooled, moved, rfl⟩ := Option.map_eq_some_iff.mp taken
      have paid := PooledTransCoder.step_potential joined.backed moved
      have flying := pooled_flying joined.backed moved
      obtain ⟨fresh, payloads, few, only⟩ := pooled_payloads joined.backed moved
      have idle (handed : fresh ≠ []) : state.source.encoder = .idle := by
        by_contra busy
        cases mover : byRun event with
        | false => exact handed (only mover)
        | true => exact free ⟨mover, busy⟩
      have called := callBack_potential state.pooled.transCoder.sink.payloads fresh few idle
      rw [payloads, List.length_append] at flying
      simp only [potential, gain_transCoder, payloads]
      change _ + (if PooledTransCoder.internal event then 1 else 0) ≤ _
      omega
  | source event =>
    have paid {source : CamFramedSource.State} (stepped : CamFramedSource.step event state.source = some source) :=
      CamFramedSource.moved_potential (CamFramedSource.step_moved stepped)
    cases event with
    | onEncodedData => cases taken
    | encoder | deliverFrame0 | enter | leave | getNextFrame | stopGettingFrames | server =>
      obtain ⟨source, stepped, rfl⟩ := Option.map_eq_some_iff.mp taken
      have paid := paid stepped
      simp only [potential, internal, CamFramedSource.internal, gain, CamFramedSource.gain, Bool.false_eq_true,
        ↓reduceIte] at paid ⊢
      omega

def Known (threads : Nat) (state : State Frame Tensor Group Image Byte Deep Enc) : Prop :=
  (∃ spec, Joined threads state spec) ∧ CamFramedSource.Awake state.source

theorem step_awake {event : Event Frame} (joined : Joined threads state spec)
    (awake : CamFramedSource.Awake state.source) (taken : step calls threads event state = some next) :
    CamFramedSource.Awake next.source := by
  cases event with
  | transCoder event =>
    simp only [step] at taken
    split at taken
    next => cases taken
    next free =>
      obtain ⟨pooled, moved, rfl⟩ := Option.map_eq_some_iff.mp taken
      obtain ⟨fresh, payloads, few, only⟩ := pooled_payloads joined.backed moved
      simp only [callBack, payloads, List.drop_left]
      cases fresh with
      | nil => exact awake
      | cons data rest =>
        obtain rfl : rest = [] := List.eq_nil_of_length_eq_zero (by simpa using few)
        apply CamFramedSource.moved_awake awake (.received data _)
        by_contra busy
        cases mover : byRun event with
        | false => cases only mover
        | true => exact free ⟨mover, busy⟩
  | source event =>
    cases event with
    | onEncodedData => cases taken
    | encoder | deliverFrame0 | enter | leave | getNextFrame | stopGettingFrames | server =>
      obtain ⟨source, stepped, rfl⟩ := Option.map_eq_some_iff.mp taken
      exact CamFramedSource.moved_awake awake (CamFramedSource.step_moved stepped)

theorem settling (calls : Calls Frame Tensor Group Image Byte Deep Enc) (threads : Nat) :
    Settling (step calls threads) (Known threads) internal gain (potential threads) where
  kept event state next known taken := by
    obtain ⟨⟨spec, joined⟩, awake⟩ := known
    obtain ⟨_, after, _, kept⟩ := step_simulates event state next spec joined taken
    exact ⟨⟨after, kept⟩, step_awake joined awake taken⟩
  spends event state next known own taken := by
    obtain ⟨⟨spec, joined⟩, _⟩ := known
    have paid := step_potential joined taken
    have free : gain event = 0 := by
      cases event with
      | transCoder event =>
        cases event with
        | run event => cases event <;> first | rfl | cases own
        | pool event => cases event <;> first | rfl | cases own
        | delete => rfl
      | source event => cases event <;> first | rfl | cases own
    simp only [own, free, ↓reduceIte] at paid
    omega
  earns event state next known own taken := by
    obtain ⟨⟨spec, joined⟩, _⟩ := known
    have paid := step_potential joined taken
    simp only [own, Bool.false_eq_true, ↓reduceIte] at paid
    omega

theorem Quiet.source (quiet : Quiet (step calls threads) internal state) :
    Quiet CamFramedSource.step CamFramedSource.internal state.source := by
  intro event own
  cases event with
  | onEncodedData | enter | leave | getNextFrame | stopGettingFrames => cases own
  | encoder => exact Option.map_eq_none_iff.mp (quiet (.source .encoder) rfl)
  | deliverFrame0 => exact Option.map_eq_none_iff.mp (quiet (.source .deliverFrame0) rfl)
  | server => exact Option.map_eq_none_iff.mp (quiet (.source .server) rfl)

theorem Quiet.pooled (quiet : Quiet (step calls threads) internal state) (idle : state.source.encoder = .idle) :
    Quiet (PooledTransCoder.step calls threads) PooledTransCoder.internal state.pooled := by
  intro event own
  have disabled := quiet (.transCoder event) own
  simp only [step, idle, ne_eq, not_true_eq_false, and_false, ↓reduceIte] at disabled
  exact Option.map_eq_none_iff.mp disabled

/-- The stream never stalls by itself. What the threads do between two acts of the driver
and of the client is bounded and ends where none of them can move. There `run` asks for
the next frame or has ended, no job of its own is unfinished in the pool, and an idle
event loop has given a waiting client every frame that was accepted. -/
theorem stream_comes_to_rest {start : TransCoder.State Frame Tensor Group Image Byte Deep Enc}
    {events : List (Event Frame)} (positive : 1 ≤ threads) (starts : Starts threads start)
    (fresh : start.sink.payloads = [])
    (executed : run (step calls threads) events (init threads start) = some state) :
    events.countP internal ≤ 3 * threads + 5 + (events.map gain).sum ∧
      (∃ own final, (∀ event ∈ own, internal event = true) ∧ run (step calls threads) own state = some final ∧
        Quiet (step calls threads) internal final) ∧
      (Quiet (step calls threads) internal state →
        (state.pooled.transCoder.control = .head ∨ state.pooled.transCoder.control = .closed ∨
          state.pooled.transCoder.control = .aborted) ∧
        state.pooled.pool.tasks = [] ∧ (∀ worker ∈ state.pooled.pool.workers, worker.task? = none) ∧
        state.pooled.transCoder.tasks = [] ∧ state.pooled.transCoder.running = [] ∧
        (state.source.server = .idle → state.source.isCurrentlyAwaitingData = true →
          CamFramedSource.delivered state.source.log = state.source.accepted)) := by
  have initially : Known threads (init threads start) :=
    ⟨⟨start, Starts.joined positive starts fresh⟩, CamFramedSource.createNew_awake⟩
  have known := (settling calls threads).reached initially executed
  refine ⟨?_, (settling calls threads).settles known, ?_⟩
  · have bounded := (settling calls threads).bounded initially executed
    have first : potential threads (init threads start) = 3 * threads + 5 := by
      have nothing : inflight (init threads start).pooled.transCoder = [] := by
        simp only [init, PooledTransCoder.init, inflight, starts.control, starts.pendingJobs]
      rw [potential, nothing]
      exact PooledTransCoder.Starts.potential starts
    rw [first] at bounded
    omega
  · intro quiet
    obtain ⟨⟨spec, joined⟩, awake⟩ := known
    obtain ⟨encoder, _, served⟩ := awake.rests (Quiet.source quiet)
    obtain ⟨⟨empty, idle⟩, tasks, running, place, _⟩ := joined.backed.rests positive (Quiet.pooled quiet encoder)
    have queue : state.pooled.transCoder.tasks = spec.tasks := by rw [joined.backed.view]; split <;> rfl
    rw [joined.backed.control, joined.backed.running, queue]
    refine ⟨place, empty, idle, tasks, running, ?_⟩
    intro resting awaiting
    have held : state.source.held = [] := by simp only [CamFramedSource.State.held, resting]
    rw [joined.ordered.accepted, held, served resting awaiting, List.append_nil, List.append_nil]

theorem stream_comes_to_rest_sample :
    sampleEvents.countP internal ≤ 3 * 1 + 5 + (sampleEvents.map gain).sum ∧
      ∃ own final, run (step idrCalls 1) (sampleEvents ++ own) (init 1 (sampleStart 1 [some 8, some 6])) = some final ∧
        final.pooled.pool.tasks = [] ∧ final.pooled.transCoder.running = [] := by
  have enabled : (run (step idrCalls 1) sampleEvents (init 1 (sampleStart 1 [some 8, some 6]))).isSome = true := by
    decide
  obtain ⟨state, executed⟩ := Option.isSome_iff_exists.mp enabled
  obtain ⟨bounded, ⟨own, final, _, later, quiet⟩, _⟩ :=
    stream_comes_to_rest (by decide) (sampleStart_starts 1 [some 8, some 6]) rfl executed
  have onward := run_trans executed later
  obtain ⟨_, empty, _, _, running, _⟩ :=
    (stream_comes_to_rest (by decide) (sampleStart_starts 1 [some 8, some 6]) rfl onward).2.2 quiet
  exact ⟨bounded, own, final, onward, empty, running⟩

end Yolov5Rknn.CameraStream
