import Yolov5Rknn.CamFramedSource
import Mathlib.Data.List.Nodup

/-! The queue between the encoder thread and the event loop. Frames are delivered
in the order they were accepted and none is stranded in the buffer. -/

namespace Yolov5Rknn.CamFramedSource
open Transition

variable {state next final : State} {event : Event}

/-- What a step can do, with the guards under which it does. -/
inductive Moved (state : State) : Event → State → Prop where
  | received (data : List UInt8) (ready : state.encoder = .idle) :
      Moved state (.onEncodedData data) (onEncodedData data state)
  | dropped (frame : Frame) (ready : state.encoder = .discarding frame) :
      Moved state .encoder { state with
        waitForIdr := true, discarded := state.discarded ++ [frame.number], encoder := .idle }
  | refused (frame : Frame) (ready : state.encoder = .checkingIdr frame)
      (waiting : state.waitForIdr = true) (plain : ¬frame.IsIdr) :
      Moved state .encoder { state with
        discarded := state.discarded ++ [frame.number], encoder := .idle }
  | resumed (frame : Frame) (ready : state.encoder = .checkingIdr frame) (idr : frame.IsIdr) :
      Moved state .encoder { state with encoder := .clearing frame }
  | passed (frame : Frame) (ready : state.encoder = .checkingIdr frame)
      (flowing : state.waitForIdr = false) :
      Moved state .encoder { state with encoder := .pushing frame }
  | cleared (frame : Frame) (ready : state.encoder = .clearing frame) :
      Moved state .encoder { state with waitForIdr := false, encoder := .pushing frame }
  | pushed (frame : Frame) (ready : state.encoder = .pushing frame) :
      Moved state .encoder { state with
        encodedDataBuffer := state.encodedDataBuffer ++ [frame]
        accepted := state.accepted ++ [frame], encoder := .triggering }
  | raised (ready : state.encoder = .triggering) :
      Moved state .encoder { state with triggered := true, encoder := .idle }
  | served (ready : state.server = .idle) (pending : state.triggered = true) :
      Moved state .deliverFrame0 { state with triggered := false, server := .delivering }
  | entered (ready : state.server = .idle) : Moved state .enter { state with server := .consumer }
  | left (ready : state.server = .consumer) : Moved state .leave { state with server := .idle }
  | requested (maxSize : Nat) (ready : state.server = .consumer) :
      Moved state (.getNextFrame maxSize) { state with
        isCurrentlyAwaitingData := true, fMaxSize := maxSize, server := .checkingEmpty }
  | stopping (ready : state.server = .consumer) :
      Moved state .stopGettingFrames { state with
        isCurrentlyAwaitingData := false, server := .stopping }
  | stopped (ready : state.server = .stopping) :
      Moved state .server { state with
        waitForIdr := true, log := state.log ++ [.stopped], server := .consumer }
  | empty (ready : state.server = .checkingEmpty) (none : state.encodedDataBuffer = []) :
      Moved state .server { state with fFrameSize := 0, server := .idle }
  | found (ready : state.server = .checkingEmpty) (some : state.encodedDataBuffer ≠ []) :
      Moved state .server { state with server := .delivering }
  | awaited (ready : state.server = .delivering) :
      Moved state .server { state with server := .popping }
  | ignored (ready : state.server = .delivering) (unasked : state.isCurrentlyAwaitingData = false) :
      Moved state .server { state with server := .idle }
  | popped (frame : Frame) (rest : List Frame) (ready : state.server = .popping)
      (front : state.encodedDataBuffer = frame :: rest) :
      Moved state .server { state with encodedDataBuffer := rest, server := .copying frame }
  | underflowed (ready : state.server = .popping) (none : state.encodedDataBuffer = []) :
      Moved state .server { state with server := .undefined }
  | copied (encodedData : Frame) (ready : state.server = .copying encodedData) :
      Moved state .server (deliver encodedData state)

theorem encoderStep_moved (taken : encoderStep state = some next) : Moved state .encoder next := by
  unfold encoderStep at taken
  split at taken
  next => cases taken
  next frame ready => cases taken; exact .dropped frame ready
  next frame ready =>
    split at taken
    next waiting =>
      split at taken
      next idr => cases taken; exact .resumed frame ready idr
      next plain => cases taken; exact .refused frame ready waiting plain
    next flowing => cases taken; exact .passed frame ready (by simpa using flowing)
  next frame ready => cases taken; exact .cleared frame ready
  next frame ready => cases taken; exact .pushed frame ready
  next ready => cases taken; exact .raised ready

theorem serverStep_moved (taken : serverStep state = some next) : Moved state .server next := by
  unfold serverStep at taken
  split at taken
  next ready =>
    split at taken
    next none => cases taken; exact .empty ready none
    next some => cases taken; exact .found ready some
  next ready =>
    split at taken
    next => cases taken; exact .awaited ready
    next unasked => cases taken; exact .ignored ready (by simpa using unasked)
  next ready =>
    split at taken
    next frame rest front => cases taken; exact .popped frame rest ready front
    next none => cases taken; exact .underflowed ready none
  next encodedData ready => cases taken; exact .copied encodedData ready
  next ready => cases taken; exact .stopped ready
  all_goals cases taken

theorem step_moved (taken : step event state = some next) : Moved state event next := by
  cases event with
  | encoder => exact encoderStep_moved taken
  | server => exact serverStep_moved taken
  | onEncodedData data =>
    obtain ⟨ready, ⟨⟩⟩ := Option.ite_none_right_eq_some.mp taken
    exact .received data ready
  | deliverFrame0 =>
    obtain ⟨⟨ready, pending⟩, ⟨⟩⟩ := Option.ite_none_right_eq_some.mp taken
    exact .served ready pending
  | enter =>
    obtain ⟨ready, ⟨⟩⟩ := Option.ite_none_right_eq_some.mp taken
    exact .entered ready
  | leave =>
    obtain ⟨ready, ⟨⟩⟩ := Option.ite_none_right_eq_some.mp taken
    exact .left ready
  | getNextFrame maxSize =>
    obtain ⟨⟨ready, _⟩, ⟨⟩⟩ := Option.ite_none_right_eq_some.mp taken
    exact .requested maxSize ready
  | stopGettingFrames =>
    obtain ⟨ready, ⟨⟩⟩ := Option.ite_none_right_eq_some.mp taken
    exact .stopping ready

/-- The frame the encoder thread works on before it is pushed or discarded. -/
def State.current (state : State) : List Frame :=
  match state.encoder with
  | .discarding frame | .checkingIdr frame | .clearing frame | .pushing frame => [frame]
  | .idle | .triggering => []

theorem onEncodedData_current (data : List UInt8) (state : State) :
    (onEncodedData data state).current = [⟨state.encoded, data⟩] := by
  cases awaiting : state.isCurrentlyAwaitingData <;> simp [onEncodedData, State.current, awaiting]

/-- What was accepted is delivered, in hand or queued, in that order; the encoder
numbers its frames upwards. -/
structure Ordered (state : State) : Prop where
  accepted : state.accepted = delivered state.log ++ state.held ++ state.encodedDataBuffer
  increasing : (state.accepted ++ state.current).Pairwise (·.number < ·.number)
  numbered : ∀ frame ∈ state.accepted ++ state.current, frame.number < state.encoded

theorem createNew_ordered : Ordered createNew :=
  ⟨rfl, .nil, fun _ member => absurd member List.not_mem_nil⟩

theorem Ordered.of_view (ordered : Ordered state) (log : delivered next.log = delivered state.log)
    (held : next.held = state.held) (buffer : next.encodedDataBuffer = state.encodedDataBuffer)
    (accepted : next.accepted = state.accepted) (encoded : next.encoded = state.encoded)
    (current : next.current.Sublist state.current) : Ordered next := by
  have shorter : (next.accepted ++ next.current).Sublist (state.accepted ++ state.current) := by
    rw [accepted]
    exact current.append_left _
  refine ⟨?_, ordered.increasing.sublist shorter, fun frame member => ?_⟩
  · rw [accepted, log, held, buffer]
    exact ordered.accepted
  · rw [encoded]
    exact ordered.numbered frame (shorter.subset member)

theorem moved_ordered (ordered : Ordered state) (moved : Moved state event next) : Ordered next := by
  cases moved with
  | received data ready =>
    have current : state.current = [] := by simp [State.current, ready]
    have numbered := ordered.numbered
    have increasing := ordered.increasing
    rw [current, List.append_nil] at numbered increasing
    refine ⟨ordered.accepted, ?_, ?_⟩
    · rw [onEncodedData_current]
      refine List.pairwise_append.mpr ⟨increasing, List.pairwise_singleton _ _, ?_⟩
      intro frame member last only
      cases List.mem_singleton.mp only
      exact numbered frame member
    · rw [onEncodedData_current]
      intro frame member
      obtain older | rfl := by simpa using member
      · exact Nat.lt_succ_of_lt (numbered frame older)
      · exact Nat.lt_succ_self _
  | pushed frame ready =>
    have current : state.current = [frame] := by simp [State.current, ready]
    have increasing := ordered.increasing
    have numbered := ordered.numbered
    rw [current] at increasing numbered
    refine ⟨?_, by simpa [State.current] using increasing, by simpa [State.current] using numbered⟩
    simp only [ordered.accepted, State.held, List.append_assoc]
  | popped frame rest ready front =>
    refine ⟨?_, ordered.increasing, ordered.numbered⟩
    simp [ordered.accepted, State.held, ready, front]
  | copied encodedData ready =>
    refine ⟨?_, ordered.increasing, ordered.numbered⟩
    simp [ordered.accepted, State.held, ready, deliver]
  | dropped _ ready | refused _ ready | resumed _ ready | passed _ ready | cleared _ ready | raised ready =>
    exact ordered.of_view rfl rfl rfl rfl rfl (by simp [State.current, ready])
  | stopped ready =>
    exact ordered.of_view (by simp) (by simp [State.held, ready]) rfl rfl rfl (.refl _)
  | served ready | entered ready | left ready | requested _ ready | stopping ready | empty ready
  | found ready | awaited ready | ignored ready | underflowed ready =>
    exact ordered.of_view rfl (by simp [State.held, ready]) rfl rfl rfl (.refl _)

/-- Outside `deliverData` and `doGetNextFrame`, a consumer that waits for a queued
frame will be woken; a request is open until `afterGetting` or `stopGettingFrames`. -/
structure Awake (state : State) : Prop where
  woken : state.server = .idle ∨ state.server = .consumer → state.isCurrentlyAwaitingData = true →
    state.encodedDataBuffer ≠ [] → state.triggered = true ∨ state.encoder = .triggering
  withdrawn : state.server = .stopping → state.isCurrentlyAwaitingData = false
  requested : state.server = .checkingEmpty → state.isCurrentlyAwaitingData = true

theorem createNew_awake : Awake createNew := by
  refine ⟨fun _ awaiting => ?_, fun _ => rfl, fun requested => ?_⟩
  · cases awaiting
  · cases requested

/-- Steps between the two calls keep `Awake` if a waiting consumer stays covered. -/
theorem Awake.of_quiet (server : next.server = .idle ∨ next.server = .consumer)
    (woken : next.isCurrentlyAwaitingData = true → next.encodedDataBuffer ≠ [] →
      next.triggered = true ∨ next.encoder = .triggering) : Awake next := by
  refine ⟨fun _ => woken, fun stopping => ?_, fun requested => ?_⟩
  · simp [stopping] at server
  · simp [requested] at server

theorem moved_awake (awake : Awake state) (moved : Moved state event next) : Awake next := by
  obtain ⟨woken, withdrawn, requested⟩ := awake
  cases moved with
  | pushed => exact ⟨fun _ _ _ => .inr rfl, withdrawn, requested⟩
  | raised => exact ⟨fun _ _ _ => .inl rfl, withdrawn, requested⟩
  | received data ready =>
    refine ⟨fun quiet awaiting some => .inl ?_, withdrawn, requested⟩
    obtain pending | triggering := woken quiet awaiting some
    · exact pending
    · cases ready.symm.trans triggering
  | dropped _ ready | refused _ ready | resumed _ ready | passed _ ready | cleared _ ready =>
    refine ⟨fun quiet awaiting some => .inl ?_, withdrawn, requested⟩
    simpa [ready] using woken quiet awaiting some
  | entered ready => exact .of_quiet (.inr rfl) (woken (.inl ready))
  | left ready => exact .of_quiet (.inl rfl) (woken (.inr ready))
  | stopped ready =>
    apply Awake.of_quiet (.inr rfl)
    intro awaiting
    cases (withdrawn ready).symm.trans awaiting
  | empty ready none => exact .of_quiet (.inl rfl) fun _ some => absurd none some
  | ignored ready unasked =>
    apply Awake.of_quiet (.inl rfl)
    intro awaiting
    cases unasked.symm.trans awaiting
  | copied =>
    apply Awake.of_quiet (.inr rfl)
    intro awaiting
    cases awaiting
  | stopping =>
    refine ⟨fun quiet => by simp at quiet, fun _ => rfl, fun requested => ?_⟩
    cases requested
  | requested =>
    refine ⟨fun quiet => by simp at quiet, fun stopping => ?_, fun _ => rfl⟩
    cases stopping
  | served | found | awaited | popped | underflowed =>
    refine ⟨fun quiet => by simp at quiet, fun stopping => ?_, fun requested => ?_⟩
    · cases stopping
    · cases requested

theorem reachable_ordered (reached : Reachable step createNew state) : Ordered state :=
  reachable_keeps Ordered (fun _ _ _ ordered taken => moved_ordered ordered (step_moved taken))
    createNew_ordered reached

theorem reachable_awake (reached : Reachable step createNew state) : Awake state :=
  reachable_keeps Awake (fun _ _ _ awake taken => moved_awake awake (step_moved taken))
    createNew_awake reached

/-- In every reachable state the delivered frames, the one in the hands of
`deliverData` and the buffer make up the accepted frames in their order, none of
them twice, and an idle event loop leaves no awaited frame without a wake-up. -/
theorem delivery_fifo (reached : Reachable step createNew state) :
    state.accepted = delivered state.log ++ state.held ++ state.encodedDataBuffer ∧
      delivered state.log <+: state.accepted ∧ state.accepted.Nodup ∧
      (state.server = .idle → state.held = []) ∧
      (state.server = .idle → state.isCurrentlyAwaitingData = true → state.encodedDataBuffer ≠ [] →
        state.triggered = true ∨ state.encoder = .triggering) := by
  have ordered := reachable_ordered reached
  have awake := reachable_awake reached
  refine ⟨ordered.accepted, ?_, ?_, ?_, fun idle => awake.woken (.inl idle)⟩
  · rw [ordered.accepted, List.append_assoc]
    exact List.prefix_append _ _
  · have increasing := ordered.increasing.sublist (List.sublist_append_left _ _)
    exact increasing.imp fun before same => absurd before (by simp [same])
  · intro idle
    simp [State.held, idle]

/-- A client asks, one IDR frame is encoded, and a second frame is pushed while
`deliverData` is about to pop the first. -/
def overtaken : List Event :=
  [.enter, .getNextFrame 1024, .server, .onEncodedData [0x65], .encoder, .encoder, .encoder, .encoder,
    .deliverFrame0, .server, .onEncodedData [0x41], .encoder, .encoder, .encoder, .server, .server]

theorem delivery_fifo_sample : ∃ state, run step overtaken createNew = some state ∧
    state.accepted = delivered state.log ++ state.held ++ state.encodedDataBuffer ∧
      delivered state.log <+: state.accepted ∧ state.accepted.Nodup ∧
      (state.server = .idle → state.held = []) ∧
      (state.server = .idle → state.isCurrentlyAwaitingData = true → state.encodedDataBuffer ≠ [] →
        state.triggered = true ∨ state.encoder = .triggering) := by
  obtain ⟨state, executed⟩ : ∃ state, run step overtaken createNew = some state :=
    Option.isSome_iff_exists.mp (by decide)
  exact ⟨state, executed, delivery_fifo ⟨overtaken, executed⟩⟩

end Yolov5Rknn.CamFramedSource
