import Yolov5Rknn.Proofs.FrameDelivery
import Mathlib.Data.List.Chain

/-! The frames a decoder can start on. `waitForIdr_` filters at the time of the
push, so a gap in the stream always ends with an IDR; a frame that was accepted
before a stop is still delivered after it. -/

namespace Yolov5Rknn.CamFramedSource
open Transition

variable {state next final : State} {event : Event} {events : List Event}

/-- The first frame delivered after construction or after a stop contains an IDR. -/
def Opens (before after : Entry) : Prop :=
  ∀ frame, after = .delivered frame → (∀ earlier, before ≠ .delivered earlier) → frame.IsIdr

/-- A frame delivered after a gap contains an IDR. -/
def Resumes (discarded : List Nat) (before after : Frame) : Prop :=
  (∃ number ∈ discarded, before.number < number ∧ number < after.number) → after.IsIdr

/-- The frame `onEncodedData` can no longer discard but has not pushed. -/
def State.accepting (state : State) : List Frame :=
  match state.encoder with
  | .clearing frame | .pushing frame => [frame]
  | _ => []

/-- The frames that will be delivered whatever the two threads do. -/
def State.upcoming (state : State) : List Frame :=
  state.held ++ state.encodedDataBuffer ++ state.accepting

/-- `doStopGettingFrames` runs while the oldest undelivered frame, if there is
one, contains an IDR. -/
def StopFlushed (state : State) (event : Event) : Prop :=
  event = .server → state.server = .stopping → ∀ frame ∈ state.upcoming.head?, frame.IsIdr

instance : Decidable (StopFlushed state event) := inferInstanceAs (Decidable (_ → _ → ∀ _ ∈ _, _))

/-- No frame was delivered since construction or the last stop. -/
def Opened (log : List Entry) : Prop := ∀ earlier, log.getLast? ≠ some (.delivered earlier)

structure Opening (state : State) : Prop where
  chain : state.log.IsChain Opens
  first : Opened state.log → ∀ frame ∈ state.upcoming.head?, frame.IsIdr
  waiting : Opened state.log → state.upcoming = [] → state.waitForIdr = true

theorem createNew_opening : Opening createNew := by
  refine ⟨.singleton _, fun _ _ member => ?_, fun _ _ => rfl⟩
  cases member

theorem Opening.of_same (opening : Opening state) (log : next.log = state.log)
    (upcoming : next.upcoming = state.upcoming)
    (waiting : state.waitForIdr = true → next.waitForIdr = true) : Opening next := by
  refine ⟨?_, ?_, ?_⟩
  · rw [log]
    exact opening.chain
  · rw [log, upcoming]
    exact opening.first
  · rw [log, upcoming]
    exact fun opened none => waiting (opening.waiting opened none)

/-- A frame that passes the check joins the frames to be delivered. -/
theorem Opening.joined (opening : Opening state) (frame : Frame) (log : next.log = state.log)
    (upcoming : next.upcoming = state.upcoming ++ [frame])
    (idr : Opened state.log → state.upcoming = [] → frame.IsIdr) : Opening next := by
  refine ⟨?_, fun opened first member => ?_, fun _ none => ?_⟩
  · rw [log]
    exact opening.chain
  · rw [log] at opened
    rw [upcoming] at member
    cases queued : state.upcoming with
    | nil =>
      obtain rfl : frame = first := by simpa [queued] using member
      exact idr opened queued
    | cons oldest rest => exact opening.first opened first (by simpa [queued] using member)
  · rw [upcoming] at none
    cases List.append_ne_nil_of_right_ne_nil _ (List.cons_ne_nil frame []) none

theorem moved_opening (permitted : StopFlushed state event) (opening : Opening state)
    (moved : Moved state event next) : Opening next := by
  cases moved with
  | received data ready =>
    refine opening.of_same rfl ?_ id
    cases awaiting : state.isCurrentlyAwaitingData <;>
      simp [State.upcoming, State.held, State.accepting, onEncodedData, ready, awaiting]
  | resumed frame ready idr =>
    refine opening.joined frame rfl ?_ fun _ _ => idr
    simp [State.upcoming, State.held, State.accepting, ready]
  | passed frame ready flowing =>
    refine opening.joined frame rfl ?_ ?_
    · simp [State.upcoming, State.held, State.accepting, ready]
    · intro opened none
      cases flowing.symm.trans (opening.waiting opened none)
  | cleared frame ready =>
    refine ⟨opening.chain, ?_, fun _ none => ?_⟩
    · simpa [State.upcoming, State.held, State.accepting, ready] using opening.first
    · simp [State.upcoming, State.accepting] at none
  | dropped _ ready | refused _ ready | pushed _ ready | raised ready =>
    refine opening.of_same rfl ?_ (by simp)
    simp [State.upcoming, State.held, State.accepting, ready]
  | popped frame rest ready front =>
    refine opening.of_same rfl ?_ id
    simp [State.upcoming, State.held, State.accepting, ready, front]
  | copied encodedData ready =>
    refine ⟨opening.chain.append (.singleton _) ?_, fun opened => ?_, fun opened => ?_⟩
    · intro before last after only frame same opened
      obtain rfl : Entry.delivered encodedData = after := by simpa using only
      cases same
      apply opening.first
      · intro earlier delivered
        exact opened earlier (Option.some.inj (last.symm.trans delivered))
      · simp [State.upcoming, State.held, ready]
    · exact absurd List.getLast?_concat (opened encodedData)
    · exact absurd List.getLast?_concat (opened encodedData)
  | stopped ready =>
    refine ⟨opening.chain.append (.singleton _) ?_, fun _ => ?_, fun _ _ => rfl⟩
    · intro before last after only frame same
      obtain rfl : Entry.stopped = after := by simpa using only
      cases same
    · have flushed := permitted rfl ready
      simpa [State.upcoming, State.held, State.accepting, ready] using flushed
  | served ready | entered ready | left ready | requested _ ready | stopping ready | empty ready
  | found ready | awaited ready | ignored ready | underflowed ready =>
    refine opening.of_same rfl ?_ id
    simp [State.upcoming, State.held, State.accepting, ready]

/-- Every gap in the accepted frames ends with an IDR, also a gap still open. -/
structure Resuming (state : State) : Prop where
  chain : (state.accepted ++ state.accepting).IsChain (Resumes state.discarded)
  waiting : ∀ number ∈ state.discarded,
    (∀ frame ∈ state.accepted ++ state.accepting, frame.number < number) → state.waitForIdr = true
  bounded : ∀ number ∈ state.discarded,
    number < state.encoded ∧ ∀ frame ∈ state.current, number < frame.number

theorem createNew_resuming : Resuming createNew := by
  refine ⟨.nil, fun _ member => ?_, fun _ member => ?_⟩ <;> cases member

theorem Resuming.of_same (resuming : Resuming state) (discarded : next.discarded = state.discarded)
    (accepted : next.accepted ++ next.accepting = state.accepted ++ state.accepting)
    (encoded : next.encoded = state.encoded) (current : next.current ⊆ state.current)
    (waiting : state.waitForIdr = true → next.waitForIdr = true) : Resuming next := by
  refine ⟨?_, ?_, ?_⟩
  · rw [discarded, accepted]
    exact resuming.chain
  · rw [discarded, accepted]
    exact fun number member after => waiting (resuming.waiting number member after)
  · rw [discarded, encoded]
    intro number member
    obtain ⟨known, older⟩ := resuming.bounded number member
    exact ⟨known, fun frame mine => older frame (current mine)⟩

/-- `onEncodedData` returns without the push, with `waitForIdr_` set. -/
theorem Resuming.discard (resuming : Resuming state) (ordered : Ordered state) (frame : Frame)
    (current : state.current = [frame]) (accepting : state.accepting = [])
    (discarded : next.discarded = state.discarded ++ [frame.number])
    (accepted : next.accepted = state.accepted) (encoded : next.encoded = state.encoded)
    (idle : next.encoder = .idle) (waiting : next.waitForIdr = true) : Resuming next := by
  have older : ∀ earlier ∈ state.accepted, earlier.number < frame.number := by
    intro earlier member
    have increasing := ordered.increasing
    rw [current] at increasing
    exact (List.pairwise_append.mp increasing).2.2 earlier member frame (List.mem_singleton_self _)
  have numbered := ordered.numbered frame (by simp [current])
  have chain := resuming.chain
  rw [accepting, List.append_nil] at chain
  refine ⟨?_, fun _ _ _ => waiting, ?_⟩
  · rw [show next.accepting = [] by simp [State.accepting, idle], List.append_nil, accepted, discarded]
    apply chain.imp_of_mem_imp
    rintro before after _ member resumes ⟨number, found, above, below⟩
    apply resumes
    obtain known | new := List.mem_append.mp found
    · exact ⟨number, known, above, below⟩
    · cases List.mem_singleton.mp new
      exact absurd below (Nat.lt_asymm (older after member))
  · rw [discarded, encoded, show next.current = [] by simp [State.current, idle]]
    intro number member
    refine ⟨?_, by simp⟩
    obtain known | new := List.mem_append.mp member
    · exact (resuming.bounded number known).1
    · cases List.mem_singleton.mp new
      exact numbered

/-- A frame that passes the check is newer than every discarded frame. -/
theorem Resuming.joined (resuming : Resuming state) (ordered : Ordered state) (frame : Frame)
    (current : state.current = [frame]) (accepting : state.accepting = [])
    (discarded : next.discarded = state.discarded) (accepted : next.accepted = state.accepted)
    (joins : next.accepting = [frame]) (encoded : next.encoded = state.encoded)
    (same : next.current = [frame]) (idr : state.waitForIdr = true → frame.IsIdr) : Resuming next := by
  have chain := resuming.chain
  have waiting := resuming.waiting
  rw [accepting, List.append_nil] at chain waiting
  have increasing := (List.pairwise_append.mp ordered.increasing).1
  refine ⟨?_, ?_, ?_⟩
  · rw [accepted, joins, discarded]
    refine chain.append (.singleton _) ?_
    rintro before last after only ⟨number, found, above, _⟩
    obtain rfl : frame = after := by simpa using only
    apply idr
    apply waiting number found
    -- `before` is the newest accepted frame, so the whole list lies below the gap.
    obtain ⟨init, split⟩ := List.getLast?_eq_some_iff.mp last
    rw [split] at increasing
    intro earlier member
    rw [split] at member
    obtain older | newest := List.mem_append.mp member
    · exact ((List.pairwise_append.mp increasing).2.2 earlier older before (by simp)).trans above
    · cases List.mem_singleton.mp newest
      exact above
  · rw [discarded, accepted, joins]
    intro number found after
    have newer := after frame (by simp)
    have older := (resuming.bounded number found).2 frame (by simp [current])
    omega
  · rw [discarded, encoded, same, ← current]
    exact resuming.bounded

theorem moved_resuming (ordered : Ordered state) (resuming : Resuming state)
    (moved : Moved state event next) : Resuming next := by
  cases moved with
  | received data ready =>
    have accepting : (onEncodedData data state).accepting = state.accepting := by
      cases awaiting : state.isCurrentlyAwaitingData <;>
        simp [State.accepting, onEncodedData, ready, awaiting]
    refine ⟨?_, ?_, ?_⟩
    · rw [accepting]
      exact resuming.chain
    · rw [accepting]
      exact resuming.waiting
    · rw [onEncodedData_current]
      intro number member
      have known := (resuming.bounded number member).1
      exact ⟨Nat.lt_succ_of_lt known, fun frame mine => by rwa [List.mem_singleton.mp mine]⟩
  | dropped frame ready =>
    apply resuming.discard ordered frame <;> simp [State.current, State.accepting, ready]
  | refused frame ready waiting =>
    apply resuming.discard ordered frame <;> simp [State.current, State.accepting, ready, waiting]
  | resumed frame ready idr =>
    apply resuming.joined ordered frame <;> simp [State.current, State.accepting, ready, idr]
  | passed frame ready flowing =>
    apply resuming.joined ordered frame <;> simp [State.current, State.accepting, ready, flowing]
  | cleared frame ready =>
    refine ⟨?_, fun number member after => ?_, ?_⟩
    · simpa [State.accepting, ready] using resuming.chain
    · have newer := after frame (by simp [State.accepting])
      have older := (resuming.bounded number member).2 frame (by simp [State.current, ready])
      exact absurd newer (Nat.lt_asymm older)
    · simpa [State.current, ready] using resuming.bounded
  | pushed frame ready =>
    refine resuming.of_same rfl ?_ rfl (by simp [State.current]) id
    simp [State.accepting, ready]
  | raised ready =>
    refine resuming.of_same rfl ?_ rfl (by simp [State.current]) id
    simp [State.accepting, ready]
  | stopped => exact resuming.of_same rfl rfl rfl (List.Subset.refl _) fun _ => rfl
  | served | entered | left | requested | stopping | empty | found | awaited | ignored | popped
  | underflowed | copied =>
    exact resuming.of_same rfl rfl rfl (List.Subset.refl _) id

theorem reachable_resuming (reached : Reachable step createNew state) : Resuming state := by
  have both := reachable_keeps (fun state => Ordered state ∧ Resuming state)
    (fun _ _ _ kept taken =>
      ⟨moved_ordered kept.1 (step_moved taken), moved_resuming kept.1 kept.2 (step_moved taken)⟩)
    ⟨createNew_ordered, createNew_resuming⟩ reached
  exact both.2

/-- In a run that stops only before an IDR, or with nothing left to deliver, every
client starts on an IDR. A gap in the stream always ends with one. -/
theorem starts_on_idr (flushed : Along step StopFlushed events createNew)
    (executed : run step events createNew = some final) :
    final.log.IsChain Opens ∧ (delivered final.log).IsChain (Resumes final.discarded) := by
  have reached : Reachable step createNew final := ⟨events, executed⟩
  have opening : Opening final := run_keeps Opening
    (fun _ _ _ permitted kept taken => moved_opening permitted kept (step_moved taken))
    flushed createNew_opening executed
  refine ⟨opening.chain, List.IsChain.prefix (reachable_resuming reached).chain.left_of_append ?_⟩
  rw [(reachable_ordered reached).accepted, List.append_assoc]
  exact List.prefix_append _ _

/-- The client stops with nothing queued; a frame is discarded before it asks again. -/
def restarted : List Event :=
  overtaken.take 10 ++ [.server, .server, .stopGettingFrames, .server, .onEncodedData [0x41], .encoder,
    .getNextFrame 1024, .server, .onEncodedData [0x65], .encoder, .encoder, .encoder, .encoder,
    .deliverFrame0, .server, .server, .server]

theorem starts_on_idr_sample : ∃ final, run step restarted createNew = some final ∧
    final.log.IsChain Opens ∧ (delivered final.log).IsChain (Resumes final.discarded) := by
  obtain ⟨final, executed⟩ : ∃ final, run step restarted createNew = some final :=
    Option.isSome_iff_exists.mp (by decide)
  exact ⟨final, executed, starts_on_idr (by decide) executed⟩

/-- A client that asks for a frame is handed the front of the buffer. -/
theorem front_delivered {frame : Frame} {rest : List Frame} (consumer : state.server = .consumer)
    (unasked : state.isCurrentlyAwaitingData = false)
    (front : state.encodedDataBuffer = frame :: rest) :
    ∃ final, Reachable step state final ∧ final.log = state.log ++ [.delivered frame] := by
  let popped : State := { state with
    isCurrentlyAwaitingData := true, fMaxSize := 0, encodedDataBuffer := rest, server := .copying frame }
  refine ⟨deliver frame popped, ⟨[.getNextFrame 0, .server, .server, .server, .server], ?_⟩, rfl⟩
  simp [step, serverStep, consumer, unasked, front, popped]

/-- The condition leaves out only stops after which the next client can be handed
a frame without an IDR first. -/
theorem unflushed_starts_stale (reached : Reachable step createNew state)
    (unflushed : ¬StopFlushed state event) :
    ∃ final, Reachable step state final ∧ ¬final.log.IsChain Opens := by
  obtain ⟨rfl, stopping, frame, oldest, stale⟩ : event = .server ∧ state.server = .stopping ∧
      ∃ frame ∈ state.upcoming.head?, ¬frame.IsIdr := by
    simpa [StopFlushed] using unflushed
  have withdrawn := (reachable_awake reached).withdrawn stopping
  obtain ⟨waiting, arrived, consumer, unasked, log, rest, front⟩ : ∃ waiting,
      Reachable step state waiting ∧ waiting.server = .consumer ∧
      waiting.isCurrentlyAwaitingData = false ∧ waiting.log = state.log ++ [.stopped] ∧
      ∃ rest, waiting.encodedDataBuffer = frame :: rest := by
    let stopped : State := { state with
      waitForIdr := true, log := state.log ++ [.stopped], server := .consumer }
    have arrived : Reachable step state stopped :=
      ⟨[.server], by simp [step, serverStep, stopping, stopped]⟩
    cases buffer : state.encodedDataBuffer with
    | cons front rest =>
      obtain rfl : front = frame := by simpa [State.upcoming, State.held, stopping, buffer] using oldest
      exact ⟨stopped, arrived, rfl, withdrawn, rfl, rest, buffer⟩
    | nil =>
      -- The stale frame is still in the hands of the encoder thread.
      let pushed (waits : Bool) : State := { stopped with
        waitForIdr := waits
        encodedDataBuffer := [frame], accepted := state.accepted ++ [frame], encoder := .triggering }
      simp only [State.upcoming, State.held, stopping, buffer, State.accepting] at oldest
      split at oldest
      next encoder =>
        obtain rfl := by simpa using oldest
        refine ⟨pushed false, arrived.trans ⟨[.encoder, .encoder], ?_⟩, rfl, withdrawn, rfl, [], rfl⟩
        simp [step, encoderStep, encoder, buffer, stopped, pushed]
      next encoder =>
        obtain rfl := by simpa using oldest
        refine ⟨pushed true, arrived.trans ⟨[.encoder], ?_⟩, rfl, withdrawn, rfl, [], rfl⟩
        simp [step, encoderStep, encoder, buffer, stopped, pushed]
      next => simp at oldest
  obtain ⟨final, asked, delivered⟩ := front_delivered consumer unasked front
  refine ⟨final, arrived.trans asked, fun chain => stale ?_⟩
  rw [delivered, log, List.append_assoc] at chain
  exact chain.right_of_append.rel frame rfl (by simp)

/-- The client stops with the second frame still queued and asks again. -/
def reconnected : List Event :=
  overtaken ++ [.stopGettingFrames, .server, .getNextFrame 1024, .server, .server, .server, .server]

theorem starts_on_stale_frame : ¬∀ events final, run step events createNew = some final →
    final.log.IsChain Opens ∧ (delivered final.log).IsChain (Resumes final.discarded) := by
  intro always
  have reached : (run step reconnected createNew).map (·.log) =
      some [.constructed, .delivered ⟨0, [0x65]⟩, .stopped, .delivered ⟨1, [0x41]⟩] := by decide
  obtain ⟨final, executed, log⟩ := Option.map_eq_some_iff.mp reached
  have chain := (always reconnected final executed).1
  rw [log] at chain
  have stale := chain.of_cons.of_cons.rel _ rfl (by simp)
  exact absurd stale (by decide)

end Yolov5Rknn.CamFramedSource
