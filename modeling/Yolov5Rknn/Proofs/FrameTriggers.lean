import Yolov5Rknn.Proofs.FrameDelivery

/-! Triggers against queued frames. `doGetNextFrame` looks into the buffer before
it calls `deliverData`, the event trigger does not: a frame handed out on request
leaves its trigger behind, and the next one waiting can be served nothing. -/

namespace Yolov5Rknn.CamFramedSource
open Transition

variable {state next final : State} {event : Event} {events : List Event}

/-- Triggers not yet served, with the one `onEncodedData` is about to raise. -/
def outstanding (state : State) : Nat :=
  (if state.triggered then 1 else 0) + (if state.encoder = .triggering then 1 else 0)

/-- A request that `doGetNextFrame` answers from the buffer leaves a frame for
every outstanding trigger. -/
def RequestCovered (state : State) (event : Event) : Prop :=
  event = .server → state.server = .checkingEmpty → state.encodedDataBuffer ≠ [] →
    outstanding state < state.encodedDataBuffer.length

instance : Decidable (RequestCovered state event) :=
  inferInstanceAs (Decidable (_ → _ → _ → _))

/-- The frame a running `deliverData` has still to pop. -/
def claimed (state : State) : Nat :=
  match state.server with
  | .delivering | .popping => 1
  | _ => 0

structure Covered (state : State) : Prop where
  enough : outstanding state + claimed state ≤ state.encodedDataBuffer.length
  defined : state.server ≠ .undefined

theorem createNew_covered : Covered createNew := ⟨Nat.le_refl 0, by simp [createNew]⟩

theorem moved_covered (permitted : RequestCovered state event) (covered : Covered state)
    (moved : Moved state event next) : Covered next := by
  obtain ⟨enough, defined⟩ := covered
  simp only [outstanding, claimed] at enough
  cases moved with
  | received data ready =>
    refine ⟨?_, defined⟩
    cases awaiting : state.isCurrentlyAwaitingData <;>
      simpa [outstanding, claimed, onEncodedData, awaiting, ready] using enough
  | dropped _ ready | refused _ ready | resumed _ ready | passed _ ready | cleared _ ready =>
    refine ⟨?_, defined⟩
    simpa [outstanding, claimed, ready] using enough
  | pushed frame ready =>
    refine ⟨?_, defined⟩
    simp only [ready, reduceCtorEq, if_false] at enough
    simp only [outstanding, claimed, if_true, List.length_append, List.length_singleton]
    omega
  | raised ready =>
    -- Two triggers outstanding become one.
    refine ⟨?_, defined⟩
    simp only [ready, if_true] at enough
    simp only [outstanding, claimed, reduceCtorEq, if_true, if_false]
    omega
  | served ready pending =>
    refine ⟨?_, by simp⟩
    simp only [ready, pending, if_true] at enough
    simp only [outstanding, claimed, Bool.false_eq_true, if_false]
    omega
  | found ready some =>
    refine ⟨?_, by simp⟩
    exact permitted rfl ready some
  | popped frame rest ready front =>
    refine ⟨?_, by simp⟩
    simp only [ready, front, List.length_cons] at enough
    simp only [outstanding, claimed]
    omega
  | underflowed ready none =>
    simp only [ready, none, List.length_nil] at enough
    omega
  | entered ready | left ready | requested _ ready | stopping ready | stopped ready | empty ready
  | awaited ready | ignored ready =>
    refine ⟨?_, by simp⟩
    simp only [ready] at enough
    simp only [outstanding, claimed]
    omega
  | copied _ ready =>
    simp only [ready] at enough
    exact ⟨enough, by simp [deliver]⟩

/-- While every request finds more frames than triggers outstanding, no schedule
makes `deliverData` read the front of an empty buffer. -/
theorem front_never_empty (covered : Along step RequestCovered events createNew)
    (executed : run step events createNew = some final) : final.server ≠ .undefined :=
  (run_keeps Covered
    (fun _ _ _ permitted kept taken => moved_covered permitted kept (step_moved taken))
    covered createNew_covered executed).defined

/-- Two frames are pushed under one trigger; the second is handed out on request. -/
def coalesced : List Event :=
  [.enter, .getNextFrame 1024, .server, .onEncodedData [0x65], .encoder, .encoder, .encoder, .encoder,
    .onEncodedData [0x41], .encoder, .encoder, .encoder, .deliverFrame0, .server, .server, .server,
    .getNextFrame 1024, .server, .server, .server, .server]

theorem front_never_empty_sample : ∃ final, run step coalesced createNew = some final ∧
    final.server ≠ .undefined := by
  obtain ⟨final, executed⟩ : ∃ final, run step coalesced createNew = some final :=
    Option.isSome_iff_exists.mp (by decide)
  exact ⟨final, executed, front_never_empty (by decide) executed⟩

/-- A client that keeps asking empties the buffer and is left waiting. -/
theorem drained (requested : state.server = .checkingEmpty)
    (awaiting : state.isCurrentlyAwaitingData = true) :
    ∃ final, Reachable step state final ∧ final.server = .idle ∧
      final.isCurrentlyAwaitingData = true ∧ final.encodedDataBuffer = [] ∧
      final.triggered = state.triggered ∧ final.encoder = state.encoder := by
  induction buffer : state.encodedDataBuffer generalizing state with
  | nil =>
    refine ⟨{ state with fFrameSize := 0, server := .idle }, ⟨[.server], ?_⟩, rfl, awaiting, buffer,
      rfl, rfl⟩
    simp [step, serverStep, requested, buffer]
  | cons frame rest ih =>
    let asked : State :=
      { deliver frame { state with encodedDataBuffer := rest, server := .copying frame } with
        isCurrentlyAwaitingData := true, fMaxSize := 0, server := .checkingEmpty }
    have delivered : Reachable step state asked := by
      refine ⟨[.server, .server, .server, .server, .getNextFrame 0], ?_⟩
      simp [step, serverStep, deliver, requested, awaiting, buffer, asked]
    obtain ⟨final, reached, rest⟩ := @ih asked rfl rfl rfl
    exact ⟨final, delivered.trans reached, rest⟩

/-- The condition leaves out only requests after which the client can go on to
make `deliverData` read the front of an empty buffer. -/
theorem uncovered_underflows (reached : Reachable step createNew state)
    (uncovered : ¬RequestCovered state event) :
    ∃ final, Reachable step state final ∧ final.server = .undefined := by
  obtain ⟨rfl, requested, some, few⟩ : event = .server ∧ state.server = .checkingEmpty ∧
      state.encodedDataBuffer ≠ [] ∧ state.encodedDataBuffer.length ≤ outstanding state := by
    simpa [RequestCovered] using uncovered
  obtain ⟨waiting, emptied, idle, awaiting, buffer, triggered, encoder⟩ :=
    drained requested ((reachable_awake reached).requested requested)
  have raised : state.triggered = true ∨ state.encoder = .triggering := by
    have queued := List.length_pos_of_ne_nil some
    unfold outstanding at few
    by_contra neither
    obtain ⟨quiet, passive⟩ := not_or.mp neither
    rw [if_neg quiet, if_neg passive] at few
    omega
  rw [← triggered, ← encoder] at raised
  obtain pending | triggering := raised
  · refine ⟨{ waiting with triggered := false, server := .undefined },
      emptied.trans ⟨[.deliverFrame0, .server, .server], ?_⟩, rfl⟩
    simp [step, serverStep, idle, pending, awaiting, buffer]
  · refine ⟨{ waiting with encoder := .idle, triggered := false, server := .undefined },
      emptied.trans ⟨[.encoder, .deliverFrame0, .server, .server], ?_⟩, rfl⟩
    simp [step, encoderStep, serverStep, idle, triggering, awaiting, buffer]

/-- The frame that overtook its trigger is handed out on request; the client asks
again and the loop serves the trigger. -/
def underflow : List Event :=
  overtaken ++ [.getNextFrame 1024, .server, .server, .server, .server,
    .getNextFrame 1024, .server, .deliverFrame0, .server, .server]

theorem front_of_empty_buffer : ¬∀ events final, run step events createNew = some final →
    final.server ≠ .undefined := by
  intro safe
  have reached : (run step underflow createNew).map (·.server) = some .undefined := by decide
  obtain ⟨final, executed, undefined⟩ := Option.map_eq_some_iff.mp reached
  exact safe underflow final executed undefined

end Yolov5Rknn.CamFramedSource
