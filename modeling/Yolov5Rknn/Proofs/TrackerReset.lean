import Yolov5Rknn.Proofs.TrackerRenumbering
import Yolov5Rknn.Proofs.TrackerDetections

/-! `Reset` of the wrapper, compared with a new wrapper of the same arguments. -/

namespace Yolov5Rknn.ByteTrackerWrapper
open BYTETracker Transition

section renumber

variable {F : Type} (shift : Int)

def DetectResult.renumber (result : DetectResult F) : DetectResult F := { result with trackId := result.trackId + shift }

/-- A group under ids moved by a constant. -/
def DetectResultGroup.renumber (group : DetectResultGroup F) : DetectResultGroup F :=
  { group with results := group.results.map (DetectResult.renumber shift) }

def Wrapper.renumber (wrapper : Wrapper F) : Wrapper F := { wrapper with tracker := wrapper.tracker.renumber shift }

end renumber

variable {F : Type} {calls : Calls F} {shift count : Int} {wrapper : Wrapper F}

theorem collect_renumber (tracks : List (STrack F)) (results : List (DetectResult F)) :
    collect calls (tracks.map (STrack.renumber shift)) (results.map (DetectResult.renumber shift)) =
      (collect calls tracks results).map (DetectResult.renumber shift) := by
  induction tracks generalizing results with
  | nil => rfl
  | cons track rest ih =>
    rw [List.map_cons, collect, collect, List.length_map]
    split
    · rfl
    · have one : results.map (DetectResult.renumber shift) ++ [out calls (track.renumber shift)] =
          (results ++ [out calls track]).map (DetectResult.renumber shift) := by
        rw [List.map_append]
        rfl
      rw [one, ih]

variable [Arithmetic F]

theorem update_renumber (calls : Calls F) (shift count : Int) (wrapper : Wrapper F) (detections : DetectResultGroup F) :
    (update calls detections (count + shift) (wrapper.renumber shift)).1 =
        (update calls detections count wrapper).1.renumber shift ∧
      (update calls detections (count + shift) (wrapper.renumber shift)).2 =
        (update calls detections count wrapper).2.renumber shift ∧
      (tracks calls detections (count + shift) (wrapper.renumber shift)).count =
        (tracks calls detections count wrapper).count + shift := by
  have output : (tracks calls detections (count + shift) (wrapper.renumber shift)).output =
      (tracks calls detections count wrapper).output.map (STrack.renumber shift) := output_renumber rfl rfl
  have tracker : (tracks calls detections (count + shift) (wrapper.renumber shift)).tracker =
      (tracks calls detections count wrapper).tracker.renumber shift := tracker_renumber rfl rfl
  refine ⟨?_, ?_, count_renumber rfl rfl⟩
  · rw [update, update, output]
    exact congrArg (DetectResultGroup.mk detections.id) (collect_renumber _ [])
  · rw [update, update, tracker]
    rfl

/-- The groups that calls of `Update` return one after the other. -/
def groups (calls : Calls F) : List (DetectResultGroup F) → Session F → List (DetectResultGroup F)
  | [], _ => []
  | detections :: rest, session =>
    (update calls detections session.count session.wrapper).1 :: groups calls rest
      ⟨(update calls detections session.count session.wrapper).2,
        (tracks calls detections session.count session.wrapper).count⟩

theorem groups_renumber (later : List (DetectResultGroup F)) :
    groups calls later ⟨wrapper.renumber shift, count + shift⟩ =
      (groups calls later ⟨wrapper, count⟩).map (DetectResultGroup.renumber shift) := by
  induction later generalizing wrapper count with
  | nil => rfl
  | cons detections rest ih =>
    obtain ⟨group, next, counted⟩ := update_renumber calls shift count wrapper detections
    rw [groups, groups, List.map_cons, group, next, counted, ih]

/-- The arguments for which those that `Reset` passes on make the same tracker. -/
structure Restored (calls : Calls F) (frameRate trackBuffer : Int) (trackThresh highThresh matchThresh : F) : Prop where
  maxTimeLost : calls.toInt (((max 1 frameRate : Int) : F) / 30 * ((max 1 trackBuffer : Int) : F)) =
    calls.toInt (((max 1 frameRate : Int) : F) / 30 * ((30 : Int) : F))
  trackThresh : trackThresh = 1 / 2
  highThresh : highThresh = 3 / 5
  matchThresh : matchThresh = 4 / 5

variable {frameRate trackBuffer : Int} {trackThresh highThresh matchThresh : F} {session next : Session F}
  {event : Event F}

theorem step_frameRate (taken : step calls event session = some next) :
    next.wrapper.frameRate = session.wrapper.frameRate := by
  cases event <;> cases taken <;> rfl

theorem reset_eq_iff (kept : wrapper.frameRate = max 1 frameRate) :
    reset calls wrapper = create calls frameRate trackBuffer trackThresh highThresh matchThresh ↔
      Restored calls frameRate trackBuffer trackThresh highThresh matchThresh := by
  rw [reset, create, kept]
  constructor
  · intro same
    injection same with tracker
    injection tracker with track high matching _ lost
    exact ⟨lost.symm, track.symm, high.symm, matching.symm⟩
  · intro restored
    rw [restored.trackThresh, restored.highThresh, restored.matchThresh, BYTETracker.create, BYTETracker.create,
      restored.maxTimeLost]

/-- After any use of a wrapper `Reset` makes a new wrapper of it if and only if the
arguments were those that `Reset` passes on; then the groups that follow are those of a
new wrapper, under ids that start elsewhere. -/
theorem reset_restores (calls : Calls F) (frameRate trackBuffer count : Int) (trackThresh highThresh matchThresh : F)
    (history : List (Event F)) {used : Session F} (ran : run (step calls) history
      ⟨create calls frameRate trackBuffer trackThresh highThresh matchThresh, count⟩ = some used) :
    (reset calls used.wrapper = create calls frameRate trackBuffer trackThresh highThresh matchThresh ↔
        Restored calls frameRate trackBuffer trackThresh highThresh matchThresh) ∧
      (Restored calls frameRate trackBuffer trackThresh highThresh matchThresh →
        ∀ start, ∃ shift, ∀ later, groups calls later ⟨reset calls used.wrapper, used.count⟩ =
          (groups calls later ⟨create calls frameRate trackBuffer trackThresh highThresh matchThresh, start⟩).map
            (DetectResultGroup.renumber shift)) := by
  have kept : used.wrapper.frameRate = max 1 frameRate :=
    reachable_keeps (fun session : Session F => session.wrapper.frameRate = max 1 frameRate)
      (fun _ _ _ same taken => (step_frameRate taken).trans same) rfl ⟨history, ran⟩
  refine ⟨reset_eq_iff kept, fun restored start => ⟨used.count - start, fun later => ?_⟩⟩
  rw [(reset_eq_iff kept).mpr restored, ← groups_renumber, add_sub_cancel]
  rfl

def eagerSession : Session ℚ := ⟨create sampleCalls 30 30 (19 / 20) (3 / 5) (4 / 5), 0⟩

theorem reset_restores_sample : ∃ used shift,
    run (step sampleCalls) [.update sampleGroup, .nextId] ⟨create sampleCalls 30 30 (1 / 2) (3 / 5) (4 / 5), 0⟩ =
        some used ∧
      reset sampleCalls used.wrapper = create sampleCalls 30 30 (1 / 2) (3 / 5) (4 / 5) ∧
      ∀ later, groups sampleCalls later ⟨reset sampleCalls used.wrapper, used.count⟩ =
        (groups sampleCalls later ⟨create sampleCalls 30 30 (1 / 2) (3 / 5) (4 / 5), 7⟩).map
          (DetectResultGroup.renumber shift) := by
  have restored : Restored sampleCalls 30 30 (1 / 2) (3 / 5) (4 / 5) := ⟨rfl, rfl, rfl, rfl⟩
  obtain ⟨exact, again⟩ := reset_restores sampleCalls 30 30 0 (1 / 2) (3 / 5) (4 / 5) [.update sampleGroup, .nextId] rfl
  obtain ⟨shift, same⟩ := again restored 7
  exact ⟨_, shift, rfl, exact.mpr restored, same⟩

/-- A tracker that waits for scores of 0.95 shows an object of score 0.9 after `Reset`. -/
theorem reset_forgets : ¬∃ shift,
    groups sampleCalls [sampleGroup] ⟨reset sampleCalls eagerSession.wrapper, eagerSession.count⟩ =
      (groups sampleCalls [sampleGroup] eagerSession).map (DetectResultGroup.renumber shift) := by
  intro forgotten
  obtain ⟨shift, same⟩ := forgotten
  have shown : (groups sampleCalls [sampleGroup] ⟨reset sampleCalls eagerSession.wrapper, eagerSession.count⟩).map
      (fun group => group.results.length) = [1] := by decide +kernel
  have hidden : (groups sampleCalls [sampleGroup] eagerSession).map (fun group => group.results.length) = [0] := by
    decide +kernel
  have kept : ((fun group => group.results.length) ∘ DetectResultGroup.renumber shift : DetectResultGroup ℚ → Nat) =
      fun group => group.results.length := funext fun group => List.length_map _
  rw [same, List.map_map, kept, hidden] at shown
  cases shown

end Yolov5Rknn.ByteTrackerWrapper
