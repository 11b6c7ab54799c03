import Yolov5Rknn.Proofs.ReidConfirmation
import Yolov5Rknn.Logic.Simulation

/-! What DeepSort shows over a whole run. Each call of the wrapper is a run of its tracker, so the ids
of an overlay are those of the track table, and an id that has left the table is never shown again. -/

namespace Yolov5Rknn.DeepSortWrapper
open Yolov5Rknn.DeepSort Program Transition Simulation
open ByteTrackerWrapper (DetectResult DetectResultGroup objNumbMaxSize)

variable {Raw Pixel F : Type} [Arithmetic F] {calls : Calls F} {convert : Conversions Raw Pixel F}
variable {wrapper next : Wrapper Pixel F} {event : Event Raw F} {group : DetectResultGroup F}

/-- A call predicts the tracks, and updates them where it sorts a frame; without a frame it does neither. -/
theorem step_simulates : Simulates (step calls convert) (Tracker.step calls)
    fun (wrapper : Wrapper Pixel F) tracker => tracker = wrapper.tracker.objTracker := by
  rintro event wrapper next tracker rfl taken
  obtain ⟨group, returned⟩ := step_returned taken
  obtain ⟨_, rfl⟩ | ⟨_, _, _, _, predicted | ⟨_, rows, updated⟩⟩ := update_cases returned
  · exact ⟨[], _, rfl, rfl⟩
  · exact ⟨[.predict], _, rfl, predicted.symm⟩
  · refine ⟨[.predict, .update event.rounds rows], next.tracker.objTracker, ?_, rfl⟩
    have taken : Tracker.step calls (.update event.rounds rows) wrapper.tracker.objTracker.predict =
        some next.tracker.objTracker := by
      simp [Tracker.step, updated, Except.toOption]
    have second : run (Tracker.step calls) [.update event.rounds rows] wrapper.tracker.objTracker.predict =
        some next.tracker.objTracker := by
      rw [run_cons, taken]
      rfl
    exact second

/-- The tracks that are shown, as far as there is room. -/
def recentTracks (wrapper : Wrapper Pixel F) : List (Track F) :=
  wrapper.tracker.getConfirmedTracks.filter fun track => track.timeSinceUpdate ≤ max 1 wrapper.reidInterval

theorem collect_eq (tracks : List (Track F)) (results : List (DetectResult F)) :
    collect convert wrapper tracks results = results ++
      ((tracks.filter fun track => track.timeSinceUpdate ≤ max 1 wrapper.reidInterval).take
        (objNumbMaxSize - results.length)).map (out convert wrapper.labels) := by
  induction tracks generalizing results with
  | nil => simp [collect]
  | cons track rest ih =>
    rw [collect]
    split
    next full =>
      rw [Nat.sub_eq_zero_of_le full, List.take_zero, List.map_nil, List.append_nil]
    next room =>
      split
      next old =>
        have skipped : ¬track.timeSinceUpdate ≤ max 1 wrapper.reidInterval := by omega
        rw [ih, List.filter_cons_of_neg (by simpa using skipped)]
      next recent =>
        have kept : track.timeSinceUpdate ≤ max 1 wrapper.reidInterval := by omega
        have more : objNumbMaxSize - results.length = objNumbMaxSize - (results.length + 1) + 1 := by omega
        rw [ih, List.filter_cons_of_pos (by simpa using kept), List.length_append, List.length_singleton, more,
          List.take_succ_cons, List.map_cons, List.append_assoc, List.singleton_append]

/-- What a call returns: nothing without a frame, the detections where no track is recent enough, or else
its tracks. -/
inductive Presents (convert : Conversions Raw Pixel F) (event : Event Raw F) (wrapper next : Wrapper Pixel F)
    (group : DetectResultGroup F) : Prop where
  | blank (missing : frameOf event.yuyv event.width event.height = none) (same : next = wrapper)
    (empty : group.results = [])
  | detections (none : recentTracks next = []) (same : group = event.detections)
  | tracks (entries : group.results = ((recentTracks next).take objNumbMaxSize).map (out convert next.labels))

theorem update_presents (returned : update calls convert event.yuyv event.width event.height event.detections wrapper
    event.rounds = .ok (group, next)) : Presents convert event wrapper next group := by
  cases framed : frameOf event.yuyv event.width event.height with
  | none =>
    unfold update at returned
    rw [framed] at returned
    cases pure_result.mp returned
    exact .blank framed rfl rfl
  | some frame =>
    obtain ⟨missing, _⟩ | ⟨same, _⟩ := update_cases returned
    · rw [framed] at missing
      cases missing
    · have entries : collect convert next next.tracker.getConfirmedTracks [] =
          ((recentTracks next).take objNumbMaxSize).map (out convert next.labels) := collect_eq _ []
      unfold shown at same
      rw [entries] at same
      simp only at same
      split at same
      next fallback =>
        refine .detections ?_ same
        have empty := (Bool.and_eq_true_iff.mp fallback).1
        rw [List.isEmpty_iff, List.map_eq_nil_iff, List.take_eq_nil_iff] at empty
        exact empty.resolve_left (by decide)
      next => exact .tracks (congrArg DetectResultGroup.results same)

/-- The ids of the tracks shown are issued ones, in the order in which they were. -/
structure Numbered (wrapper : Wrapper Pixel F) : Prop where
  ordered : ((recentTracks wrapper).map Track.trackId).Pairwise (· < ·)
  issued : ∀ track ∈ recentTracks wrapper, 1 ≤ track.trackId ∧ track.trackId < wrapper.tracker.objTracker.nextIdx

omit [Arithmetic F] in
theorem recentTracks_sublist (wrapper : Wrapper Pixel F) :
    (recentTracks wrapper).Sublist wrapper.tracker.objTracker.tracks :=
  List.filter_sublist.trans List.filter_sublist

theorem reachable_numbered {featureExtractor1 featureExtractor2 : FeatureTensor Pixel F} {reidInterval : Int}
    {labels : List (List UInt8)}
    (reached : Reachable (step calls convert) (create featureExtractor1 featureExtractor2 reidInterval labels) wrapper) :
    Tracker.Kept wrapper.tracker.objTracker ∧ Numbered wrapper := by
  obtain ⟨tracker, projected, rfl⟩ := step_simulates.reachable rfl reached
  have created : Tracker.Kept (create featureExtractor1 featureExtractor2 reidInterval labels).tracker.objTracker :=
    Tracker.create_kept _ _ _ _ le_rfl
  obtain ⟨kept, grown⟩ := Tracker.reachable_kept created projected
  refine ⟨kept, kept.ordered.sublist ((recentTracks_sublist wrapper).map Track.trackId), ?_⟩
  intro track member
  have listed := (recentTracks_sublist wrapper).subset member
  refine ⟨?_, (kept.sound track listed).below⟩
  rcases grown.ids track listed with old | new
  · cases old
  · exact new

/-- Over every run of `Update` on arbitrary frames and detections: a call shows either the detections it was given or
confirmed tracks under ids that grow, at most 64 of them; and a track shown at any later time that
has an id issued by now is one of the table's tracks now. -/
theorem overlays_identify {featureExtractor1 featureExtractor2 : FeatureTensor Pixel F} {reidInterval : Int}
    {labels : List (List UInt8)}
    (reached : Reachable (step calls convert) (create featureExtractor1 featureExtractor2 reidInterval labels) wrapper)
    (returned : update calls convert event.yuyv event.width event.height event.detections wrapper event.rounds =
      .ok (group, next)) :
    Presents convert event wrapper next group ∧ Numbered next ∧
      ∀ later, Reachable (step calls convert) next later → ∀ track ∈ recentTracks later,
        track.trackId < next.tracker.objTracker.nextIdx →
          track.trackId ∈ next.tracker.objTracker.tracks.map Track.trackId := by
  have taken : step calls convert event wrapper = some next := by
    simp [step, returned, Except.toOption]
  obtain ⟨kept, numbered⟩ := reachable_numbered (reached.extend taken)
  refine ⟨update_presents returned, numbered, ?_⟩
  intro later continued track member issued
  obtain ⟨tracker, projected, rfl⟩ := step_simulates.reachable rfl continued
  obtain ⟨_, grown⟩ := Tracker.reachable_kept kept projected
  rcases grown.ids track ((recentTracks_sublist later).subset member) with old | new
  · exact old
  · omega

/-- Sorted in every frame, an object is shown under its id from the second one on. -/
theorem overlays_identify_sample : ∃ wrapper group next, sampleRun 1 1 = some wrapper ∧
    update Tracker.sampleCalls sampleConversions sampleSight.yuyv sampleSight.width sampleSight.height
      sampleSight.detections wrapper sampleSight.rounds = .ok (group, next) ∧
    group.results.map DetectResult.trackId = [1] ∧ Presents sampleConversions sampleSight wrapper next group ∧
    Numbered next := by
  have outcome : ((sampleRun 1 1).bind fun wrapper =>
      (update Tracker.sampleCalls sampleConversions sampleSight.yuyv sampleSight.width sampleSight.height
        sampleSight.detections wrapper sampleSight.rounds).toOption.map fun result =>
          result.1.results.map DetectResult.trackId) = some [1] := by decide +kernel
  obtain ⟨wrapper, executed, updated⟩ := Option.bind_eq_some_iff.mp outcome
  obtain ⟨result, returned, ids⟩ := Option.map_eq_some_iff.mp updated
  have ok : update Tracker.sampleCalls sampleConversions sampleSight.yuyv sampleSight.width sampleSight.height
      sampleSight.detections wrapper sampleSight.rounds = .ok (result.1, result.2) := by
    cases same : update Tracker.sampleCalls sampleConversions sampleSight.yuyv sampleSight.width sampleSight.height
        sampleSight.detections wrapper sampleSight.rounds with
    | error fault =>
      rw [same] at returned
      cases returned
    | ok other =>
      rw [same] at returned
      cases returned
      rfl
  obtain ⟨presents, numbered, _⟩ := overlays_identify ⟨_, executed⟩ ok
  exact ⟨wrapper, result.1, result.2, executed, ok, ids, presents, numbered⟩

end Yolov5Rknn.DeepSortWrapper
