import Yolov5Rknn.Proofs.DeepSortTable
import Yolov5Rknn.Proofs.GalleryFit

/-! The galleries of a tracker over whole runs: they belong to its confirmed tracks, none
is empty or over the budget, and no call leaves the range of a matrix. A track hands over
all its tentative rows when it is confirmed, and from then on at most one at a time. -/

namespace Yolov5Rknn.DeepSort
open Program Transition

variable {F : Type}

namespace Tracker

variable {tracker : Tracker F}

/-- The galleries of a tracker between two calls. -/
structure Galleries (tracker : Tracker F) : Prop where
  keys : ∀ target, (tracker.metric.samples target).isSome = true ↔ target ∈ tracker.activeTargets
  rows : ∀ target sample, tracker.metric.samples target = some sample →
    1 ≤ sample.length ∧ (sample.length : Int) ≤ tracker.metric.budget

/-- Two tracks of a table in order are told apart by their ids. -/
theorem same_track {tracks : List (Track F)} (ordered : (tracks.map Track.trackId).Pairwise (· < ·)) {one two : Track F}
    (member : one ∈ tracks) (again : two ∈ tracks) (same : one.trackId = two.trackId) : one = two := by
  have distinct : (tracks.map Track.trackId).Nodup := ordered.imp fun less => ne_of_lt less
  exact List.inj_on_of_nodup_map distinct member again same

/-- The rows and the targets an update hands to the metric. -/
theorem erased_targets (tracker : Tracker F) :
    tracker.tidFeatures.map Prod.fst = tracker.activeTargets := by
  simp [tidFeatures, activeTargets, Function.comp_def]

theorem active_distinct (ordered : (tracker.tracks.map Track.trackId).Pairwise (· < ·)) :
    tracker.activeTargets.Nodup := by
  have distinct : (tracker.tracks.map Track.trackId).Nodup := ordered.imp fun less => ne_of_lt less
  exact List.Nodup.sublist (List.filter_sublist.map _) distinct

theorem clearFeatures_active (tracker : Tracker F) : tracker.clearFeatures.activeTargets = tracker.activeTargets := by
  have same : tracker.clearFeatures.tracks = tracker.tracks.map cleared := rfl
  have confirmed : (Track.isConfirmed ∘ cleared : Track F → Bool) = Track.isConfirmed := by
    funext track
    simp [Track.isConfirmed, (cleared_fields track).2.2.2.1]
  have ids : (Track.trackId ∘ cleared : Track F → Int) = Track.trackId :=
    funext fun track => (cleared_fields track).1
  rw [activeTargets, same, List.filter_map, List.map_map, confirmed, ids]
  rfl

theorem galleries_held (galleries : Galleries tracker) :
    ∀ idx ∈ tracker.confirmedTracks, tracker.metric.gallery (tracker.tracks.get idx).trackId ≠ [] := by
  intro idx member
  have confirmed := (List.mem_filter.mp member).2
  have active : (tracker.tracks.get idx).trackId ∈ tracker.activeTargets :=
    List.mem_map_of_mem (List.mem_filter.mpr ⟨List.get_mem _ idx, confirmed⟩)
  obtain ⟨sample, known⟩ := Option.isSome_iff_exists.mp ((galleries.keys _).mpr active)
  have some := (galleries.rows _ sample known).1
  rw [NearNeighborDisMetric.gallery, known, Option.getD_some]
  rintro rfl
  simp at some

end Tracker

variable [Arithmetic F]

section range

variable {tracks detections : Nat} {infinite : F → Bool} {metric : GatedMetricFunc F tracks detections}
variable {maxDistance : F} {trackIndices : List (Fin tracks)}

/-- Costs that are computed without leaving the range of a matrix. -/
def InRange (metric : GatedMetricFunc F tracks detections) (trackIndices : List (Fin tracks)) : Prop :=
  ∀ detectionIndices, Keeps (metric trackIndices detectionIndices) fun _ => True

theorem minCostMatching_keeps (ranged : InRange metric trackIndices) (detectionIndices : List (Fin detections)) :
    Keeps (LinearAssignment.minCostMatching infinite metric maxDistance trackIndices detectionIndices)
      fun _ => True := by
  unfold LinearAssignment.minCostMatching
  split
  · exact .pure trivial
  · next some =>
    refine (ranged detectionIndices).bind fun costMatrix _ => ?_
    have inside : 0 < trackIndices.length ∧ 0 < detectionIndices.length := by
      rw [List.length_pos_iff, List.length_pos_iff]
      tauto
    exact (HungarianOper.solve_pairing infinite _ inside).bind fun _ _ => .pure trivial

theorem matchingCascade_keeps {cascadeDepth : Int} {timeSinceUpdate : Fin tracks → Int}
    (ranged : ∀ chosen, chosen ⊆ trackIndices → InRange metric chosen) :
    Keeps (LinearAssignment.matchingCascade infinite metric maxDistance cascadeDepth timeSinceUpdate trackIndices)
      fun _ => True := by
  refine (Keeps.foldlM (fun _ _ => True) ?_ trivial).bind fun found _ => ?_
  · intro level rest found _
    unfold LinearAssignment.cascadeLevel
    dsimp only
    split
    · exact .pure trivial
    · have chosen : InRange metric (trackIndices.filter fun k => decide (timeSinceUpdate k = 1 + level)) :=
        ranged _ List.filter_sublist.subset
      exact (minCostMatching_keeps chosen _).bind fun _ _ => .pure trivial
  · exact .pure trivial

end range

namespace Tracker

variable {calls : Calls F} {tracker : Tracker F} {detections : List (Detection F)}

theorem gatedMatric_inRange {chosen : List (Fin tracker.tracks.length)}
    (held : ∀ idx ∈ chosen, tracker.metric.gallery (tracker.tracks.get idx).trackId ≠ []) :
    InRange (gatedMatric calls detections tracker) chosen := by
  intro detectionIndices
  have full : ¬((List.finRange chosen.length).any fun row =>
      (tracker.metric.gallery (tracker.tracks.get (chosen.get row)).trackId).isEmpty) = true := by
    rw [List.any_eq_true]
    rintro ⟨row, _, none⟩
    exact held _ (List.get_mem chosen row) (List.isEmpty_iff.mp none)
  unfold gatedMatric NearNeighborDisMetric.distance
  rw [if_neg full]
  exact .pure trivial

theorem matchTracks_keeps
    (held : ∀ idx ∈ tracker.confirmedTracks, tracker.metric.gallery (tracker.tracks.get idx).trackId ≠ []) :
    Keeps (matchTracks calls detections tracker) fun _ => True := by
  refine Keeps.bind (matchingCascade_keeps fun chosen inside => ?_) fun matcha _ => ?_
  · exact gatedMatric_inRange fun idx member => held idx (inside member)
  · exact (minCostMatching_keeps (fun _ => .pure trivial) _).bind fun _ _ => .pure trivial

/-- The rows a confirmed track hands over: at most one, or all its tentative ones at once. -/
theorem Outcome.rows {before after : Track F} (sound : Sound tracker before) (outcome : Outcome calls before after)
    (confirmed : after.state = .confirmed) :
    before.state = .confirmed ∧ after.features.length ≤ 1 ∨
      before.state = .tentative ∧ (after.features.length : Int) = tracker.nInit := by
  cases outcome with
  | updated detection same =>
    subst same
    rw [Track.update_state] at confirmed
    rw [Track.update_features, List.length_append, List.length_singleton]
    split at confirmed
    · next enough =>
      obtain ⟨few, counted⟩ := sound.tentative enough.1
      have limit := sound.nInit
      push_cast
      exact .inr ⟨enough.1, by omega⟩
    · rw [(sound.confirmed confirmed).2]
      exact .inl ⟨confirmed, le_rfl⟩
  | missed same =>
    obtain ⟨state, changed, deleted | ⟨rfl, _, _⟩⟩ := before.markMissed_eq
    · rw [same, changed] at confirmed
      cases confirmed.symm.trans deleted
    · rw [same, changed] at confirmed ⊢
      have confirmed : before.state = .confirmed := confirmed
      change _ ∧ before.features.length ≤ 1 ∨ _
      rw [(sound.confirmed confirmed).2]
      exact .inl ⟨confirmed, Nat.zero_le 1⟩

section update

variable {res : TracherMatchd tracker.tracks.length detections.length} {tracks : List (Track F)}
variable {nextIdx : Int} {track : Track F}

/-- Each confirmed track finds room for what it hands over. -/
theorem fitted_rows (kept : Kept tracker) (galleries : Galleries tracker)
    (room : tracker.nInit ≤ tracker.metric.budget) (survivors : Survivors calls tracker tracks nextIdx)
    (member : track ∈ tracks) (confirmed : track.state = .confirmed) (unwritten : Feature F) (rounds : Nat) :
    ∃ sample, NearNeighborDisMetric.fitted unwritten tracker.metric (track.trackId, track.features) rounds =
        .ok sample ∧ 1 ≤ sample.length ∧ (sample.length : Int) ≤ tracker.metric.budget := by
  have inits := kept.nInit
  obtain ⟨before, listed, outcome⟩ | ⟨detection, trackId, _, _, rfl⟩ := survivors.origin track member
  swap
  · cases confirmed
  have sameId := outcome.trackId
  obtain ⟨old, few⟩ | ⟨new, all⟩ := outcome.rows (kept.sound before listed) confirmed
  · have active : track.trackId ∈ tracker.activeTargets := by
      rw [sameId]
      exact List.mem_map_of_mem (List.mem_filter.mpr ⟨listed, by simp [Track.isConfirmed, old]⟩)
    obtain ⟨sample, known⟩ := Option.isSome_iff_exists.mp ((galleries.keys track.trackId).mpr active)
    obtain ⟨some, bounded⟩ := galleries.rows track.trackId sample known
    obtain ⟨budget, sized⟩ := Int.eq_ofNat_of_zero_le (show 0 ≤ tracker.metric.budget by omega)
    simp only [NearNeighborDisMetric.fitted, known, sized] at bounded room ⊢
    by_cases fits : sample.length + track.features.length ≤ budget
    · rw [NearNeighborDisMetric.slide_grow fits]
      exact ⟨_, rfl, by rw [List.length_append]; omega, by rw [List.length_append]; omega⟩
    · rw [NearNeighborDisMetric.slide_move (by omega) (by omega) (by omega) (by omega)]
      refine ⟨_, rfl, ?_⟩
      rw [List.length_append, List.length_take, List.length_drop]
      omega
  · have absent : tracker.metric.samples track.trackId = none := by
      refine Option.not_isSome_iff_eq_none.mp fun present => ?_
      have active := (galleries.keys track.trackId).mp present
      obtain ⟨other, chosen, same⟩ := List.mem_map.mp active
      obtain ⟨there, confirmed⟩ := List.mem_filter.mp chosen
      obtain rfl := same_track kept.ordered there listed (same.trans sameId)
      simp [Track.isConfirmed, new] at confirmed
    simp only [NearNeighborDisMetric.fitted, absent]
    exact ⟨_, rfl, by omega, by omega⟩

theorem metric_erased : (erase (apply calls detections tracker res)).metric = tracker.metric := by
  rw [apply_eq]
  rfl

variable (calls : Calls F)

theorem erased_distinct (kept : Kept tracker)
    (partitioned : Partitions res (List.finRange tracker.tracks.length) (List.finRange detections.length)) :
    ((erase (apply calls detections tracker res)).tidFeatures.map Prod.fst).Nodup := by
  have survivors : Survivors calls tracker (erase (apply calls detections tracker res)).tracks
      (apply calls detections tracker res).nextIdx := erase_survivors kept partitioned
  rw [erased_targets]
  exact active_distinct survivors.ordered

/-- Every gallery an update asks for is computed in range. -/
theorem erased_fitted (kept : Kept tracker) (galleries : Galleries tracker)
    (room : tracker.nInit ≤ tracker.metric.budget)
    (partitioned : Partitions res (List.finRange tracker.tracks.length) (List.finRange detections.length))
    (rounds : Nat) : ∀ data ∈ (erase (apply calls detections tracker res)).tidFeatures,
      ∃ sample, NearNeighborDisMetric.fitted calls.unwritten tracker.metric data rounds = .ok sample ∧
        1 ≤ sample.length ∧ (sample.length : Int) ≤ tracker.metric.budget := by
  have survivors : Survivors calls tracker (erase (apply calls detections tracker res)).tracks
      (apply calls detections tracker res).nextIdx := erase_survivors kept partitioned
  intro data member
  obtain ⟨track, chosen, rfl⟩ := List.mem_map.mp member
  obtain ⟨listed, confirmed⟩ := List.mem_filter.mp chosen
  exact fitted_rows kept galleries room survivors listed (of_decide_eq_true confirmed) _ rounds

theorem erased_returns (kept : Kept tracker) (galleries : Galleries tracker)
    (room : tracker.nInit ≤ tracker.metric.budget)
    (partitioned : Partitions res (List.finRange tracker.tracks.length) (List.finRange detections.length))
    (rounds : Nat) : ∃ metric, tracker.metric.partialFit calls.unwritten
      (erase (apply calls detections tracker res)).tidFeatures
      (erase (apply calls detections tracker res)).activeTargets rounds = .ok metric :=
  NearNeighborDisMetric.partialFit_returns (erased_distinct calls kept partitioned) _ fun data member =>
    (erased_fitted calls kept galleries room partitioned rounds data member).imp fun _ held => held.1

end update

/-- A call of `update` stays in range and leaves the galleries in order. -/
theorem update_galleries (kept : Kept tracker) (galleries : Galleries tracker)
    (room : tracker.nInit ≤ tracker.metric.budget) :
    Keeps (update calls detections tracker) fun after =>
      Galleries after ∧ after.metric.budget = tracker.metric.budget := by
  refine (matchTracks_keeps (galleries_held galleries)).resulting (fun _ _ => matchWith_partitions) |>.bind
    fun res partitioned => ?_
  dsimp only
  rw [metric_erased]
  intro rounds
  have all := erased_fitted calls kept galleries room partitioned rounds
  obtain ⟨metric, returned⟩ := erased_returns calls kept galleries room partitioned rounds
  refine .inr ⟨_, bind_result.mpr ⟨metric, returned, rfl⟩, ?_⟩
  rw [← erased_targets] at returned
  obtain ⟨⟨sized, _⟩, stored, gone⟩ :=
    NearNeighborDisMetric.partialFit_result (erased_distinct calls kept partitioned) returned
  have found {target : Int} {sample : List (Feature F)} (known : metric.samples target = some sample) :
      target ∈ (erase (apply calls detections tracker res)).activeTargets ∧ 1 ≤ sample.length ∧
        (sample.length : Int) ≤ tracker.metric.budget := by
    by_cases active : target ∈ (erase (apply calls detections tracker res)).tidFeatures.map Prod.fst
    · obtain ⟨data, member, rfl⟩ := List.mem_map.mp active
      obtain ⟨computed, same, kept⟩ := stored data member
      obtain ⟨other, again, bounds⟩ := all data member
      rw [same] at again
      cases again
      rw [known] at kept
      cases kept
      exact ⟨erased_targets (erase (apply calls detections tracker res)) ▸ active, bounds⟩
    · rw [gone target active] at known
      cases known
  refine ⟨⟨fun target => ?_, fun target sample known => ?_⟩, sized⟩
  · change (metric.samples target).isSome = true ↔
      target ∈ (erase (apply calls detections tracker res)).clearFeatures.activeTargets
    rw [clearFeatures_active]
    constructor
    · intro present
      obtain ⟨sample, known⟩ := Option.isSome_iff_exists.mp present
      exact (found known).1
    · intro active
      rw [← erased_targets] at active
      obtain ⟨data, member, rfl⟩ := List.mem_map.mp active
      obtain ⟨sample, _, kept⟩ := stored data member
      rw [kept]
      rfl
  · change _ ∧ (sample.length : Int) ≤ metric.budget
    rw [sized]
    exact (found known).2

/-- An update ends if its association does. -/
theorem update_ends {calls : Calls F} (kept : Kept tracker) (galleries : Galleries tracker)
    (room : tracker.nInit ≤ tracker.metric.budget)
    {post : TracherMatchd tracker.tracks.length detections.length → Prop}
    (ended : Ends (matchTracks calls detections tracker) post) :
    Ends (update calls detections tracker) fun after => ∃ res metric, post res ∧
      Partitions res (List.finRange tracker.tracks.length) (List.finRange detections.length) ∧
      (∃ rounds, tracker.metric.partialFit calls.unwritten (erase (apply calls detections tracker res)).tidFeatures
        (erase (apply calls detections tracker res)).activeTargets rounds = .ok metric) ∧
      after = { clearFeatures (erase (apply calls detections tracker res)) with metric } := by
  refine (ended.resulting fun _ _ => matchWith_partitions).bind fun res ⟨holds, partitioned⟩ => ?_
  dsimp only
  rw [metric_erased]
  obtain ⟨metric, returned⟩ := erased_returns calls kept galleries room partitioned 0
  have fitted : Ends _ (· = metric) := NearNeighborDisMetric.partialFit_steady.ends returned rfl
  refine fitted.bind fun same equal => ?_
  subst equal
  exact .pure ⟨res, same, holds, partitioned, ⟨0, returned⟩, rfl⟩

theorem predict_galleries (galleries : Galleries tracker) : Galleries tracker.predict where
  keys target := by
    have same : tracker.predict.activeTargets = tracker.activeTargets := by
      have confirmed : (Track.isConfirmed ∘ Track.predict : Track F → Bool) = Track.isConfirmed := rfl
      have ids : (Track.trackId ∘ Track.predict : Track F → Int) = Track.trackId := rfl
      simp only [activeTargets, predict, List.filter_map, List.map_map, confirmed, ids]
    rw [same]
    exact galleries.keys target
  rows := galleries.rows

/-- What holds of a tracker with its galleries between any two calls. -/
structure Stocked (nInit nnBudget : Int) (tracker : Tracker F) : Prop where
  kept : Kept tracker
  galleries : Galleries tracker
  nInit : tracker.nInit = nInit
  budget : tracker.metric.budget = nnBudget

omit [Arithmetic F] in
theorem Stocked.room (stocked : Stocked 2 100 tracker) : tracker.nInit ≤ tracker.metric.budget := by
  rw [stocked.nInit, stocked.budget]
  decide

theorem step_stocked {nInit nnBudget : Int} {event : Event F} {after : Tracker F} (room : nInit ≤ nnBudget)
    (stocked : Stocked nInit nnBudget tracker) (taken : step calls event tracker = some after) :
    Stocked nInit nnBudget after := by
  have grown := step_grown stocked.kept taken
  refine ⟨step_kept stocked.kept taken, ?_, grown.nInit.trans stocked.nInit, ?_⟩ <;> cases event with
  | predict =>
    cases taken
    first | exact predict_galleries stocked.galleries | exact stocked.budget
  | update rounds detections =>
    have fits : tracker.nInit ≤ tracker.metric.budget := by
      rw [stocked.nInit, stocked.budget]
      exact room
    have held := (update_galleries stocked.kept stocked.galleries fits).result (update_returned taken rfl)
    first | exact held.1 | exact held.2.trans stocked.budget

/-- In every reachable tracker the confirmed tracks have samples; an update from there
stays in range and leaves galleries of between one row and the budget for exactly the
confirmed tracks. -/
theorem galleries_wellFormed {maxCosineDistance maxIouDistance : F} {nnBudget maxAge nInit : Int}
    (inits : 2 ≤ nInit) (room : nInit ≤ nnBudget) {before : Tracker F}
    (reached : Reachable (step calls) (create maxCosineDistance nnBudget maxIouDistance maxAge nInit) before)
    (detections : List (Detection F)) :
    (∀ idx ∈ before.confirmedTracks, before.metric.gallery (before.tracks.get idx).trackId ≠ []) ∧
      (∀ rounds, update calls detections before rounds ≠ .error .range) ∧
      ∀ rounds after, step calls (.update rounds detections) before = some after →
        Galleries after ∧ after.metric.budget = nnBudget := by
  have initially : Stocked nInit nnBudget (create maxCosineDistance nnBudget maxIouDistance maxAge nInit) :=
    ⟨create_kept _ _ _ _ inits, ⟨by simp [create, activeTargets], by simp [create]⟩, rfl, rfl⟩
  have stocked := reachable_keeps (Stocked nInit nnBudget)
    (fun _ _ _ stocked taken => step_stocked room stocked taken) initially reached
  have fits : before.nInit ≤ before.metric.budget := by
    rw [stocked.nInit, stocked.budget]
    exact room
  refine ⟨galleries_held stocked.galleries,
    (update_galleries stocked.kept stocked.galleries fits).inRange, fun rounds after taken => ?_⟩
  have next := step_stocked room stocked taken
  exact ⟨next.galleries, next.budget⟩

theorem galleries_wellFormed_sample : ∃ before : Tracker ℚ,
    Reachable (step sampleCalls) sampleStart before ∧
      ∀ rounds, update sampleCalls [sampleDetection] before rounds ≠ .error .range := by
  have returns : (run (step sampleCalls)
      [.update 9 [sampleDetection], .predict, .update 9 [sampleDetection], .predict] sampleStart).isSome := by
    decide +kernel
  obtain ⟨before, executed⟩ := Option.isSome_iff_exists.mp returns
  exact ⟨before, ⟨_, executed⟩,
    (galleries_wellFormed (by decide) (by decide) ⟨_, executed⟩ [sampleDetection]).2.1⟩

end Tracker
end Yolov5Rknn.DeepSort
