import Yolov5Rknn.Proofs.DeepSortFates

/-! The track table of DeepSort over whole runs: ids grow and are never used again,
nothing deleted stays, a tentative track was updated in the last update and holds one
feature row a hit, a confirmed one holds none. -/

namespace Yolov5Rknn.DeepSort.Tracker
open Program Transition

variable {F : Type}

/-- What holds of a track between any two calls. -/
structure Sound (tracker : Tracker F) (track : Track F) : Prop where
  below : track.trackId < tracker.nextIdx
  nInit : track.nInit = tracker.nInit
  maxAge : track.maxAge = tracker.maxAge
  undeleted : track.state ≠ .deleted
  tentative : track.state = .tentative →
    track.hits < tracker.nInit ∧ (track.features.length : Int) = track.hits
  confirmed : track.state = .confirmed → tracker.nInit ≤ track.hits ∧ track.features = []

structure Kept (tracker : Tracker F) : Prop where
  nInit : 2 ≤ tracker.nInit
  ordered : (tracker.tracks.map Track.trackId).Pairwise (· < ·)
  sound : ∀ track ∈ tracker.tracks, Sound tracker track

/-- The track table after an update. -/
structure Table (tracker : Tracker F) : Prop where
  ordered : (tracker.tracks.map Track.trackId).Pairwise (· < ·)
  below : ∀ track ∈ tracker.tracks, track.trackId < tracker.nextIdx
  undeleted : ∀ track ∈ tracker.tracks, track.state ≠ .deleted
  tentative : ∀ track ∈ tracker.tracks, track.state = .tentative →
    track.timeSinceUpdate = 0 ∧ track.hits < tracker.nInit ∧ (track.features.length : Int) = track.hits
  confirmed : ∀ track ∈ tracker.tracks, track.state = .confirmed →
    tracker.nInit ≤ track.hits ∧ track.timeSinceUpdate ≤ tracker.maxAge ∧ track.features = []

theorem create_kept (maxCosineDistance : F) (nnBudget : Int) (maxIouDistance : F) (maxAge : Int) {nInit : Int}
    (hits : 2 ≤ nInit) : Kept (create maxCosineDistance nnBudget maxIouDistance maxAge nInit) :=
  ⟨hits, by simp [create], by simp [create]⟩

/-- Taking the features of one track. -/
def cleared (track : Track F) : Track F := if track.isConfirmed then { track with features := [] } else track

theorem cleared_fields (track : Track F) :
    (cleared track).trackId = track.trackId ∧ (cleared track).nInit = track.nInit ∧
      (cleared track).maxAge = track.maxAge ∧ (cleared track).state = track.state ∧
      (cleared track).hits = track.hits ∧ (cleared track).timeSinceUpdate = track.timeSinceUpdate ∧
      (cleared track).features = if track.state = .confirmed then [] else track.features := by
  unfold cleared Track.isConfirmed
  by_cases confirmed : track.state = .confirmed <;> simp [confirmed]

/-- What a run leaves of the ids and of the tracker's parameters. -/
structure Grown (start later : Tracker F) : Prop where
  nextIdx : start.nextIdx ≤ later.nextIdx
  ids : ∀ track ∈ later.tracks, track.trackId ∈ start.tracks.map Track.trackId ∨ start.nextIdx ≤ track.trackId
  nInit : later.nInit = start.nInit
  maxAge : later.maxAge = start.maxAge

theorem Grown.refl (tracker : Tracker F) : Grown tracker tracker :=
  ⟨le_rfl, fun _ member => .inl (List.mem_map_of_mem member), rfl, rfl⟩

theorem Grown.trans {start middle later : Tracker F} (first : Grown start middle) (last : Grown middle later) :
    Grown start later := by
  refine ⟨first.nextIdx.trans last.nextIdx, fun track member => ?_, last.nInit.trans first.nInit,
    last.maxAge.trans first.maxAge⟩
  obtain old | new := last.ids track member
  · obtain ⟨before, listed, same⟩ := List.mem_map.mp old
    rw [← same]
    exact first.ids before listed
  · exact .inr (first.nextIdx.trans new)

variable [Arithmetic F] {calls : Calls F} {tracker : Tracker F}

theorem predict_kept (kept : Kept tracker) : Kept tracker.predict where
  nInit := kept.nInit
  ordered := by
    simpa [predict, Function.comp_def] using kept.ordered
  sound track member := by
    obtain ⟨before, old, rfl⟩ := List.mem_map.mp member
    have sound := kept.sound before old
    exact ⟨sound.below, sound.nInit, sound.maxAge, sound.undeleted, sound.tentative, sound.confirmed⟩

/-- What holds of a track when its features are about to be taken. -/
structure Ripe (tracker : Tracker F) (track : Track F) : Prop where
  nInit : track.nInit = tracker.nInit
  maxAge : track.maxAge = tracker.maxAge
  tentative : track.state = .tentative →
    track.timeSinceUpdate = 0 ∧ track.hits < tracker.nInit ∧ (track.features.length : Int) = track.hits
  confirmed : track.state = .confirmed →
    tracker.nInit ≤ track.hits ∧ (track.timeSinceUpdate = 0 ∨ track.timeSinceUpdate ≤ tracker.maxAge)

theorem Outcome.trackId {before after : Track F} (outcome : Outcome calls before after) :
    after.trackId = before.trackId := by
  cases outcome with
  | updated detection same => rw [same, Track.update_trackId]
  | missed same =>
    obtain ⟨state, changed, _⟩ := before.markMissed_eq
    rw [same, changed]

theorem Outcome.ripe {before after : Track F} (sound : Sound tracker before)
    (outcome : Outcome calls before after) (undeleted : after.state ≠ .deleted) : Ripe tracker after := by
  cases outcome with
  | updated detection same =>
    subst same
    refine ⟨sound.nInit, sound.maxAge, ?_, ?_⟩
    · intro tentative
      rw [Track.update_state] at tentative
      split at tentative
      · cases tentative
      · next few =>
        have counts := sound.tentative tentative
        rw [sound.nInit, not_and, not_le] at few
        refine ⟨rfl, few tentative, ?_⟩
        rw [Track.update_features, Track.update_hits, List.length_append, List.length_singleton]
        push_cast
        omega
    · intro confirmed
      refine ⟨?_, .inl rfl⟩
      rw [Track.update_state] at confirmed
      split at confirmed
      · next enough =>
        rw [Track.update_hits, ← sound.nInit]
        exact enough.2
      · have := (sound.confirmed confirmed).1
        rw [Track.update_hits]
        omega
  | missed same =>
    obtain ⟨state, changed, deleted | ⟨rfl, settled, young⟩⟩ := before.markMissed_eq
    · rw [same, changed] at undeleted
      exact absurd deleted undeleted
    · rw [same, changed]
      refine ⟨sound.nInit, sound.maxAge, fun tentative => absurd tentative settled, fun confirmed => ?_⟩
      exact ⟨(sound.confirmed confirmed).1, .inr (by rw [← sound.maxAge]; exact young)⟩

theorem started_ripe (kept : Kept tracker) (trackId : Int) (detection : Detection F) :
    Ripe tracker (started tracker.nInit tracker.maxAge trackId detection) where
  nInit := rfl
  maxAge := rfl
  tentative _ := ⟨rfl, by have := kept.nInit; change (1 : Int) < _; omega, rfl⟩
  confirmed confirmed := by cases confirmed

theorem mem_startedAll {nInit maxAge first : Int} {rest : List (Detection F)} {track : Track F}
    (member : track ∈ startedAll nInit maxAge first rest) :
    ∃ detection ∈ rest, ∃ trackId, first ≤ trackId ∧ trackId < first + rest.length ∧
      track = started nInit maxAge trackId detection := by
  induction rest generalizing first with
  | nil => cases member
  | cons detection rest ih =>
    simp only [List.length_cons]
    push_cast
    obtain rfl | later := List.mem_cons.mp member
    · exact ⟨detection, List.mem_cons_self, first, le_rfl, by omega, rfl⟩
    · obtain ⟨other, listed, trackId, low, high, same⟩ := ih later
      exact ⟨other, List.mem_cons_of_mem _ listed, trackId, by omega, by omega, same⟩

theorem startedAll_ordered {nInit maxAge first : Int} (rest : List (Detection F)) :
    ((startedAll nInit maxAge first rest).map Track.trackId).Pairwise (· < ·) := by
  induction rest generalizing first with
  | nil => exact List.Pairwise.nil
  | cons detection rest ih =>
    refine List.pairwise_cons.mpr ⟨fun trackId member => ?_, ih⟩
    obtain ⟨track, listed, rfl⟩ := List.mem_map.mp member
    obtain ⟨_, _, trackId, low, _, rfl⟩ := mem_startedAll listed
    change first < trackId
    omega

section update

variable {detections : List (Detection F)} {res : TracherMatchd tracker.tracks.length detections.length}

theorem outcomes_ids {before after : List (Track F)} (outcomes : List.Forall₂ (Outcome calls) before after) :
    after.map Track.trackId = before.map Track.trackId := by
  induction outcomes with
  | nil => rfl
  | cons outcome _ ih => rw [List.map_cons, List.map_cons, outcome.trackId, ih]

/-- The tracks an update is left with once the deleted ones are erased. -/
structure Survivors (calls : Calls F) (tracker : Tracker F) (tracks : List (Track F)) (nextIdx : Int) : Prop where
  ordered : (tracks.map Track.trackId).Pairwise (· < ·)
  undeleted : ∀ track ∈ tracks, track.state ≠ .deleted
  origin : ∀ track ∈ tracks, (∃ before ∈ tracker.tracks, Outcome calls before track) ∨
    ∃ detection trackId, tracker.nextIdx ≤ trackId ∧ trackId < nextIdx ∧
      track = started tracker.nInit tracker.maxAge trackId detection
  grown : tracker.nextIdx ≤ nextIdx

theorem erase_survivors (kept : Kept tracker)
    (partitioned : Partitions res (List.finRange tracker.tracks.length) (List.finRange detections.length)) :
    Survivors calls tracker (erase (apply calls detections tracker res)).tracks
      (apply calls detections tracker res).nextIdx := by
  obtain ⟨old, split, outcomes⟩ := apply_outcomes calls partitioned
  have next : (apply calls detections tracker res).nextIdx =
      tracker.nextIdx + (res.unmatchedDetections.map detections.get).length := by
    rw [apply_eq, List.length_map]
  refine ⟨?_, ?_, ?_, by omega⟩
  · refine List.Pairwise.sublist (List.filter_sublist.map _) ?_
    rw [split, List.map_append, outcomes_ids outcomes]
    refine List.pairwise_append.mpr ⟨kept.ordered, startedAll_ordered _, fun old member new started => ?_⟩
    obtain ⟨track, listed, rfl⟩ := List.mem_map.mp member
    obtain ⟨other, fresh, rfl⟩ := List.mem_map.mp started
    obtain ⟨_, _, trackId, low, _, rfl⟩ := mem_startedAll fresh
    exact lt_of_lt_of_le (kept.sound track listed).below low
  · intro track member
    simpa [Track.isDeleted] using (List.mem_filter.mp member).2
  · intro track member
    have listed := List.mem_of_mem_filter member
    rw [split] at listed
    obtain kept | new := List.mem_append.mp listed
    · left
      obtain ⟨position, inside, rfl⟩ := List.mem_iff_getElem.mp kept
      have length := outcomes.length_eq
      exact ⟨tracker.tracks[position], List.getElem_mem _, outcomes.get (by omega) inside⟩
    · right
      obtain ⟨detection, _, trackId, low, high, same⟩ := mem_startedAll new
      exact ⟨detection, trackId, low, by rw [next]; exact high, same⟩

variable {tracks : List (Track F)} {nextIdx : Int} {track : Track F}

theorem Survivors.ripe (kept : Kept tracker) (survivors : Survivors calls tracker tracks nextIdx)
    (member : track ∈ tracks) : Ripe tracker track := by
  obtain ⟨before, listed, outcome⟩ | ⟨detection, trackId, _, _, rfl⟩ := survivors.origin track member
  · exact outcome.ripe (kept.sound before listed) (survivors.undeleted track member)
  · exact started_ripe kept trackId detection

theorem Survivors.ids (survivors : Survivors calls tracker tracks nextIdx) (member : track ∈ tracks) :
    track.trackId ∈ tracker.tracks.map Track.trackId ∨ tracker.nextIdx ≤ track.trackId := by
  obtain ⟨before, listed, outcome⟩ | ⟨detection, trackId, low, _, rfl⟩ := survivors.origin track member
  · rw [outcome.trackId]
    exact .inl (List.mem_map_of_mem listed)
  · exact .inr low

theorem Survivors.below (kept : Kept tracker) (survivors : Survivors calls tracker tracks nextIdx)
    (member : track ∈ tracks) : track.trackId < nextIdx := by
  obtain ⟨before, listed, outcome⟩ | ⟨detection, trackId, _, high, rfl⟩ := survivors.origin track member
  · rw [outcome.trackId]
    exact lt_of_lt_of_le (kept.sound before listed).below survivors.grown
  · exact high

end update

variable {rounds : Nat} {detections : List (Detection F)} {after : Tracker F}

/-- An update leaves the survivors of its tracks with the features of the confirmed
ones taken. -/
theorem update_survivors (kept : Kept tracker)
    (returned : update calls detections tracker rounds = .ok after) :
    ∃ tracks, Survivors calls tracker tracks after.nextIdx ∧ after.tracks = tracks.map cleared ∧
      after.nInit = tracker.nInit ∧ after.maxAge = tracker.maxAge := by
  obtain ⟨res, metric, _, partitioned, _, rfl⟩ := update_result returned
  have same : (apply calls detections tracker res).nInit = tracker.nInit ∧
      (apply calls detections tracker res).maxAge = tracker.maxAge := by
    rw [apply_eq]
    exact ⟨rfl, rfl⟩
  exact ⟨_, erase_survivors kept partitioned, rfl, same⟩

theorem update_table (kept : Kept tracker) (returned : update calls detections tracker rounds = .ok after) :
    Kept after ∧ (0 ≤ tracker.maxAge → Table after) := by
  obtain ⟨tracks, survivors, same, nInit, maxAge⟩ := update_survivors kept returned
  have ordered : (after.tracks.map Track.trackId).Pairwise (· < ·) := by
    have keep : (Track.trackId ∘ cleared : Track F → Int) = Track.trackId :=
      funext fun track => (cleared_fields track).1
    rw [same, List.map_map, keep]
    exact survivors.ordered
  have each : ∀ track ∈ after.tracks, Sound after track ∧
      (track.state = .tentative → track.timeSinceUpdate = 0) ∧
      (track.state = .confirmed → track.timeSinceUpdate = 0 ∨ track.timeSinceUpdate ≤ after.maxAge) := by
    intro track member
    rw [same] at member
    obtain ⟨before, listed, rfl⟩ := List.mem_map.mp member
    obtain ⟨trackId, init, age, state, hits, since, features⟩ := cleared_fields before
    have ripe := survivors.ripe kept listed
    refine ⟨⟨?_, init.trans (ripe.nInit.trans nInit.symm), age.trans (ripe.maxAge.trans maxAge.symm), ?_, ?_, ?_⟩,
      ?_, ?_⟩
    · rw [trackId]
      exact survivors.below kept listed
    · rw [state]
      exact survivors.undeleted before listed
    · rw [state, hits, features, nInit]
      intro tentative
      obtain ⟨_, few, rows⟩ := ripe.tentative tentative
      exact ⟨few, by simpa [tentative] using rows⟩
    · rw [state, hits, features, nInit]
      intro confirmed
      exact ⟨(ripe.confirmed confirmed).1, if_pos confirmed⟩
    · rw [state, since]
      exact fun tentative => (ripe.tentative tentative).1
    · rw [state, since, maxAge]
      exact fun confirmed => (ripe.confirmed confirmed).2
  refine ⟨⟨nInit ▸ kept.nInit, ordered, fun track member => (each track member).1⟩, fun ages =>
    ⟨ordered, fun track member => (each track member).1.below,
      fun track member => (each track member).1.undeleted, ?_, ?_⟩⟩
  · intro track member tentative
    obtain ⟨sound, since, _⟩ := each track member
    exact ⟨since tentative, sound.tentative tentative⟩
  · intro track member confirmed
    obtain ⟨sound, _, age⟩ := each track member
    have young : track.timeSinceUpdate ≤ after.maxAge := by
      obtain now | young := age confirmed
      · rw [now, maxAge]
        exact ages
      · exact young
    exact ⟨(sound.confirmed confirmed).1, young, (sound.confirmed confirmed).2⟩

theorem update_returned {event : Event F} {rounds : Nat} {detections : List (Detection F)}
    (taken : step calls event tracker = some after) (same : event = .update rounds detections) :
    update calls detections tracker rounds = .ok after := by
  subst same
  revert taken
  simp only [step]
  cases update calls detections tracker rounds <;> simp [Except.toOption]

theorem step_kept {event : Event F} (kept : Kept tracker) (taken : step calls event tracker = some after) :
    Kept after := by
  cases event with
  | predict =>
    cases taken
    exact predict_kept kept
  | update rounds detections =>
    exact (update_table kept (update_returned taken rfl)).1

theorem step_grown {event : Event F} (kept : Kept tracker) (taken : step calls event tracker = some after) :
    Grown tracker after := by
  cases event with
  | predict =>
    cases taken
    refine ⟨le_rfl, fun track member => ?_, rfl, rfl⟩
    obtain ⟨before, listed, rfl⟩ := List.mem_map.mp member
    exact .inl (List.mem_map.mpr ⟨before, listed, rfl⟩)
  | update rounds detections =>
    obtain ⟨tracks, survivors, same, nInit, maxAge⟩ := update_survivors kept (update_returned taken rfl)
    refine ⟨survivors.grown, fun track member => ?_, nInit, maxAge⟩
    rw [same] at member
    obtain ⟨before, listed, rfl⟩ := List.mem_map.mp member
    rw [(cleared_fields before).1]
    exact survivors.ids listed

theorem reachable_kept {start later : Tracker F} (kept : Kept start)
    (reached : Reachable (step calls) start later) : Kept later ∧ Grown start later :=
  reachable_keeps (fun tracker => Kept tracker ∧ Grown start tracker)
    (fun _ _ _ holds taken => ⟨step_kept holds.1 taken, holds.2.trans (step_grown holds.1 taken)⟩)
    ⟨kept, .refl start⟩ reached

/-- After every update of every run the track table is in order, and an id that is no
longer in it never comes back. -/
theorem track_table {maxCosineDistance maxIouDistance : F} {nnBudget maxAge nInit : Int} (hits : 2 ≤ nInit)
    (ages : 1 ≤ maxAge) {before : Tracker F} {events : List (Event F)} {rounds : Nat}
    {detections : List (Detection F)}
    (reached : run (step calls) events (create maxCosineDistance nnBudget maxIouDistance maxAge nInit) = some before)
    (updated : step calls (.update rounds detections) before = some after) :
    (after.nInit = nInit ∧ after.maxAge = maxAge) ∧ Table after ∧
      ∀ later, Reachable (step calls) after later → ∀ track ∈ later.tracks,
        track.trackId < after.nextIdx → track.trackId ∈ after.tracks.map Track.trackId := by
  obtain ⟨kept, grown⟩ := reachable_kept (create_kept _ _ _ _ hits) ⟨events, reached⟩
  obtain ⟨keptAfter, table⟩ := update_table kept (update_returned updated rfl)
  have onward := grown.trans (step_grown kept updated)
  have limit : 0 ≤ before.maxAge := by
    rw [grown.maxAge]
    exact Int.le_of_lt ages
  refine ⟨⟨onward.nInit, onward.maxAge⟩, table limit, fun later continued track member issued => ?_⟩
  obtain ⟨_, further⟩ := reachable_kept keptAfter continued
  obtain old | new := further.ids track member
  · exact old
  · exact absurd issued (not_lt.mpr new)

theorem track_table_sample : ∃ before after : Tracker ℚ,
    run (step sampleCalls) [.update 9 [sampleDetection], .predict] sampleStart = some before ∧
      step sampleCalls (.update 9 [sampleDetection]) before = some after ∧ Table after := by
  have returns : ((run (step sampleCalls) [.update 9 [sampleDetection], .predict] sampleStart).bind
      (step sampleCalls (.update 9 [sampleDetection]))).isSome := by decide +kernel
  obtain ⟨after, both⟩ := Option.isSome_iff_exists.mp returns
  obtain ⟨before, reached, updated⟩ := Option.bind_eq_some_iff.mp both
  exact ⟨before, after, reached, updated, (track_table (by decide) (by decide) reached updated).2.1⟩

end Yolov5Rknn.DeepSort.Tracker
