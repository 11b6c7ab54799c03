import Yolov5Rknn.DeepSortWrapper
import Yolov5Rknn.Proofs.OverlapRound

/-! DeepSort behind its wrapper: only some frames are sorted, every other one predicts
the tracks once more. A track that was started by a frame is confirmed by the next one
that sorts if no frame lies between; with an interval above one there always is one,
and no track is ever confirmed. -/

namespace Yolov5Rknn.DeepSortWrapper
open Yolov5Rknn.DeepSort Program Transition
open ByteTrackerWrapper (DetectResultGroup)

variable {Raw Pixel F : Type} [Arithmetic F] {calls : Calls F} {convert : Conversions Raw Pixel F}
variable {wrapper next : Wrapper Pixel F} {event : Event Raw F}

/-- The wrapper while a frame is worked on. -/
def counted (wrapper : Wrapper Pixel F) : Wrapper Pixel F := { wrapper with frameCount := wrapper.frameCount + 1 }

/-- The frame sorts the detections it is given. -/
structure Sorts (calls : Calls F) (convert : Conversions Raw Pixel F) (wrapper : Wrapper Pixel F)
    (event : Event Raw F) (rows : List (Detection F)) : Prop where
  due : runReid event.detections (counted wrapper) = true
  some : event.detections.results.filterMap toBox ≠ []
  extracted : ∃ frame, frameOf event.yuyv event.width event.height = .some frame ∧
    DeepSort.detectionsv2 calls convert (convert.cvtColor frame) (event.detections.results.filterMap toBox)
      wrapper.tracker = .some rows

/-- The wrapper after a frame that was sorted. -/
def sorted (wrapper : Wrapper Pixel F) (objTracker : Tracker F) : Wrapper Pixel F :=
  { counted wrapper with
    tracker := DeepSort.expose 1 { wrapper.tracker with objTracker, result := [], results := [] } }

theorem Sorts.update_eq {rows : List (Detection F)} (sorts : Sorts calls convert wrapper event rows) :
    update calls convert event.yuyv event.width event.height event.detections wrapper =
      Tracker.update calls rows wrapper.tracker.objTracker.predict >>= fun objTracker =>
        pure (shown convert event.detections (sorted wrapper objTracker), sorted wrapper objTracker) := by
  obtain ⟨frame, framed, extracted⟩ := sorts.extracted
  have full : (event.detections.results.filterMap (toBox (F := F))).isEmpty = false :=
    List.isEmpty_eq_false_iff.mpr sorts.some
  have made : within (DeepSort.detectionsv2 calls convert (convert.cvtColor frame)
      (event.detections.results.filterMap toBox) { wrapper.tracker with result := [], results := [] }) = pure rows := by
    change within (DeepSort.detectionsv2 calls convert (convert.cvtColor frame)
      (event.detections.results.filterMap toBox) wrapper.tracker) = _
    rw [extracted]
    rfl
  have due := sorts.due
  unfold counted at due
  simp only [update, framed, track, due, if_true, full, Bool.false_eq_true, if_false, DeepSort.sort, made, pure_bind,
    bind_assoc]
  rfl

theorem Sorts.ends {rows : List (Detection F)} (sorts : Sorts calls convert wrapper event rows)
    {post : Tracker F → Prop} (ended : Ends (Tracker.update calls rows wrapper.tracker.objTracker.predict) post) :
    Ends (update calls convert event.yuyv event.width event.height event.detections wrapper) fun result =>
      ∃ objTracker, post objTracker ∧
        result = (shown convert event.detections (sorted wrapper objTracker), sorted wrapper objTracker) := by
  rw [sorts.update_eq]
  exact ended.bind fun objTracker holds => .pure ⟨objTracker, holds, rfl⟩

/-- What the calls of the tracker leave: its tracks predicted, or sorted on a frame
that is due. -/
theorem track_cases {frame : Mat Raw} {detections : DetectResultGroup F} {tracker : DeepSort Pixel F} {rounds : Nat}
    (returned : track calls convert frame detections wrapper rounds = .ok tracker) :
    tracker.featureExtractor1 = wrapper.tracker.featureExtractor1 ∧
      (tracker.objTracker = wrapper.tracker.objTracker.predict ∨
        runReid detections wrapper = true ∧ ∃ rows,
          Tracker.update calls rows wrapper.tracker.objTracker.predict rounds = .ok tracker.objTracker) := by
  unfold track at returned
  by_cases due : runReid detections wrapper = true
  · rw [if_pos due] at returned
    by_cases none : (detections.results.filterMap (toBox (F := F))).isEmpty = true
    · rw [if_pos none] at returned
      cases pure_result.mp returned
      exact ⟨rfl, .inl rfl⟩
    · rw [if_neg none, DeepSort.sort] at returned
      dsimp only at returned
      rw [if_neg none] at returned
      obtain ⟨result, sorting, finished⟩ := bind_result.mp returned
      cases pure_result.mp finished
      obtain ⟨rows, _, updating⟩ := bind_result.mp sorting
      obtain ⟨objTracker, updated, closed⟩ := bind_result.mp updating
      cases pure_result.mp closed
      exact ⟨rfl, .inr ⟨due, rows, updated⟩⟩
  · rw [if_neg due] at returned
    cases pure_result.mp returned
    exact ⟨rfl, .inl rfl⟩

/-- Everything a call that returned has done. -/
theorem update_cases {group : DetectResultGroup F}
    (returned : update calls convert event.yuyv event.width event.height event.detections wrapper event.rounds =
      .ok (group, next)) :
    frameOf event.yuyv event.width event.height = none ∧ next = wrapper ∨
      group = shown convert event.detections next ∧ next.frameCount = wrapper.frameCount + 1 ∧
        next.reidInterval = wrapper.reidInterval ∧
        next.tracker.featureExtractor1 = wrapper.tracker.featureExtractor1 ∧
        (next.tracker.objTracker = wrapper.tracker.objTracker.predict ∨
          runReid event.detections (counted wrapper) = true ∧ ∃ rows,
            Tracker.update calls rows wrapper.tracker.objTracker.predict event.rounds =
              .ok next.tracker.objTracker) := by
  unfold update at returned
  cases framed : frameOf event.yuyv event.width event.height with
  | none =>
    rw [framed] at returned
    cases pure_result.mp returned
    exact .inl ⟨rfl, rfl⟩
  | some frame =>
    rw [framed] at returned
    obtain ⟨tracker, tracked, finished⟩ := bind_result.mp returned
    cases pure_result.mp finished
    exact .inr ⟨rfl, rfl, rfl, track_cases tracked⟩

/-- The track is in the table, updated with the detection and confirmed. -/
def Confirms (calls : Calls F) (track : Track F) (detection : Detection F) (tracker : Tracker F) : Prop :=
  Tracker.cleared (track.update calls detection) ∈ tracker.tracks ∧
    (track.update calls detection).state = .confirmed

theorem step_returned (taken : step calls convert event wrapper = some next) : ∃ group,
    update calls convert event.yuyv event.width event.height event.detections wrapper event.rounds =
      .ok (group, next) := by
  unfold step at taken
  cases returned : update calls convert event.yuyv event.width event.height event.detections wrapper
      event.rounds with
  | error fault =>
    rw [returned] at taken
    cases taken
  | ok result =>
    rw [returned] at taken
    cases taken
    exact ⟨result.1, rfl⟩

theorem step_extractor (taken : step calls convert event wrapper = some next) :
    next.tracker.featureExtractor1 = wrapper.tracker.featureExtractor1 := by
  obtain ⟨group, returned⟩ := step_returned taken
  obtain ⟨_, rfl⟩ | ⟨_, _, _, same, _⟩ := update_cases returned
  · rfl
  · exact same

/-- What holds of a wrapper between any two calls. -/
structure Held (interval : Int) (wrapper : Wrapper Pixel F) : Prop where
  every : wrapper.reidInterval = interval
  stocked : Tracker.Stocked 2 100 wrapper.tracker.objTracker
  overlap : wrapper.tracker.objTracker.maxIouDistance = 7 / 10
  aged : ∀ track ∈ wrapper.tracker.objTracker.tracks, 0 ≤ track.timeSinceUpdate ∧ 1 ≤ track.hits

theorem create_held (featureExtractor1 featureExtractor2 : FeatureTensor Pixel F) (reidInterval : Int)
    (labels : List (List UInt8)) :
    Held (max 1 reidInterval) (create featureExtractor1 featureExtractor2 reidInterval labels) where
  every := rfl
  stocked :=
    { kept := Tracker.create_kept _ _ _ _ le_rfl
      galleries := ⟨by simp [create, DeepSort.create, Tracker.create, Tracker.activeTargets],
        by simp [create, DeepSort.create, Tracker.create]⟩
      nInit := rfl
      budget := rfl }
  overlap := rfl
  aged := by simp [create, DeepSort.create, Tracker.create]

theorem predict_held {interval : Int} (held : Held interval wrapper) :
    Tracker.Stocked 2 100 wrapper.tracker.objTracker.predict ∧
      ∀ track ∈ wrapper.tracker.objTracker.predict.tracks, 1 ≤ track.timeSinceUpdate ∧ 1 ≤ track.hits := by
  obtain ⟨kept, galleries, nInit, budget⟩ := held.stocked
  refine ⟨⟨Tracker.predict_kept kept, Tracker.predict_galleries galleries, nInit, budget⟩, fun track member => ?_⟩
  obtain ⟨before, listed, rfl⟩ := List.mem_map.mp member
  obtain ⟨aged, hits⟩ := held.aged before listed
  exact ⟨Int.add_le_add_right aged 1, hits⟩

/-- An update keeps the bound of the IoU round, and the counters of its tracks in range. -/
theorem update_aged {tracker after : Tracker F} {detections : List (Detection F)} {rounds : Nat}
    (returned : Tracker.update calls detections tracker rounds = .ok after)
    (aged : ∀ track ∈ tracker.tracks, 1 ≤ track.timeSinceUpdate ∧ 1 ≤ track.hits) :
    after.maxIouDistance = tracker.maxIouDistance ∧
      ∀ track ∈ after.tracks, 0 ≤ track.timeSinceUpdate ∧ 1 ≤ track.hits := by
  obtain ⟨res, metric, _, partitioned, _, rfl⟩ := Tracker.update_result returned
  constructor
  · change (Tracker.apply calls detections tracker res).maxIouDistance = _
    rw [Tracker.apply_eq]
  · intro track member
    obtain ⟨before, rfl, _, origin⟩ := Tracker.mem_cleared partitioned member
    obtain ⟨_, _, _, _, hits, since, _⟩ := Tracker.cleared_fields before
    rw [hits, since]
    obtain new | ⟨idx, fate⟩ := origin
    · obtain ⟨_, _, _, _, _, rfl⟩ := Tracker.mem_startedAll new
      exact ⟨le_rfl, le_rfl⟩
    · obtain ⟨young, counted⟩ := aged _ (List.get_mem tracker.tracks idx)
      cases fate with
      | matched detection _ _ same =>
        rw [same, Track.update_timeSinceUpdate, Track.update_hits]
        exact ⟨le_rfl, by omega⟩
      | missed _ _ same =>
        obtain ⟨state, changed, _⟩ := (tracker.tracks.get idx).markMissed_eq
        rw [same, changed]
        exact ⟨Int.le_of_lt young, counted⟩

theorem step_held {interval : Int} (held : Held interval wrapper)
    (taken : step calls convert event wrapper = some next) : Held interval next := by
  obtain ⟨group, returned⟩ := step_returned taken
  obtain ⟨_, rfl⟩ | ⟨_, _, same, _, predicted | ⟨_, rows, updated⟩⟩ := update_cases returned
  · exact held
  · obtain ⟨stocked, aged⟩ := predict_held held
    rw [← predicted] at stocked aged
    refine ⟨same.trans held.every, stocked, ?_, fun track member => ?_⟩
    · rw [predicted]
      exact held.overlap
    · obtain ⟨young, hits⟩ := aged track member
      exact ⟨by omega, hits⟩
  · obtain ⟨stocked, aged⟩ := predict_held held
    obtain ⟨bound, young⟩ := update_aged updated aged
    have sorting : Tracker.step calls (.update event.rounds rows) wrapper.tracker.objTracker.predict =
        some next.tracker.objTracker := by
      simp [Tracker.step, updated, Except.toOption]
    exact ⟨same.trans held.every, Tracker.step_stocked (by decide) stocked sorting, bound.trans held.overlap, young⟩

/-! ### The position of a frame in its interval -/

theorem emod_next {count interval : Int} (positive : 0 < interval) :
    count % interval ≤ (count - 1) % interval + 1 := by
  have low := Int.emod_nonneg (count - 1) positive.ne'
  have next : ((count - 1) % interval + 1) % interval = count % interval := by
    rw [Int.emod_add_emod, sub_add_cancel]
  have high := Int.emod_lt_of_pos count positive
  rcases lt_or_ge ((count - 1) % interval + 1) interval with less | more
  · exact (next.symm.trans (Int.emod_eq_of_lt (by omega) less)).le
  · omega

theorem emod_due {count interval : Int} (positive : 0 < interval) (due : count.tmod interval = 0) :
    count % interval = 0 ∧ interval ≤ (count - 1) % interval + 1 := by
  have divides := Int.dvd_of_tmod_eq_zero due
  have low := Int.emod_nonneg (count - 1) positive.ne'
  refine ⟨Int.emod_eq_zero_of_dvd divides, Int.le_of_dvd (by omega) ?_⟩
  refine Int.dvd_of_emod_eq_zero ?_
  rw [Int.emod_add_emod, sub_add_cancel]
  exact Int.emod_eq_zero_of_dvd divides

section exact

attribute [local instance] Arithmetic.ofField

variable {K : Type} [Field K] [LinearOrder K] [IsStrictOrderedRing K] {calls : Calls K}
variable {convert : Conversions Raw Pixel K} {wrapper next : Wrapper Pixel K} {event : Event Raw K} {interval : Int}

/-- Every track is tentative, and at least as long without an update as the frames of
the interval that passed. -/
structure Waiting (interval : Int) (wrapper : Wrapper Pixel K) : Prop extends Held interval wrapper where
  waiting : ∀ track ∈ wrapper.tracker.objTracker.tracks,
    track.state = .tentative ∧ (wrapper.frameCount - 1) % interval ≤ track.timeSinceUpdate

theorem step_waiting (long : 2 ≤ interval) (waiting : Waiting interval wrapper)
    (taken : step calls convert event wrapper = some next) : Waiting interval next := by
  refine ⟨step_held waiting.toHeld taken, ?_⟩
  obtain ⟨group, returned⟩ := step_returned taken
  obtain ⟨_, rfl⟩ | ⟨_, count, same, _, predicted | ⟨due, rows, updated⟩⟩ := update_cases returned
  · exact waiting.waiting
  · intro track member
    rw [predicted] at member
    obtain ⟨before, listed, rfl⟩ := List.mem_map.mp member
    obtain ⟨tentative, old⟩ := waiting.waiting before listed
    have onward : wrapper.frameCount % interval ≤ (wrapper.frameCount - 1) % interval + 1 := emod_next (by omega)
    rw [count, add_sub_cancel_right]
    exact ⟨tentative, by rw [Track.predict_timeSinceUpdate]; omega⟩
  · intro track member
    have phase : wrapper.frameCount.tmod interval = 0 := by
      have every := waiting.every
      simp only [runReid, counted, add_sub_cancel_right, decide_eq_true_eq, every] at due
      obtain ⟨_, short | due⟩ := due
      · omega
      · exact due
    obtain ⟨zero, full⟩ := emod_due (by omega) phase
    rw [count, add_sub_cancel_right, zero]
    obtain ⟨res, metric, matched, partitioned, _, after⟩ := Tracker.update_result updated
    rw [after] at member
    obtain ⟨before, rfl, _, new | ⟨idx, fate⟩⟩ := Tracker.mem_cleared partitioned member
    · obtain ⟨_, _, _, _, _, rfl⟩ := Tracker.mem_startedAll new
      exact ⟨rfl, le_rfl⟩
    · obtain ⟨old, listed, same⟩ := List.mem_map.mp (List.get_mem wrapper.tracker.objTracker.predict.tracks idx)
      obtain ⟨unconfirmed, late⟩ := waiting.waiting old listed
      have tentative : (wrapper.tracker.objTracker.predict.tracks.get idx).state = .tentative := by
        rw [← same]
        exact unconfirmed
      have kept := Tracker.predict_kept waiting.stocked.kept
      have stale : 1 < (wrapper.tracker.objTracker.predict.tracks.get idx).timeSinceUpdate := by
        rw [← same, Track.predict_timeSinceUpdate]
        omega
      have limit : wrapper.tracker.objTracker.predict.maxIouDistance < 99999 := (Tracker.overlap_bounds waiting.overlap).2
      have unmatched := Tracker.stale_unmatched limit matched tentative stale
      have again := List.mem_map_of_mem (f := Track.trackId) member
      rw [(Tracker.cleared_fields before).1, fate.trackId] at again
      exact absurd again (Tracker.missed_gone kept partitioned tentative unmatched)

/-- With an interval above one no track is confirmed in any run. -/
theorem never_confirms {featureExtractor1 featureExtractor2 : FeatureTensor Pixel K} {labels : List (List UInt8)}
    (long : 2 ≤ interval)
    (reached : Reachable (step calls convert) (create featureExtractor1 featureExtractor2 interval labels) wrapper) :
    ∀ track ∈ wrapper.tracker.objTracker.tracks, track.state = .tentative := by
  have initially := create_held featureExtractor1 featureExtractor2 interval labels
  rw [max_eq_right (by omega)] at initially
  have waiting := reachable_keeps (Waiting interval) (fun _ _ _ waiting taken => step_waiting long waiting taken)
    ⟨initially, by simp [create, DeepSort.create, Tracker.create]⟩ reached
  exact fun track member => (waiting.waiting track member).1

/-- On a frame that sorts, an isolated tentative track that the cascade leaves its
detection is confirmed exactly if nothing was predicted since it was started. -/
theorem reid_confirms (finite : calls.infinite = fun _ => false) (held : Held interval wrapper)
    {rows : List (Detection K)} (sorts : Sorts calls convert wrapper event rows) {track : Track K}
    (member : track ∈ wrapper.tracker.objTracker.tracks) (tentative : track.state = .tentative)
    {idx : Fin wrapper.tracker.objTracker.predict.tracks.length}
    (found : wrapper.tracker.objTracker.predict.tracks.get idx = track.predict) {col : Fin rows.length}
    (isolated : Tracker.Isolated wrapper.tracker.objTracker.predict rows idx col)
    (left : Ends (Tracker.cascade calls rows wrapper.tracker.objTracker.predict) fun matcha =>
      col ∈ matcha.unmatchedDetections) :
    ∃ bound, ∀ rounds, bound ≤ rounds → ∃ after, step calls convert { event with rounds } wrapper = some after ∧
      (Confirms calls track.predict (rows.get col) after.tracker.objTracker ↔ track.timeSinceUpdate = 0) := by
  have stocked := (predict_held held).1
  have unconfirmed : (wrapper.tracker.objTracker.predict.tracks.get idx).state = .tentative := by
    rw [found]
    exact tentative
  have bounds := Tracker.overlap_bounds held.overlap
  have updated := Tracker.update_isolated finite stocked.kept stocked.galleries stocked.room bounds isolated unconfirmed
    left
  rw [found] at updated
  obtain ⟨result, ⟨objTracker, ⟨recent, stale⟩, rfl⟩, bound, returned⟩ := sorts.ends updated
  refine ⟨bound, fun rounds large => ⟨sorted wrapper objTracker, ?_, ?_⟩⟩
  · rw [step, returned rounds large]
    rfl
  obtain ⟨aged, hits⟩ := held.aged track member
  constructor
  · intro confirms
    by_contra late
    have old : 1 < track.predict.timeSinceUpdate := by
      rw [Track.predict_timeSinceUpdate]
      omega
    refine stale old (List.mem_map.mpr ⟨_, confirms.1, ?_⟩)
    rw [(Tracker.cleared_fields _).1, Track.update_trackId]
  · intro now
    have sound := stocked.kept.sound track.predict (List.mem_map_of_mem member)
    exact ⟨recent (by rw [Track.predict_timeSinceUpdate, now]; rfl), sound.confirms stocked.nInit hits _⟩

end exact

end Yolov5Rknn.DeepSortWrapper
