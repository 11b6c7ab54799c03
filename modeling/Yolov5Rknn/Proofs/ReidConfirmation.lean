import Yolov5Rknn.Proofs.DeepSortFates
import Yolov5Rknn.Proofs.LoneTrack
import Yolov5Rknn.Proofs.ReidInterval

/-! Which objects DeepSort confirms behind its wrapper. One box that is detected in every
frame has a confirmed track from the second sorted frame on if every frame is sorted,
and never has one otherwise. -/

namespace Yolov5Rknn.DeepSortWrapper
open Yolov5Rknn.DeepSort Program Transition
open ByteTrackerWrapper (BoxRect DetectResult DetectResultGroup)

/-- The place of a box in pixels. -/
def placeOf {F : Type} [Arithmetic F] (box : BoxRect) : ByteKalman.DetectBox F :=
  ![(box.left : F), (box.top : F), (box.right : F) - (box.left : F), (box.bottom : F) - (box.top : F)]

section general

variable {Raw Pixel F : Type} [Arithmetic F] {calls : Calls F} {convert : Conversions Raw Pixel F}

/-- The frame shows one box only, which is given one feature and was not tracked before. -/
structure Shows (calls : Calls F) (convert : Conversions Raw Pixel F) (tensor : FeatureTensor Pixel F) (box : BoxRect)
    (feature : Feature F) (event : Event Raw F) (det : DetectResult F) (frame : Mat Raw) : Prop where
  results : event.detections.results = [det]
  same : det.box = box
  untracked : det.trackId < 1
  framed : frameOf event.yuyv event.width event.height = some frame
  featured : tensor.getRectsFeature (convert.cvtColor frame) [⟨placeOf box, det.prop, calls.unwritten⟩] =
    some [⟨placeOf box, det.prop, feature⟩]

/-- A result of the last of the frames has the id of a track, whatever large number of
rounds the loops may take. -/
def ReturnsTrack (calls : Calls F) (convert : Conversions Raw Pixel F) (start : Wrapper Pixel F)
    (frames : List (Event Raw F)) (last : Event Raw F) : Prop :=
  ∃ bound, ∀ rounds, bound ≤ rounds → ∃ wrapper result,
    run (step calls convert) (frames.map fun event => { event with rounds }) start = some wrapper ∧
      update calls convert last.yuyv last.width last.height last.detections wrapper rounds = .ok result ∧
      ∃ entry ∈ result.1.results, 1 ≤ entry.trackId

variable {wrapper : Wrapper Pixel F} {track : Track F}

theorem shown_lone (detections : DetectResultGroup F) (lone : wrapper.tracker.objTracker.tracks = [track])
    (confirmed : track.state = .confirmed) (fresh : track.timeSinceUpdate = 0) :
    (shown convert detections wrapper).results = [out convert wrapper.labels track] := by
  have only : wrapper.tracker.getConfirmedTracks = [track] := by
    rw [DeepSort.getConfirmedTracks, lone]
    exact List.filter_cons_of_pos (decide_eq_true confirmed)
  have recent : ¬max 1 wrapper.reidInterval < track.timeSinceUpdate := by
    rw [fresh]
    omega
  have written : collect convert wrapper [track] [] = [out convert wrapper.labels track] := by
    have room : ¬([] : List (DetectResult F)).length ≥ ByteTrackerWrapper.objNumbMaxSize := Nat.not_succ_le_zero 63
    rw [collect, if_neg room, if_neg recent]
    rfl
  simp only [shown, only, written]
  rfl

/-- Without confirmed tracks the detections are returned. -/
theorem shown_none {detections : DetectResultGroup F} (some : detections.results ≠ [])
    (tentative : ∀ track ∈ wrapper.tracker.objTracker.tracks, track.state = .tentative) :
    shown convert detections wrapper = detections := by
  have none : wrapper.tracker.getConfirmedTracks = [] := by
    refine List.filter_eq_nil_iff.mpr fun track member confirmed => ?_
    cases (tentative track member).symm.trans (of_decide_eq_true confirmed)
  have full : detections.results.isEmpty = false := List.isEmpty_eq_false_iff.mpr some
  simp only [shown, none, full]
  rfl

/-- What holds after every call of a held wrapper. -/
theorem update_holds {event : Event Raw F} {interval : Int} (held : Held interval wrapper)
    {post : DetectResultGroup F × Wrapper Pixel F → Prop}
    (ended : Ends (update calls convert event.yuyv event.width event.height event.detections wrapper) post) :
    Ends (update calls convert event.yuyv event.width event.height event.detections wrapper) fun result =>
      post result ∧ Held interval result.2 := by
  refine ended.resulting fun rounds result returned => ?_
  have taken : step calls convert { event with rounds } wrapper = .some result.2 := by
    rw [step, returned]
    rfl
  exact step_held held taken

end general

section exact

attribute [local instance] Arithmetic.ofField

variable {Raw Pixel K : Type} [Field K] [LinearOrder K] {calls : Calls K} {convert : Conversions Raw Pixel K}
variable {tensor : FeatureTensor Pixel K} {wrapper : Wrapper Pixel K} {event : Event Raw K} {box : BoxRect}
variable {feature : Feature K} {det : DetectResult K} {frame : Mat Raw}

/-- The detection the tracker is given. -/
def shownRow (convert : Conversions Raw Pixel K) (box : BoxRect) (feature : Feature K) (det : DetectResult K) :
    Detection K :=
  ⟨⟨convert.toInt (det.classId : K), det.prop⟩, ⟨placeOf box, det.prop, feature⟩⟩

/-- With an interval of one the frame is due. -/
theorem Shows.due (seen : Shows calls convert tensor box feature event det frame) (every : wrapper.reidInterval = 1) :
    runReid event.detections (counted wrapper) = true := by
  rw [runReid, seen.results, decide_eq_true_eq]
  exact ⟨Nat.one_pos, .inl every.le⟩

theorem Shows.sorts (seen : Shows calls convert tensor box feature event det frame)
    (area : box.left < box.right ∧ box.top < box.bottom)
    (due : runReid event.detections (counted wrapper) = true)
    (extractor : wrapper.tracker.featureExtractor1 = tensor) :
    Sorts calls convert wrapper event [shownRow convert box feature det] := by
  have boxed : event.detections.results.filterMap toBox =
      [⟨(box.left : K), (box.top : K), (box.right : K), (box.bottom : K), det.prop, (det.classId : K), 0⟩] := by
    have flat : ¬(box.right ≤ box.left ∨ box.bottom ≤ box.top) := by omega
    have some : toBox det =
        .some ⟨(box.left : K), (box.top : K), (box.right : K), (box.bottom : K), det.prop, (det.classId : K), 0⟩ := by
      rw [toBox, seen.same, if_neg flat]
    rw [seen.results, List.filterMap_cons_some some]
    rfl
  refine ⟨due, ?_, frame, seen.framed, ?_⟩
  · rw [boxed]
    exact List.cons_ne_nil _ _
  · rw [boxed, DeepSort.detectionsv2, extractor]
    have extracted : extractFeatures tensor wrapper.tracker.featureExtractor2 (convert.cvtColor frame)
        [⟨placeOf box, det.prop, calls.unwritten⟩] = some [⟨placeOf box, det.prop, feature⟩] := seen.featured
    exact congrArg (Option.map _) extracted

variable [IsStrictOrderedRing K]

theorem placeOf_extent (area : box.left < box.right ∧ box.top < box.bottom) :
    0 < (placeOf box : ByteKalman.DetectBox K) 2 ∧ 0 < (placeOf box : ByteKalman.DetectBox K) 3 :=
  ⟨sub_pos.mpr (Int.cast_lt.mpr area.1), sub_pos.mpr (Int.cast_lt.mpr area.2)⟩

/-- The wrapper follows the one object of its frames. -/
structure Follows (tensor : FeatureTensor Pixel K) (box : BoxRect) (feature : Feature K) (wrapper : Wrapper Pixel K) :
    Prop extends Held 1 wrapper where
  extractor : wrapper.tracker.featureExtractor1 = tensor
  lone : ∃ track, Tracker.Lone (placeOf box) feature wrapper.tracker.objTracker track ∧ track.timeSinceUpdate = 0

theorem Shows.follows (finite : calls.infinite = fun _ => false)
    (seen : Shows calls convert tensor box feature event det frame)
    (area : box.left < box.right ∧ box.top < box.bottom) (extractor2 : FeatureTensor Pixel K)
    (labels : List (List UInt8)) :
    Ends (update calls convert event.yuyv event.width event.height event.detections
      (create tensor extractor2 1 labels)) fun result => Follows tensor box feature result.2 := by
  have held := create_held tensor extractor2 1 labels
  have started : Ends (Tracker.update calls [shownRow convert box feature det]
      (create tensor extractor2 1 labels).tracker.objTracker.predict) fun after => ∃ track,
        Tracker.Lone (placeOf box) feature after track ∧ track.timeSinceUpdate = 0 :=
    Tracker.lone_start finite (predict_held held).1 held.overlap rfl rfl rfl rfl rfl
  refine (update_holds held ((seen.sorts area (seen.due rfl) rfl).ends started)).imp ?_
  rintro _ ⟨⟨objTracker, ⟨track, lone, fresh⟩, rfl⟩, next⟩
  exact ⟨next, rfl, track, lone, fresh⟩

/-- The next sight of the object confirms its track and shows it. -/
theorem Follows.shows (finite : calls.infinite = fun _ => false)
    (root : calls.sqrt (NearNeighborDisMetric.dot feature feature) *
      calls.sqrt (NearNeighborDisMetric.dot feature feature) = NearNeighborDisMetric.dot feature feature)
    (follows : Follows tensor box feature wrapper) (seen : Shows calls convert tensor box feature event det frame)
    (area : box.left < box.right ∧ box.top < box.bottom) :
    Ends (update calls convert event.yuyv event.width event.height event.detections wrapper) fun result =>
      Follows tensor box feature result.2 ∧ ∃ entry ∈ result.1.results, 1 ≤ entry.trackId := by
  obtain ⟨track, lone, fresh⟩ := follows.lone
  have stocked := (predict_held follows.toHeld).1
  have hits : 1 ≤ track.hits := by
    refine (follows.aged track ?_).2
    rw [lone.tracks]
    exact List.mem_singleton_self track
  have recent : track.predict.timeSinceUpdate = 1 := by
    rw [Track.predict_timeSinceUpdate, fresh]
    rfl
  obtain ⟨wide, high⟩ := placeOf_extent (K := K) area
  have confirmed : Ends (Tracker.update calls [shownRow convert box feature det] wrapper.tracker.objTracker.predict) _ :=
    lone.predict.confirms finite root wide high stocked follows.overlap recent hits rfl rfl
  refine (update_holds follows.toHeld ((seen.sorts area (seen.due follows.every) follows.extractor).ends confirmed)).imp ?_
  rintro _ ⟨⟨objTracker, ⟨next, alone, settled, fresh⟩, rfl⟩, held⟩
  refine ⟨⟨held, follows.extractor, next, alone, fresh⟩, out convert wrapper.labels next, ?_, alone.trackId.ge⟩
  rw [shown_lone event.detections alone.tracks settled fresh]
  exact List.mem_singleton_self _

theorem follows_run (finite : calls.infinite = fun _ => false)
    (root : calls.sqrt (NearNeighborDisMetric.dot feature feature) *
      calls.sqrt (NearNeighborDisMetric.dot feature feature) = NearNeighborDisMetric.dot feature feature)
    (area : box.left < box.right ∧ box.top < box.bottom) (frames : List (Event Raw K))
    (seen : ∀ event ∈ frames, ∃ det frame, Shows calls convert tensor box feature event det frame)
    (follows : Follows tensor box feature wrapper) :
    ∃ after, Follows tensor box feature after ∧ ∃ bound, ∀ rounds, bound ≤ rounds →
      run (step calls convert) (frames.map fun event => { event with rounds }) wrapper = some after := by
  induction frames generalizing wrapper with
  | nil => exact ⟨wrapper, follows, 0, fun _ _ => rfl⟩
  | cons event rest ih =>
    obtain ⟨det, frame, here⟩ := seen event List.mem_cons_self
    obtain ⟨result, ⟨next, _⟩, bound, returned⟩ := follows.shows finite root here area
    obtain ⟨after, last, enough, continued⟩ := ih (fun other member => seen other (List.mem_cons_of_mem _ member)) next
    refine ⟨after, last, max bound enough, fun rounds large => ?_⟩
    have taken : step calls convert { event with rounds } wrapper = some result.2 := by
      rw [step, returned rounds ((le_max_left _ _).trans large)]
      rfl
    rw [List.map_cons, run_cons, taken]
    exact continued rounds ((le_max_right _ _).trans large)

/-- One box that is detected in every frame has a confirmed track from the second sorted
frame on exactly if the interval is one. -/
theorem returnsTrack_iff (finite : calls.infinite = fun _ => false)
    (root : calls.sqrt (NearNeighborDisMetric.dot feature feature) *
      calls.sqrt (NearNeighborDisMetric.dot feature feature) = NearNeighborDisMetric.dot feature feature)
    (area : box.left < box.right ∧ box.top < box.bottom) {interval : Int} (positive : 1 ≤ interval)
    (extractor2 : FeatureTensor Pixel K) (labels : List (List UInt8)) (frames : List (Event Raw K)) (last : Event Raw K)
    (seen : ∀ event ∈ frames ++ [last], ∃ det frame, Shows calls convert tensor box feature event det frame)
    (second : interval ≤ frames.length) :
    ReturnsTrack calls convert (create tensor extractor2 interval labels) frames last ↔ interval = 1 := by
  obtain ⟨det, frame, here⟩ := seen last (List.mem_append_right _ (List.mem_singleton_self last))
  constructor
  · rintro ⟨bound, returned⟩
    by_contra longer
    obtain ⟨wrapper, result, executed, updated, entry, listed, tracked⟩ := returned bound le_rfl
    let event : Event Raw K := { last with rounds := bound }
    have updated : update calls convert event.yuyv event.width event.height event.detections wrapper event.rounds =
      .ok (result.1, result.2) := updated
    have taken : step calls convert event wrapper = some result.2 := by
      rw [step, updated]
      rfl
    have tentative := never_confirms (by omega) (Reachable.extend ⟨_, executed⟩ taken)
    obtain ⟨absent, _⟩ | ⟨same, _⟩ := update_cases updated
    · cases here.framed.symm.trans absent
    · rw [same, shown_none (by rw [here.results]; exact List.cons_ne_nil _ _) tentative, here.results] at listed
      obtain rfl := List.mem_singleton.mp listed
      exact absurd here.untracked (not_lt.mpr tracked)
  · rintro rfl
    obtain ⟨first, rest, rfl⟩ := List.exists_cons_of_length_pos (Int.natCast_pos.mp (Int.lt_of_lt_of_le Int.one_pos second))
    obtain ⟨det', frame', start⟩ := seen first List.mem_cons_self
    obtain ⟨begun, follows, bound, started⟩ := start.follows finite area extractor2 labels
    obtain ⟨wrapper, still, enough, executed⟩ := follows_run finite root area rest
      (fun event member => seen event (List.mem_cons_of_mem _ (List.mem_append_left _ member))) follows
    obtain ⟨result, ⟨_, tracked⟩, limit, returned⟩ := still.shows finite root here area
    refine ⟨max bound (max enough limit), fun rounds large => ⟨wrapper, result, ?_, ?_, tracked⟩⟩
    · have taken : step calls convert { first with rounds } (create tensor extractor2 1 labels) = some begun.2 := by
        rw [step, started rounds (by omega)]
        rfl
      rw [List.map_cons, run_cons, taken]
      exact executed rounds (by omega)
    · exact returned rounds (by omega)

/-- The frame sorts, and one detection is for the tentative track alone: the two overlap
with each other and with nothing else, and no confirmed track takes the detection. -/
structure Offers (calls : Calls K) (convert : Conversions Raw Pixel K) (wrapper : Wrapper Pixel K)
    (event : Event Raw K) (rows : List (Detection K)) (track : Track K) (col : Fin rows.length) : Prop where
  sorts : Sorts calls convert wrapper event rows
  member : track ∈ wrapper.tracker.objTracker.tracks
  tentative : track.state = .tentative
  isolated : ∃ idx, wrapper.tracker.objTracker.predict.tracks.get idx = track.predict ∧
    Tracker.Isolated wrapper.tracker.objTracker.predict rows idx col
  left : Ends (Tracker.cascade calls rows wrapper.tracker.objTracker.predict) fun matcha =>
    col ∈ matcha.unmatchedDetections

/-- In every reachable wrapper the frame confirms the track it offers a detection exactly if no
frame was only predicted since the track was started. An object seen in every frame is
therefore tracked exactly if the interval is one, and above that nothing ever is. -/
theorem confirmation_iff (finite : calls.infinite = fun _ => false) :
    (∀ (tensor extractor2 : FeatureTensor Pixel K) interval labels wrapper,
      Reachable (step calls convert) (create tensor extractor2 interval labels) wrapper →
      ∀ event rows track col, Offers calls convert wrapper event rows track col →
        ∃ bound, ∀ rounds, bound ≤ rounds → ∃ after, step calls convert { event with rounds } wrapper = some after ∧
          (Confirms calls track.predict (rows.get col) after.tracker.objTracker ↔ track.timeSinceUpdate = 0)) ∧
      (∀ (tensor extractor2 : FeatureTensor Pixel K) (box : BoxRect) (feature : Feature K),
        calls.sqrt (NearNeighborDisMetric.dot feature feature) *
          calls.sqrt (NearNeighborDisMetric.dot feature feature) = NearNeighborDisMetric.dot feature feature →
        box.left < box.right ∧ box.top < box.bottom →
        ∀ interval labels frames last, 1 ≤ interval → interval ≤ (frames.length : Int) →
          (∀ event ∈ frames ++ [last], ∃ det frame, Shows calls convert tensor box feature event det frame) →
            (ReturnsTrack calls convert (create tensor extractor2 interval labels) frames last ↔ interval = 1)) ∧
      ∀ (tensor extractor2 : FeatureTensor Pixel K) interval labels wrapper, 2 ≤ interval →
        Reachable (step calls convert) (create tensor extractor2 interval labels) wrapper →
          ∀ track ∈ wrapper.tracker.objTracker.tracks, track.state = .tentative := by
  refine ⟨fun tensor extractor2 interval labels wrapper reached event rows track col offers => ?_,
    fun tensor extractor2 box feature root area interval labels frames last positive second seen =>
      returnsTrack_iff finite root area positive extractor2 labels frames last seen second,
    fun tensor extractor2 interval labels wrapper long reached => never_confirms long reached⟩
  have held : Held (max 1 interval) wrapper :=
    reachable_keeps _ (fun _ _ _ held taken => step_held held taken) (create_held tensor extractor2 interval labels) reached
  obtain ⟨idx, found, isolated⟩ := offers.isolated
  exact reid_confirms finite held offers.sorts offers.member offers.tentative found isolated offers.left

end exact

def sampleConversions : Conversions Unit Unit ℚ where
  cvtColor mat := mat
  toInt := Rat.floor
  lround value := (value + 1 / 2).floor

/-- An extractor that finds one feature everywhere. -/
def sampleExtractor : FeatureTensor Unit ℚ where
  imgShape := (128, 256)
  featureDim := 512
  toInt := Rat.floor
  resize mat shape := ⟨shape.1, shape.2, mat.pixel⟩
  inference _ := Tracker.sampleFeature

def sampleObject : DetectResult ℚ where
  name := unknown
  classId := 0
  trackId := -1
  trajectory := []
  box := { left := 100, top := 100, right := 140, bottom := 180 }
  prop := 9 / 10

/-- A frame that shows the object. -/
def sampleSight : Event Unit ℚ where
  rounds := 9
  yuyv := some fun _ _ => ()
  width := 640
  height := 480
  detections := ⟨0, [sampleObject]⟩

theorem sampleSight_shows : Shows Tracker.sampleCalls sampleConversions sampleExtractor sampleObject.box
    Tracker.sampleFeature sampleSight sampleObject ⟨640, 480, fun _ _ => ()⟩ where
  results := rfl
  same := rfl
  untracked := by decide
  framed := rfl
  featured := by
    have found : (sampleExtractor.image ⟨640, 480, fun _ _ => ()⟩
        ⟨placeOf sampleObject.box, sampleObject.prop, Tracker.sampleCalls.unwritten⟩).isSome = true := by
      decide +kernel
    obtain ⟨mat, image⟩ := Option.isSome_iff_exists.mp found
    have written : sampleExtractor.writeFeature Tracker.sampleFeature Tracker.sampleCalls.unwritten =
        Tracker.sampleFeature := funext fun position => if_pos position.isLt
    change sampleExtractor.doInference (List.filterMap (sampleExtractor.image ⟨640, 480, fun _ _ => ()⟩) _) _ = _
    rw [List.filterMap_cons_some image, FeatureTensor.doInference, if_pos (.inr (le_refl 512))]
    exact congrArg (fun feature => some [(⟨placeOf sampleObject.box, sampleObject.prop, feature⟩ : DetectionRow ℚ)])
      written

/-- The wrapper after some frames that show the object. -/
def sampleRun (interval : Int) (count : Nat) : Option (Wrapper Unit ℚ) :=
  run (step Tracker.sampleCalls sampleConversions) (List.replicate count sampleSight)
    (create sampleExtractor sampleExtractor interval [])

/-- The next frame is due, and the only track is tentative and overlaps with the object. -/
def Poised (age : Int) (wrapper : Wrapper Unit ℚ) : Prop :=
  runReid sampleSight.detections (counted wrapper) = true ∧ wrapper.tracker.objTracker.tracks.length = 1 ∧
    ∀ track ∈ wrapper.tracker.objTracker.tracks, track.timeSinceUpdate = age ∧ track.state = .tentative ∧
      Tracker.Overlaps wrapper.tracker.objTracker.predict track.predict
        (shownRow sampleConversions sampleObject.box Tracker.sampleFeature sampleObject)

instance (track : Track ℚ) (tracker : Tracker ℚ) (detection : Detection ℚ) :
    Decidable (Tracker.Overlaps tracker track detection) :=
  inferInstanceAs (Decidable (1 - tracker.maxIouDistance ≤ iou track.toTlwh detection.row.tlwh))

instance (age : Int) (wrapper : Wrapper Unit ℚ) : Decidable (Poised age wrapper) :=
  inferInstanceAs (Decidable (_ ∧ _ ∧ ∀ track ∈ wrapper.tracker.objTracker.tracks, _ ∧ _ ∧ _))

theorem sampleRun_offers {interval age : Int} {count : Nat}
    (poised : ∃ wrapper ∈ sampleRun interval count, Poised age wrapper) :
    ∃ wrapper track, Reachable (step Tracker.sampleCalls sampleConversions)
        (create sampleExtractor sampleExtractor interval []) wrapper ∧ track.timeSinceUpdate = age ∧
      Offers Tracker.sampleCalls sampleConversions wrapper sampleSight
        [shownRow sampleConversions sampleObject.box Tracker.sampleFeature sampleObject] track ⟨0, Nat.one_pos⟩ := by
  obtain ⟨wrapper, executed, due, one, only⟩ := poised
  obtain ⟨track, lone⟩ := List.length_eq_one_iff.mp one
  have reached : Reachable (step Tracker.sampleCalls sampleConversions)
      (create sampleExtractor sampleExtractor interval []) wrapper := ⟨_, executed⟩
  have extractor : wrapper.tracker.featureExtractor1 = sampleExtractor :=
    reachable_keeps (fun found => found.tracker.featureExtractor1 = sampleExtractor)
      (fun _ _ _ held taken => (step_extractor taken).trans held) rfl reached
  have member : track ∈ wrapper.tracker.objTracker.tracks := by
    rw [lone]
    exact List.mem_singleton_self track
  obtain ⟨since, tentative, overlaps⟩ := only track member
  have predicted : wrapper.tracker.objTracker.predict.tracks = [track.predict] := by
    rw [Tracker.predict, lone]
    rfl
  have inside : 0 < wrapper.tracker.objTracker.predict.tracks.length := by
    rw [predicted]
    exact Nat.one_pos
  refine ⟨wrapper, track, reached, since, sampleSight_shows.sorts (by decide) due extractor, member, tentative,
    ⟨⟨0, inside⟩, get_only predicted _, ?_, fun _ _ => position_only rfl _ _, fun _ _ => position_only predicted _ _⟩,
    ?_⟩
  · rw [get_only predicted]
    exact overlaps
  · have none : wrapper.tracker.objTracker.predict.confirmedTracks = [] :=
      List.filter_eq_nil_iff.mpr fun idx _ confirmed => by
        rw [get_only predicted] at confirmed
        cases tentative.symm.trans (of_decide_eq_true confirmed)
    exact (Tracker.cascade_none none).imp fun matcha left => by
      rw [left]
      exact List.mem_finRange _

theorem sampleSight_seen (frames : List (Event Unit ℚ)) (all : ∀ event ∈ frames, event = sampleSight) :
    ∀ event ∈ frames, ∃ det frame, Shows Tracker.sampleCalls sampleConversions sampleExtractor sampleObject.box
      Tracker.sampleFeature event det frame := by
  intro event member
  rw [all event member]
  exact ⟨_, _, sampleSight_shows⟩

/-- With an interval of one the second frame confirms the object. -/
theorem confirmation_iff_sample :
    (∃ (wrapper : Wrapper Unit ℚ) (track : Track ℚ), ∃ bound, ∀ rounds, bound ≤ rounds → ∃ after,
      step Tracker.sampleCalls sampleConversions { sampleSight with rounds } wrapper = some after ∧
        Confirms Tracker.sampleCalls track.predict
          (shownRow sampleConversions sampleObject.box Tracker.sampleFeature sampleObject) after.tracker.objTracker) ∧
      ReturnsTrack Tracker.sampleCalls sampleConversions (create sampleExtractor sampleExtractor 1 [])
        [sampleSight] sampleSight ∧
      ∀ wrapper, Reachable (step Tracker.sampleCalls sampleConversions)
          (create sampleExtractor sampleExtractor 2 []) wrapper →
        ∀ track ∈ wrapper.tracker.objTracker.tracks, track.state = .tentative := by
  have finite : Tracker.sampleCalls.infinite = fun _ => false := rfl
  refine ⟨?_, ?_, fun wrapper reached => (confirmation_iff finite).2.2 _ _ _ _ wrapper le_rfl reached⟩
  · have poised : ∃ wrapper ∈ sampleRun 1 1, Poised 0 wrapper := by decide +kernel
    obtain ⟨wrapper, track, reached, now, offers⟩ := sampleRun_offers poised
    obtain ⟨bound, returned⟩ := (confirmation_iff finite).1 _ _ _ _ wrapper reached _ _ _ _ offers
    refine ⟨wrapper, track, bound, fun rounds large => ?_⟩
    obtain ⟨after, taken, confirms⟩ := returned rounds large
    exact ⟨after, taken, confirms.mpr now⟩
  · refine ((confirmation_iff finite).2.1 sampleExtractor sampleExtractor sampleObject.box Tracker.sampleFeature
      (by decide +kernel) (by decide) 1 [] [sampleSight] sampleSight le_rfl le_rfl ?_).mpr rfl
    exact sampleSight_seen [sampleSight, sampleSight] (by simp)

/-- With an interval of two the third frame, the second that sorts, drops the track of the
object, and the detection is returned without one. -/
theorem confirmation_iff_missed :
    (∃ wrapper track, Reachable (step Tracker.sampleCalls sampleConversions)
        (create sampleExtractor sampleExtractor 2 []) wrapper ∧
      Offers Tracker.sampleCalls sampleConversions wrapper sampleSight
        [shownRow sampleConversions sampleObject.box Tracker.sampleFeature sampleObject] track ⟨0, Nat.one_pos⟩ ∧
      ∃ bound, ∀ rounds, bound ≤ rounds → ∃ after,
        step Tracker.sampleCalls sampleConversions { sampleSight with rounds } wrapper = some after ∧
          ¬Confirms Tracker.sampleCalls track.predict
            (shownRow sampleConversions sampleObject.box Tracker.sampleFeature sampleObject) after.tracker.objTracker) ∧
      ¬ReturnsTrack Tracker.sampleCalls sampleConversions (create sampleExtractor sampleExtractor 2 [])
        [sampleSight, sampleSight] sampleSight ∧
      ∃ wrapper ∈ sampleRun 2 2, ∃ result ∈ (update Tracker.sampleCalls sampleConversions sampleSight.yuyv
          sampleSight.width sampleSight.height sampleSight.detections wrapper sampleSight.rounds).toOption,
        wrapper.tracker.objTracker.tracks.map Track.trackId = [1] ∧
          result.2.tracker.objTracker.tracks.map Track.trackId = [2] ∧
          result.1.results.map DetectResult.trackId = [-1] := by
  refine ⟨?_, fun returned => ?_, by decide +kernel⟩
  · have poised : ∃ wrapper ∈ sampleRun 2 2, Poised 1 wrapper := by decide +kernel
    obtain ⟨wrapper, track, reached, late, offers⟩ := sampleRun_offers poised
    have held : Held 2 wrapper :=
      reachable_keeps _ (fun _ _ _ held taken => step_held held taken) (create_held _ _ 2 _) reached
    obtain ⟨idx, found, isolated⟩ := offers.isolated
    obtain ⟨bound, returned⟩ :=
      reid_confirms rfl held offers.sorts offers.member offers.tentative found isolated offers.left
    refine ⟨wrapper, track, reached, offers, bound, fun rounds large => ?_⟩
    obtain ⟨after, taken, confirms⟩ := returned rounds large
    refine ⟨after, taken, fun confirmed => ?_⟩
    cases late.symm.trans (confirms.mp confirmed)
  · have root : Tracker.sampleCalls.sqrt (NearNeighborDisMetric.dot Tracker.sampleFeature Tracker.sampleFeature) *
        Tracker.sampleCalls.sqrt (NearNeighborDisMetric.dot Tracker.sampleFeature Tracker.sampleFeature) =
        NearNeighborDisMetric.dot Tracker.sampleFeature Tracker.sampleFeature := by decide +kernel
    have one := (returnsTrack_iff rfl root (by decide) (by decide) _ _ _ _
      (sampleSight_seen [sampleSight, sampleSight, sampleSight] (by simp)) le_rfl).mp returned
    cases one

end Yolov5Rknn.DeepSortWrapper
