import Yolov5Rknn.ByteTrackerWrapper
import Yolov5Rknn.Proofs.TrackerIdentity
import Mathlib.Data.Multiset.AddSub

/-! Where the objects of a frame go: each to one track at most, and every track of
the output has one of its own. -/

namespace Yolov5Rknn.BYTETracker
open Matching Pointers Transition

variable {F : Type} [Arithmetic F] {calls : Calls F} {objects : List (Object F)} {tracker : Tracker F}
  {count fps numFrames : Int} {call : Call F} {track : STrack F}

theorem detect_objects (objects : List (Object F)) :
    (detect objects).map Detection.object = List.range objects.length := by
  have positions := List.zipIdx_map_snd 0 objects
  rw [← List.range_eq_range'] at positions
  rw [← positions, detect, List.map_map]
  rfl

theorem regroup {α : Type} (a b c d e : List α) :
    ((a ++ (b ++ c)) ++ (d ++ e)).Perm ((a ++ (c ++ d)) ++ (b ++ e)) := by
  apply Multiset.coe_eq_coe.mp
  simp only [← Multiset.coe_add]
  abel

/-- The detections of high score are matched in the first round or in the third, or
left to the loop over new tracks. -/
theorem Valid.high_perm (valid : Valid tracker count) (partitions : Partitions calls)
    (objects : List (Object F)) :
    ((firstRound calls objects tracker).matched.map Prod.snd ++
        ((thirdRound calls objects tracker).matched.map Prod.snd ++
          (thirdRound calls objects tracker).uDetection)).Perm
      ((detect objects).filter fun detection => tracker.trackThresh ≤ detection.strack.score) :=
  ((valid.thirdRound_perm partitions objects).2.append_left _).trans
    (valid.firstRound_perm partitions objects).2

/-- Every detection is matched once or left over once. -/
theorem Valid.detections_perm (valid : Valid tracker count) (partitions : Partitions calls)
    (objects : List (Object F)) :
    ((matchedPairs calls objects tracker).map Prod.snd ++
      ((thirdRound calls objects tracker).uDetection ++
        (secondRound calls objects tracker).uDetection)).Perm (detect objects) := by
  have split := List.filter_append_perm (fun detection : Detection F =>
    decide (tracker.trackThresh ≤ detection.strack.score)) (detect objects)
  have rounds := (valid.high_perm partitions objects).append (valid.secondRound_perm partitions objects).2
  simp only [matchedPairs, List.map_append]
  refine ((regroup _ _ _ _ _).trans rounds).trans ?_
  simpa using split

theorem newTracks_objects (highThresh : F) (now : Int) (detections : List (Detection F)) (count : Int) :
    (newTracks highThresh now detections count).1.map Prod.snd =
      (detections.filter fun detection => ¬detection.strack.score < highThresh).map Detection.object := by
  induction detections generalizing count with
  | nil => rfl
  | cons detection detections ih =>
    rw [newTracks_cons]
    by_cases low : detection.strack.score < highThresh
    · simpa [low] using ih count
    · simpa [low] using ih (count + 1)

/-- The objects used in a call, in the order of their uses. -/
theorem Valid.used_objects (valid : Valid tracker count) (partitions : Partitions calls)
    (made : update calls objects fps numFrames count tracker = call) :
    call.used.map Prod.snd = ((matchedPairs calls objects tracker).map Prod.snd ++
      ((thirdRound calls objects tracker).uDetection.filter fun detection =>
        ¬detection.strack.score < tracker.highThresh)).map Detection.object := by
  subst made
  have created := newTracks_objects tracker.highThresh tracker.now
    (thirdRound calls objects tracker).uDetection count
  rw [Call.used, List.map_append, List.map_append, List.map_map, List.map_map, ← created]
  exact congrArg (· ++ _) (valid.used_eq partitions objects)

/-- No object is used twice. -/
theorem Valid.used_nodup (valid : Valid tracker count) (partitions : Partitions calls)
    (made : update calls objects fps numFrames count tracker = call) :
    (call.used.map Prod.snd).Nodup := by
  have every : ((detect objects).map Detection.object).Nodup := by
    rw [detect_objects]
    exact List.nodup_range
  have once := ((valid.detections_perm partitions objects).map Detection.object).nodup_iff.mpr every
  rw [valid.used_objects partitions made]
  refine List.Nodup.sublist ?_ once
  apply List.Sublist.map
  apply List.Sublist.append_left
  exact List.filter_sublist.trans (List.sublist_append_left _ _)

/-- An object above both thresholds is used. -/
theorem Valid.high_used (valid : Valid tracker count) (partitions : Partitions calls)
    (made : update calls objects fps numFrames count tracker = call) {position : Nat} {object : Object F}
    (listed : objects[position]? = some object) (above : tracker.trackThresh ≤ object.prob)
    (high : ¬object.prob < tracker.highThresh) : position ∈ call.used.map Prod.snd := by
  have detected : (⟨position, object.toSTrack⟩ : Detection F) ∈ detect objects :=
    List.mem_map.mpr ⟨(object, position), List.mk_mem_zipIdx_iff_getElem?.mpr listed, rfl⟩
  have score : object.toSTrack.score = object.prob := rfl
  have member := (valid.high_perm partitions objects).mem_iff.mpr
    (List.mem_filter.mpr ⟨detected, by simpa [score] using above⟩)
  rw [valid.used_objects partitions made]
  refine List.mem_map.mpr ⟨⟨position, object.toSTrack⟩, ?_, rfl⟩
  simp only [matchedPairs, List.map_append, List.mem_append] at member ⊢
  obtain first | third | left := member
  · exact .inl (.inl first)
  · exact .inl (.inr (.inr third))
  · exact .inr (List.mem_filter.mpr ⟨left, by simpa [score] using high⟩)

/-- A track of the output took an object in this call and carries its data. -/
theorem Valid.mem_output (valid : Valid tracker count) (partitions : Partitions calls)
    (made : update calls objects fps numFrames count tracker = call) (member : track ∈ call.output) :
    ∃ position, (track.trackId, position) ∈ call.used ∧ Renewed objects tracker.now track position := by
  obtain ⟨before, jointed, kept⟩ := mem_call_tracked made ((call_output made).subset member)
  obtain ⟨position, active⟩ := valid.mem_jointed partitions made jointed
  obtain ⟨state, frameId, object, listed, score, name, label⟩ :=
    valid.active_renewed partitions made active
  refine ⟨position, kept.trackId ▸ active.used, kept.state.trans state, kept.frameId.trans frameId,
    object, listed, ?_⟩
  exact ⟨kept.score.trans score, kept.name.trans name, kept.label.trans label⟩

/-- A use of an object is the update, the re-activation or the creation of a track,
which takes the data of the object. -/
theorem Valid.mem_used (valid : Valid tracker count) (partitions : Partitions calls)
    (made : update calls objects fps numFrames count tracker = call) {use : Int × Nat}
    (member : use ∈ call.used) : ∃ track, track.trackId = use.1 ∧ Active call track use.2 ∧
      Renewed objects tracker.now track use.2 := by
  obtain ⟨track, same, active⟩ := Active.of_used member
  exact ⟨track, same, active, valid.active_renewed partitions made active⟩

/-- The accounts of one call. -/
structure Accounted (objects : List (Object F)) (tracker : Tracker F) (call : Call F) : Prop where
  once : (call.used.map Prod.snd).Nodup
  uses : ∀ use ∈ call.used, ∃ track, track.trackId = use.1 ∧ Active call track use.2 ∧
    Renewed objects tracker.now track use.2
  high : ∀ position object, objects[position]? = some object → tracker.trackThresh ≤ object.prob →
    tracker.highThresh ≤ object.prob → ∃! id, (id, position) ∈ call.used
  output : ∃ taken : List Nat, taken.Nodup ∧ List.Forall₂ (fun track position =>
    (track.trackId, position) ∈ call.used ∧ Renewed objects tracker.now track position) call.output taken
  length : call.output.length ≤ objects.length

theorem Valid.accounted (valid : Valid tracker count) (partitions : Partitions calls)
    (compares : Compares F) (made : update calls objects fps numFrames count tracker = call) :
    Accounted objects tracker call := by
  have once := valid.used_nodup partitions made
  have distinct : (ids call.output).Nodup := by
    refine List.Nodup.sublist ?_ (valid.jointed_nodup partitions made)
    exact (ids_sublist (call_output made)).trans (call_tracked_ids made)
  have same {one two : Int × Nat} (first : one ∈ call.used) (last : two ∈ call.used)
      (equal : one.2 = two.2) : one = two := List.inj_on_of_nodup_map once first last equal
  obtain ⟨taken, all, apart, origins⟩ := choose_distinct distinct (fun track member =>
      valid.mem_output partitions made member)
    fun one two position first last => congrArg Prod.fst (same first.1 last.1 rfl)
  refine ⟨once, fun use member => valid.mem_used partitions made member, fun position object listed above high => ?_,
    ⟨taken, apart, all⟩, ?_⟩
  · have used := valid.high_used partitions made listed above (compares _ _ high)
    obtain ⟨use, member, rfl⟩ := List.mem_map.mp used
    exact ⟨use.1, member, fun id other => congrArg Prod.fst (same other member rfl)⟩
  · rw [all.length_eq, ← List.length_range (n := objects.length)]
    apply (List.subperm_of_subset apart ?_).length_le
    intro position member
    obtain ⟨_, _, _, _, _, object, listed, _⟩ := origins position member
    exact List.mem_range.mpr (List.getElem?_eq_some_iff.mp listed).1

end Yolov5Rknn.BYTETracker

namespace Yolov5Rknn.ByteTrackerWrapper
open BYTETracker Transition

variable {F : Type} {calls : Calls F}

/-- The break is not taken while there is room. -/
theorem collect_all {stracks : List (STrack F)} {results : List (DetectResult F)}
    (room : results.length + stracks.length ≤ objNumbMaxSize) :
    collect calls stracks results = results ++ stracks.map (out calls) := by
  induction stracks generalizing results with
  | nil => exact (List.append_nil results).symm
  | cons track rest ih =>
    rw [List.length_cons] at room
    have short : ¬results.length ≥ objNumbMaxSize := by omega
    rw [collect, if_neg short, ih, List.map_cons, List.append_assoc, List.singleton_append]
    rw [List.length_append, List.length_singleton]
    omega

variable [Arithmetic F] {session next : Session F} {event : Event F}

theorem create_valid (calls : Calls F) (frameRate trackBuffer count : Int)
    (trackThresh highThresh matchThresh : F) :
    Valid (BYTETracker.create calls frameRate trackBuffer trackThresh highThresh matchThresh) count := by
  refine ⟨?_, ?_, ?_, ?_⟩ <;> simp [BYTETracker.create, ids]

theorem step_valid (partitions : Partitions calls) (valid : Valid session.wrapper.tracker session.count)
    (taken : step calls event session = some next) : Valid next.wrapper.tracker next.count := by
  cases event with
  | update detections =>
    cases taken
    exact valid.next partitions rfl
  | reset =>
    cases taken
    exact create_valid calls _ _ _ _ _ _
  | nextId =>
    cases taken
    exact valid.later (Int.le_add_one (le_refl _))

theorem update_drops_none (partitions : Partitions calls) (compares : Compares F)
    (valid : Valid session.wrapper.tracker session.count) {detections : DetectResultGroup F}
    (fits : detections.results.length ≤ objNumbMaxSize) :
    (update calls detections session.count session.wrapper).1.results =
      (tracks calls detections session.count session.wrapper).output.map (out calls) := by
  have accounted := valid.accounted partitions compares
    (rfl : tracks calls detections session.count session.wrapper = _)
  have objects := List.length_filterMap_le (toObject (F := F)) detections.results
  apply collect_all
  have length := accounted.length
  simp only [List.length_nil]
  omega

end Yolov5Rknn.ByteTrackerWrapper

namespace Yolov5Rknn.BYTETracker
open Transition

variable {F : Type} [Arithmetic F] {calls : Calls F}

/-- In every call on a reachable tracker the objects are accounted for, and so the
wrapper returns every track if it is given no more objects than it has room for. -/
theorem objects_accounted (partitions : Partitions calls) (compares : Compares F) :
    (∀ start process, Fresh start → Reachable (step calls) start process → ∀ objects fps numFrames,
      Accounted objects process.tracker
        (update calls objects fps numFrames process.count process.tracker)) ∧
    ∀ frameRate trackBuffer trackThresh highThresh matchThresh count session,
      Reachable (ByteTrackerWrapper.step calls)
        ⟨ByteTrackerWrapper.create calls frameRate trackBuffer trackThresh highThresh matchThresh, count⟩
        session →
      ∀ detections : ByteTrackerWrapper.DetectResultGroup F,
        detections.results.length ≤ ByteTrackerWrapper.objNumbMaxSize →
        (ByteTrackerWrapper.update calls detections session.count session.wrapper).1.results =
          (ByteTrackerWrapper.tracks calls detections session.count session.wrapper).output.map
            (ByteTrackerWrapper.out calls) := by
  constructor
  · intro start process fresh reached objects fps numFrames
    exact (reachable_known partitions fresh reached).valid.accounted partitions compares rfl
  · intro frameRate trackBuffer trackThresh highThresh matchThresh count session reached detections fits
    apply ByteTrackerWrapper.update_drops_none partitions compares _ fits
    refine reachable_keeps (fun session => Valid session.wrapper.tracker session.count) ?_ ?_ reached
    · exact fun _ _ _ valid taken => ByteTrackerWrapper.step_valid partitions valid taken
    · exact ByteTrackerWrapper.create_valid calls _ _ _ _ _ _

def sampleGroup : ByteTrackerWrapper.DetectResultGroup ℚ :=
  ⟨7, [⟨[99, 97, 114], 0, 0, [], ⟨100, 150, 100, 180⟩, 9 / 10⟩]⟩

def sampleSession : ByteTrackerWrapper.Session ℚ :=
  ⟨ByteTrackerWrapper.create sampleCalls 30 1 (1 / 2) (3 / 5) (4 / 5), 0⟩

theorem objects_accounted_sample : ∃ process session,
    run (step sampleCalls) [seen 1, missed 2] sampleStart = some process ∧
    Accounted [sampleObject] process.tracker
      (update sampleCalls [sampleObject] 30 3 process.count process.tracker) ∧
    run (ByteTrackerWrapper.step sampleCalls) [.update sampleGroup, .nextId] sampleSession = some session ∧
    (ByteTrackerWrapper.update sampleCalls sampleGroup session.count session.wrapper).1.results =
      (ByteTrackerWrapper.tracks sampleCalls sampleGroup session.count session.wrapper).output.map
        (ByteTrackerWrapper.out sampleCalls) :=
  have sample := objects_accounted sampleCalls_partitions compares_ofField
  ⟨_, _, rfl, sample.1 sampleStart _ sampleStart_fresh ⟨[seen 1, missed 2], rfl⟩ [sampleObject] 30 3, rfl,
    sample.2 30 1 (1 / 2) (3 / 5) (4 / 5) 0 _ ⟨[.update sampleGroup, .nextId], rfl⟩ sampleGroup (by decide)⟩

end Yolov5Rknn.BYTETracker
