import Yolov5Rknn.ByteTrackerWrapper

/-! The tracker treats track ids as names: on tracks with ids moved by a constant and a
counter moved by the same, it does the same. -/

namespace Yolov5Rknn.BYTETracker
open Matching Pointers

section lists

variable {α α' κ κ' : Type} [DecidableEq κ] [DecidableEq κ']

theorem jointStracks_map {f : α → α'} (key : α → κ) (key' : α' → κ') (a b : List α)
    (same : ∀ one two, key' (f one) = key' (f two) ↔ key one = key two) :
    jointStracks key' (a.map f) (b.map f) = (jointStracks key a b).map f := by
  induction b generalizing a with
  | nil => rfl
  | cons track rest ih =>
    have listed : key' (f track) ∈ (a.map f).map key' ↔ key track ∈ a.map key := by
      simp only [List.mem_map, exists_exists_and_eq_and, same]
    simp only [jointStracks, List.map_cons, List.foldl_cons] at ih ⊢
    by_cases known : key track ∈ a.map key
    · rw [if_pos known, if_pos (listed.mpr known)]
      exact ih a
    · rw [if_neg known, if_neg (mt listed.mp known), ← List.map_singleton, ← List.map_append]
      exact ih _

theorem dropPositions_map (f : α → α') (dup : List Nat) (items : List α) :
    dropPositions dup (items.map f) = (dropPositions dup items).map f := by
  rw [dropPositions, dropPositions, List.zipIdx_map, List.filter_map, List.map_map, List.map_map]
  rfl

end lists

variable {F : Type} (shift : Int)

def STrack.renumber (track : STrack F) : STrack F := { track with trackId := track.trackId + shift }

def Pushed.renumber : Pushed F → Pushed F
  | activated track object => activated (track.renumber shift) object
  | refind track object => refind (track.renumber shift) object
  | lost track => lost (track.renumber shift)
  | removed track => removed (track.renumber shift)

def Tracker.renumber (tracker : Tracker F) : Tracker F :=
  { tracker with
    trackedStracks := tracker.trackedStracks.map (STrack.renumber shift)
    lostStracks := tracker.lostStracks.map (STrack.renumber shift)
    removedStracks := tracker.removedStracks.map (STrack.renumber shift) }

variable {shift}

@[simp] theorem renumber_id (one two : STrack F) :
    (one.renumber shift).trackId = (two.renumber shift).trackId ↔ one.trackId = two.trackId :=
  Int.add_left_inj shift

theorem Pushed.renumber_activated (pushed : List (Pushed F)) :
    activatedStracks (pushed.map (renumber shift)) = (activatedStracks pushed).map (STrack.renumber shift) := by
  rw [activatedStracks, activatedStracks, List.filterMap_map, List.map_filterMap]
  exact List.filterMap_congr fun turn _ => by cases turn <;> rfl

theorem Pushed.renumber_refind (pushed : List (Pushed F)) :
    refindStracks (pushed.map (renumber shift)) = (refindStracks pushed).map (STrack.renumber shift) := by
  rw [refindStracks, refindStracks, List.filterMap_map, List.map_filterMap]
  exact List.filterMap_congr fun turn _ => by cases turn <;> rfl

theorem Pushed.renumber_lost (pushed : List (Pushed F)) :
    lostStracks (pushed.map (renumber shift)) = (lostStracks pushed).map (STrack.renumber shift) := by
  rw [lostStracks, lostStracks, List.filterMap_map, List.map_filterMap]
  exact List.filterMap_congr fun turn _ => by cases turn <;> rfl

theorem Pushed.renumber_removed (pushed : List (Pushed F)) :
    removedStracks (pushed.map (renumber shift)) = (removedStracks pushed).map (STrack.renumber shift) := by
  rw [removedStracks, removedStracks, List.filterMap_map, List.map_filterMap]
  exact List.filterMap_congr fun turn _ => by cases turn <;> rfl

theorem jointStracks_renumber (a b : List (STrack F)) :
    jointStracks STrack.trackId (a.map (STrack.renumber shift)) (b.map (STrack.renumber shift)) =
      (jointStracks STrack.trackId a b).map (STrack.renumber shift) :=
  jointStracks_map _ _ a b renumber_id

theorem subStracks_renumber (a b : List (STrack F)) :
    subStracks (a.map (STrack.renumber shift)) (b.map (STrack.renumber shift)) =
      (subStracks a b).map (STrack.renumber shift) := by
  rw [subStracks, subStracks, List.filter_map]
  refine congrArg _ (List.filter_congr fun track _ => decide_eq_decide.mpr (not_congr ?_))
  simp only [ids, List.mem_map, exists_exists_and_eq_and, renumber_id]

variable {store : Vectors (STrack F)} {tracker : Tracker F}

theorem outlives_renumber (a b : List (STrack F)) (pair : Nat × Nat) :
    outlives (a.map (STrack.renumber shift)) (b.map (STrack.renumber shift)) pair = outlives a b pair := by
  rw [outlives, outlives, List.getElem?_map, List.getElem?_map]
  cases a[pair.1]? <;> cases b[pair.2]? <;> rfl

theorem deref_renumber (pointers : List Pointer) :
    deref (store.map (STrack.renumber shift)) pointers = (deref store pointers).map (STrack.renumber shift) := by
  rw [deref, deref, List.map_filterMap]
  exact List.filterMap_congr fun pointer _ => map_get? _ store pointer

theorem Tracker.renumber_store : (tracker.renumber shift).store = tracker.store.map (STrack.renumber shift) := rfl

theorem Tracker.renumber_pointers (activated : Bool) :
    (tracker.renumber shift).pointers activated = tracker.pointers activated := by
  rw [Tracker.pointers, Tracker.pointers, Tracker.renumber_store]
  simp only [map_get?, Tracker.renumber, List.length_map, Option.any_map]
  rfl

theorem renumber_behind (one two : Option (STrack F)) :
    (one.map (STrack.renumber shift)).map STrack.trackId = (two.map (STrack.renumber shift)).map STrack.trackId ↔
      one.map STrack.trackId = two.map STrack.trackId := by
  cases one <;> cases two <;> simp

theorem Tracker.renumber_pool : (tracker.renumber shift).pool = tracker.pool := by
  have named := jointStracks_map (f := id) (fun pointer => (tracker.store.get? pointer).map STrack.trackId)
    (fun pointer => ((tracker.renumber shift).store.get? pointer).map STrack.trackId)
    (tracker.pointers true) (rights tracker.lostStracks.length) fun one two => by
      rw [Tracker.renumber_store, map_get?, map_get?]
      exact renumber_behind _ _
  rw [List.map_id, List.map_id, List.map_id] at named
  rw [Tracker.pool, Tracker.pool, Tracker.renumber_pointers, ← named]
  simp only [Tracker.renumber, List.length_map]

/-- The bodies of the loops do the same under other ids. -/
theorem lostTurn_renumber (pointer : Pointer) (value : STrack F) :
    (lostTurn pointer).body (value.renumber shift) =
      (((lostTurn pointer).body value).1.renumber shift,
        ((lostTurn pointer).body value).2.map (Pushed.renumber shift)) := by
  by_cases lost : value.state ≠ .lost
  · simp only [lostTurn, STrack.renumber, if_pos lost]
    rfl
  · simp only [lostTurn, STrack.renumber, if_neg lost]
    rfl

/-- The lost tracks after the expiry scan, which marks some of them where they are. -/
theorem marked_renumber (lost : List (STrack F)) :
    ((lost.map (STrack.renumber shift)).map fun track =>
        if (tracker.renumber shift).overdue track then track.markRemoved else track) =
      (lost.map fun track => if tracker.overdue track then track.markRemoved else track).map
        (STrack.renumber shift) := by
  rw [List.map_map, List.map_map]
  refine List.map_congr_left fun track _ => ?_
  by_cases overdue : tracker.overdue track
  · have again : (tracker.renumber shift).overdue (track.renumber shift) = true := overdue
    simp only [Function.comp_apply, if_pos overdue, if_pos again]
    rfl
  · have again : ¬(tracker.renumber shift).overdue (track.renumber shift) = true := overdue
    simp only [Function.comp_apply, if_neg overdue, if_neg again]

variable [Arithmetic F] {calls : Calls F} {objects : List (Object F)}

theorem iouDistance_renumber (a b : List (STrack F)) :
    iouDistance (a.map (STrack.renumber shift)) (b.map (STrack.renumber shift)) = iouDistance a b := by
  rw [iouDistance, iouDistance, List.map_map, List.map_map]
  rfl

theorem removeDuplicateStracks_renumber (a b : List (STrack F)) :
    removeDuplicateStracks (a.map (STrack.renumber shift)) (b.map (STrack.renumber shift)) =
      ((removeDuplicateStracks a b).1.map (STrack.renumber shift),
        (removeDuplicateStracks a b).2.map (STrack.renumber shift)) := by
  simp only [removeDuplicateStracks, duplicatePairs, iouDistance_renumber, outlives_renumber, dropPositions_map]

theorem associate_renumber (thresh : F) (rows : List Pointer) (detections : List (Detection F)) :
    associate calls thresh (store.map (STrack.renumber shift)) rows detections =
      associate calls thresh store rows detections := by
  rw [associate, associate, deref_renumber, iouDistance, iouDistance, List.map_map]
  rfl

theorem Tracker.renumber_predicted :
    (tracker.renumber shift).predicted = tracker.predicted.map (STrack.renumber shift) := by
  rw [Tracker.predicted, Tracker.predicted, Tracker.renumber_pool, Tracker.renumber_store]
  refine congrArg Prod.fst (visitAll_map (g := Pushed.renumber shift) (tracker.store, []) fun turn member value => ?_)
  obtain ⟨pointer, _, rfl⟩ := List.mem_map.mp member
  rfl

theorem matchTurn_renumber (frameId : Int) (pair : Pointer × Detection F) (value : STrack F) :
    (matchTurn calls frameId pair).body (value.renumber shift) =
      (((matchTurn calls frameId pair).body value).1.renumber shift,
        ((matchTurn calls frameId pair).body value).2.map (Pushed.renumber shift)) := by
  by_cases tracked : value.state = .tracked
  · simp only [matchTurn, STrack.renumber, if_pos tracked]
    rfl
  · simp only [matchTurn, STrack.renumber, if_neg tracked]
    rfl

/-- The images of the vectors and of what was pushed. -/
abbrev Work.renumber (shift : Int) (work : Work F) : Work F :=
  (work.1.map (STrack.renumber shift), work.2.map (Pushed.renumber shift))

theorem firstRound_renumber : firstRound calls objects (tracker.renumber shift) = firstRound calls objects tracker := by
  rw [firstRound, firstRound, Tracker.renumber_predicted, Tracker.renumber_pool]
  exact associate_renumber _ _ _

theorem afterFirst_renumber :
    afterFirst calls objects (tracker.renumber shift) = (afterFirst calls objects tracker).renumber shift := by
  rw [afterFirst, afterFirst, firstRound_renumber, Tracker.renumber_predicted]
  refine visitAll_map (tracker.predicted, []) fun turn member value => ?_
  obtain ⟨pair, _, rfl⟩ := List.mem_map.mp member
  exact matchTurn_renumber _ pair value

theorem rTrackedStracks_renumber :
    rTrackedStracks calls objects (tracker.renumber shift) = rTrackedStracks calls objects tracker := by
  rw [rTrackedStracks, rTrackedStracks, firstRound_renumber, afterFirst_renumber]
  simp only [map_get?, Option.any_map]
  rfl

theorem secondRound_renumber :
    secondRound calls objects (tracker.renumber shift) = secondRound calls objects tracker := by
  rw [secondRound, secondRound, afterFirst_renumber, rTrackedStracks_renumber]
  exact associate_renumber _ _ _

theorem afterSecond_renumber :
    afterSecond calls objects (tracker.renumber shift) = (afterSecond calls objects tracker).renumber shift := by
  rw [afterSecond, afterSecond, secondRound_renumber, afterFirst_renumber]
  rw [visitAll_map (afterFirst calls objects tracker) fun turn member value => ?_]
  · refine visitAll_map _ fun turn member value => ?_
    obtain ⟨pointer, _, rfl⟩ := List.mem_map.mp member
    exact lostTurn_renumber pointer value
  · obtain ⟨pair, _, rfl⟩ := List.mem_map.mp member
    exact matchTurn_renumber _ pair value

theorem thirdRound_renumber :
    thirdRound calls objects (tracker.renumber shift) = thirdRound calls objects tracker := by
  rw [thirdRound, thirdRound, afterSecond_renumber, Tracker.renumber_pointers, firstRound_renumber]
  exact associate_renumber _ _ _

theorem afterThird_renumber :
    afterThird calls objects (tracker.renumber shift) = (afterThird calls objects tracker).renumber shift := by
  rw [afterThird, afterThird, thirdRound_renumber, afterSecond_renumber]
  rw [visitAll_map (afterSecond calls objects tracker) fun turn member value => ?_]
  · refine visitAll_map _ fun turn member value => ?_
    obtain ⟨pointer, _, rfl⟩ := List.mem_map.mp member
    rfl
  · obtain ⟨pair, _, rfl⟩ := List.mem_map.mp member
    rfl

theorem newTracks_renumber (highThresh : F) (frameId : Int) (detections : List (Detection F)) (count : Int) :
    newTracks highThresh frameId detections (count + shift) =
      ((newTracks highThresh frameId detections count).1.map fun new => (new.1.renumber shift, new.2),
        (newTracks highThresh frameId detections count).2 + shift) := by
  induction detections generalizing count with
  | nil => rfl
  | cons detection rest ih =>
    rw [newTracks, newTracks]
    split
    · exact ih count
    · rw [show count + shift + 1 = count + 1 + shift by omega, ih (count + 1)]
      rfl

theorem refresh_renumber (fps numFrames : Int) (track : STrack F) :
    refresh calls fps numFrames (track.renumber shift) = (refresh calls fps numFrames track).renumber shift := by
  unfold refresh startCenter
  split <;> split <;> rfl

section call

variable {fps numFrames count : Int} {call moved : Call F}
  (made : update calls objects fps numFrames count tracker = call)
  (again : update calls objects fps numFrames (count + shift) (tracker.renumber shift) = moved)

include made

theorem subtracted_eq : call.subtracted = subStracks (subStracks ((afterThird calls objects tracker).1.right.map
    fun track => if tracker.overdue track then track.markRemoved else track) call.jointed ++
      Pushed.lostStracks call.pushed) tracker.removedStracks := by
  subst made
  rfl

theorem tracked_eq : call.tracker.trackedStracks =
    (removeDuplicateStracks call.jointed call.subtracted).1.map fun track =>
      if track.isActivated then refresh calls fps numFrames track else track := by
  subst made
  rfl

include again

theorem created_renumber : moved.created = call.created.map fun new => (new.1.renumber shift, new.2) := by
  subst made again
  change (newTracks _ _ (thirdRound calls objects (tracker.renumber shift)).uDetection (count + shift)).1 = _
  rw [thirdRound_renumber, newTracks_renumber]
  rfl

theorem count_renumber : moved.count = call.count + shift := by
  subst made again
  change (newTracks _ _ (thirdRound calls objects (tracker.renumber shift)).uDetection (count + shift)).2 = _
  rw [thirdRound_renumber, newTracks_renumber]
  rfl

theorem pushed_renumber : moved.pushed = call.pushed.map (Pushed.renumber shift) := by
  subst made again
  exact congrArg Prod.snd afterThird_renumber

theorem jointed_renumber : moved.jointed = call.jointed.map (STrack.renumber shift) := by
  have swap : ((afterThird calls objects (tracker.renumber shift)).1.left.filter fun track => track.state = .tracked) =
      ((afterThird calls objects tracker).1.left.filter fun track => track.state = .tracked).map
        (STrack.renumber shift) := by
    rw [afterThird_renumber]
    exact List.filter_map
  have activated : Pushed.activatedStracks moved.pushed ++ moved.created.map Prod.fst =
      (Pushed.activatedStracks call.pushed ++ call.created.map Prod.fst).map (STrack.renumber shift) := by
    rw [pushed_renumber made again, created_renumber made again, Pushed.renumber_activated, List.map_append,
      List.map_map, List.map_map]
    rfl
  have refind : Pushed.refindStracks moved.pushed = (Pushed.refindStracks call.pushed).map (STrack.renumber shift) := by
    rw [pushed_renumber made again, Pushed.renumber_refind]
  have joint := congrArg₂ (jointStracks STrack.trackId) (congrArg₂ (jointStracks STrack.trackId) swap activated) refind
  rw [jointStracks_renumber, jointStracks_renumber] at joint
  subst made again
  exact joint

theorem expired_renumber : moved.expired = call.expired.map (STrack.renumber shift) := by
  subst made again
  change ((afterThird calls objects (tracker.renumber shift)).1.right.filter _).map STrack.markRemoved =
    (((afterThird calls objects tracker).1.right.filter tracker.overdue).map STrack.markRemoved).map _
  rw [afterThird_renumber]
  change (((afterThird calls objects tracker).1.right.map (STrack.renumber shift)).filter _).map _ = _
  rw [List.filter_map, List.map_map, List.map_map]
  rfl

theorem subtracted_renumber : moved.subtracted = call.subtracted.map (STrack.renumber shift) := by
  rw [subtracted_eq made, subtracted_eq again, pushed_renumber made again, jointed_renumber made again,
    Pushed.renumber_lost, afterThird_renumber]
  change subStracks (subStracks (((afterThird calls objects tracker).1.right.map (STrack.renumber shift)).map _) _ ++ _)
    (tracker.removedStracks.map (STrack.renumber shift)) = _
  rw [marked_renumber, subStracks_renumber, ← List.map_append, subStracks_renumber]

theorem tracked_renumber : moved.tracker.trackedStracks = call.tracker.trackedStracks.map (STrack.renumber shift) := by
  rw [tracked_eq made, tracked_eq again, jointed_renumber made again, subtracted_renumber made again,
    removeDuplicateStracks_renumber, List.map_map, List.map_map]
  refine List.map_congr_left fun track _ => ?_
  by_cases activated : track.isActivated
  · have again : (track.renumber shift).isActivated = true := activated
    simp only [Function.comp_apply, if_pos activated, if_pos again, refresh_renumber]
  · have again : ¬(track.renumber shift).isActivated = true := activated
    simp only [Function.comp_apply, if_neg activated, if_neg again]

theorem lost_renumber : moved.tracker.lostStracks = call.tracker.lostStracks.map (STrack.renumber shift) := by
  have lost : (removeDuplicateStracks (call.jointed.map (STrack.renumber shift))
      (call.subtracted.map (STrack.renumber shift))).2 =
        (removeDuplicateStracks call.jointed call.subtracted).2.map (STrack.renumber shift) :=
    congrArg Prod.snd (removeDuplicateStracks_renumber _ _)
  rw [← jointed_renumber made again, ← subtracted_renumber made again] at lost
  subst made again
  exact lost

theorem removed_renumber : moved.tracker.removedStracks = call.tracker.removedStracks.map (STrack.renumber shift) := by
  have removed : tracker.removedStracks.map (STrack.renumber shift) ++
      (Pushed.removedStracks moved.pushed ++ moved.expired) =
        (tracker.removedStracks ++ (Pushed.removedStracks call.pushed ++ call.expired)).map (STrack.renumber shift) := by
    rw [pushed_renumber made again, expired_renumber made again, Pushed.renumber_removed, List.map_append,
      List.map_append]
  subst made again
  exact removed

theorem tracker_renumber : moved.tracker = call.tracker.renumber shift := by
  have tracked := tracked_renumber made again
  have lost := lost_renumber made again
  have removed := removed_renumber made again
  rw [Tracker.renumber, ← tracked, ← lost, ← removed]
  subst made again
  rfl

theorem output_renumber : moved.output = call.output.map (STrack.renumber shift) := by
  have tracked := tracked_renumber made again
  have shown : moved.output = moved.tracker.trackedStracks.filter STrack.isActivated := by
    subst again
    rfl
  rw [shown, tracked, List.filter_map]
  subst made
  rfl

end call

end Yolov5Rknn.BYTETracker
