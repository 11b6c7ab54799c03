import Yolov5Rknn.Proofs.TrackerFates

/-! What one call of `update` makes of the fates: the tracks of `tracked_stracks`
and `lost_stracks` after the call, each with its origin, and the lists stay valid. -/

namespace Yolov5Rknn.BYTETracker
open Pointers

variable {F : Type} {track : STrack F} {call : Call F}

theorem activated_mem {pushed : List (Pushed F)} (member : track ∈ Pushed.activatedStracks pushed) :
    ∃ position, .activated track position ∈ pushed := by
  obtain ⟨entry, listed, same⟩ := List.mem_filterMap.mp member
  cases entry with
  | activated found position => cases same; exact ⟨position, listed⟩
  | refind | lost | removed => cases same

theorem refind_mem {pushed : List (Pushed F)} : track ∈ Pushed.refindStracks pushed ↔
    ∃ position, .refind track position ∈ pushed := by
  constructor
  · intro member
    obtain ⟨entry, listed, same⟩ := List.mem_filterMap.mp member
    cases entry with
    | refind found position => cases same; exact ⟨position, listed⟩
    | activated | lost | removed => cases same
  · rintro ⟨position, listed⟩
    exact List.mem_filterMap.mpr ⟨_, listed, rfl⟩

theorem lost_mem {pushed : List (Pushed F)} : track ∈ Pushed.lostStracks pushed ↔ .lost track ∈ pushed := by
  constructor
  · intro member
    obtain ⟨entry, listed, same⟩ := List.mem_filterMap.mp member
    cases entry with
    | lost found => cases same; exact listed
    | activated | refind | removed => cases same
  · intro listed
    exact List.mem_filterMap.mpr ⟨_, listed, rfl⟩

theorem removed_mem {pushed : List (Pushed F)} (member : track ∈ Pushed.removedStracks pushed) :
    .removed track ∈ pushed := by
  obtain ⟨entry, listed, same⟩ := List.mem_filterMap.mp member
  cases entry with
  | removed found => cases same; exact listed
  | activated | refind | lost => cases same

/-- A track that is not pushed to `lost_stracks` or `removed_stracks`: matched in one
of the rounds, or new. -/
inductive Active (call : Call F) (track : STrack F) (position : Nat) : Prop where
  | activated (pushed : .activated track position ∈ call.pushed)
  | refind (pushed : .refind track position ∈ call.pushed)
  | created (new : (track, position) ∈ call.created)

theorem Active.used {position : Nat} (active : Active call track position) :
    (track.trackId, position) ∈ call.used := by
  apply List.mem_append.mpr
  cases active with
  | activated pushed | refind pushed => exact .inl (List.mem_filterMap.mpr ⟨_, pushed, rfl⟩)
  | created new => exact .inr (List.mem_map.mpr ⟨_, new, rfl⟩)

theorem Active.of_used {use : Int × Nat} (member : use ∈ call.used) :
    ∃ track, track.trackId = use.1 ∧ Active call track use.2 := by
  obtain pushed | new := List.mem_append.mp member
  · obtain ⟨entry, listed, same⟩ := List.mem_filterMap.mp pushed
    cases entry with
    | activated found position => cases same; exact ⟨found, rfl, .activated listed⟩
    | refind found position => cases same; exact ⟨found, rfl, .refind listed⟩
    | lost | removed => cases same
  · obtain ⟨created, listed, rfl⟩ := List.mem_map.mp new
    exact ⟨created.1, rfl, .created listed⟩

variable [Arithmetic F] {calls : Calls F} {objects : List (Object F)} {tracker : Tracker F}
  {count fps numFrames now : Int} {highThresh : F} {detections : List (Detection F)}

section newTracks

theorem newTracks_cons (detection : Detection F) :
    newTracks highThresh now (detection :: detections) count =
      if detection.strack.score < highThresh then newTracks highThresh now detections count
      else
        ((detection.strack.activate now (count + 1), detection.object) ::
          (newTracks highThresh now detections (count + 1)).1,
          (newTracks highThresh now detections (count + 1)).2) := rfl

/-- The counter only grows, and the new ids lie between its two values. -/
theorem newTracks_counted : count ≤ (newTracks highThresh now detections count).2 ∧
    ∀ new ∈ (newTracks highThresh now detections count).1,
      count < new.1.trackId ∧ new.1.trackId ≤ (newTracks highThresh now detections count).2 := by
  induction detections generalizing count with
  | nil => exact ⟨le_refl count, fun _ member => by cases member⟩
  | cons detection detections ih =>
    rw [newTracks_cons]
    split
    · exact ih
    · obtain ⟨grown, between⟩ := @ih (count + 1)
      refine ⟨by omega, fun new member => ?_⟩
      obtain rfl | later := List.mem_cons.mp member
      · simp only [STrack.activate_trackId]
        omega
      · have := between new later
        omega

theorem newTracks_nodup :
    (ids ((newTracks highThresh now detections count).1.map Prod.fst)).Nodup := by
  induction detections generalizing count with
  | nil => exact .nil
  | cons detection detections ih =>
    rw [newTracks_cons]
    split
    · exact ih
    · refine List.nodup_cons.mpr ⟨fun member => ?_, ih⟩
      simp only [List.map_map, List.mem_map, Function.comp_apply] at member
      obtain ⟨new, created, same⟩ := member
      have := (newTracks_counted.2 new created).1
      simp only [same, STrack.activate_trackId] at this
      omega

theorem newTracks_renewed (detected : ∀ detection ∈ detections, detection ∈ detect objects) :
    ∀ new ∈ (newTracks highThresh now detections count).1, Renewed objects now new.1 new.2 := by
  induction detections generalizing count with
  | nil => exact fun _ member => by cases member
  | cons detection detections ih =>
    have rest : ∀ other ∈ detections, other ∈ detect objects :=
      fun other member => detected other (List.mem_cons_of_mem _ member)
    rw [newTracks_cons]
    split
    · exact ih rest
    · intro new member
      obtain rfl | later := List.mem_cons.mp member
      · obtain ⟨object, listed, made⟩ := mem_detect (detected detection List.mem_cons_self)
        refine ⟨rfl, rfl, object, listed, ?_⟩
        simp only [made]
        exact ⟨rfl, rfl, rfl⟩
      · exact ih rest new later

end newTracks

/-- What the output loop keeps of a track. -/
structure Kept (before after : STrack F) : Prop where
  trackId : after.trackId = before.trackId
  state : after.state = before.state
  frameId : after.frameId = before.frameId
  isActivated : after.isActivated = before.isActivated
  score : after.score = before.score
  name : after.name = before.name
  label : after.label = before.label

theorem startCenter_kept (calls : Calls F) (numFrames : Int) (track : STrack F) :
    Kept track (startCenter calls numFrames track) := by
  unfold startCenter
  split <;> exact ⟨rfl, rfl, rfl, rfl, rfl, rfl, rfl⟩

theorem refresh_kept (calls : Calls F) (fps numFrames : Int) (track : STrack F) :
    Kept track (refresh calls fps numFrames track) := by
  obtain ⟨trackId, state, frameId, isActivated, score, name, label⟩ := startCenter_kept calls numFrames track
  unfold refresh
  split <;> exact ⟨trackId, state, frameId, isActivated, score, name, label⟩

/-- A track of the output loop. -/
abbrev shown (calls : Calls F) (fps numFrames : Int) (track : STrack F) : STrack F :=
  if track.isActivated then refresh calls fps numFrames track else track

theorem shown_kept (calls : Calls F) (fps numFrames : Int) (track : STrack F) :
    Kept track (shown calls fps numFrames track) := by
  unfold shown
  split
  · exact refresh_kept calls fps numFrames track
  · exact ⟨rfl, rfl, rfl, rfl, rfl, rfl, rfl⟩

/-- The lost tracks after the expiry scan. -/
abbrev scanned (calls : Calls F) (objects : List (Object F)) (tracker : Tracker F) : List (STrack F) :=
  (afterThird calls objects tracker).1.right.map fun track =>
    if tracker.overdue track then track.markRemoved else track

theorem Valid.mem_jointed (valid : Valid tracker count) (partitions : Partitions calls)
    (made : update calls objects fps numFrames count tracker = call) (member : track ∈ call.jointed) :
    ∃ position, Active call track position := by
  subst made
  obtain first | refound := mem_of_mem_jointStracks member
  · obtain swapped | activated := mem_of_mem_jointStracks first
    · obtain ⟨left, tracked⟩ := List.mem_filter.mp swapped
      obtain ⟨entry, pushed, rfl⟩ := valid.left_fate partitions left
      have origin := valid.origin partitions pushed
      cases entry with
      | activated found position => exact ⟨position, .activated pushed⟩
      | refind found position => exact ⟨position, .refind pushed⟩
      | lost found | removed found => simp [Pushed.track, origin.1] at tracked
    · obtain pushed | new := List.mem_append.mp activated
      · obtain ⟨position, listed⟩ := activated_mem pushed
        exact ⟨position, .activated listed⟩
      · obtain ⟨⟨found, position⟩, created, rfl⟩ := List.mem_map.mp new
        exact ⟨position, .created created⟩
  · obtain ⟨position, listed⟩ := refind_mem.mp refound
    exact ⟨position, .refind listed⟩

theorem Valid.active_renewed (valid : Valid tracker count) (partitions : Partitions calls)
    (made : update calls objects fps numFrames count tracker = call) {position : Nat}
    (active : Active call track position) : Renewed objects tracker.now track position := by
  subst made
  cases active with
  | activated pushed | refind pushed => exact (valid.origin partitions pushed).1
  | created new =>
    refine newTracks_renewed (fun detection member => ?_) _ new
    have unmatched := (valid.thirdRound_perm partitions objects).2.subset (List.mem_append_right _ member)
    exact List.mem_of_mem_filter
      ((valid.firstRound_perm partitions objects).2.subset (List.mem_append_right _ unmatched))

/-- New ids lie above the counter before the call and not above it after. -/
theorem call_counted (made : update calls objects fps numFrames count tracker = call) :
    count ≤ call.count ∧ ∀ new ∈ call.created, count < new.1.trackId ∧ new.1.trackId ≤ call.count := by
  subst made
  exact newTracks_counted

theorem Valid.pushed_old (valid : Valid tracker count) (partitions : Partitions calls) {entry : Pushed F}
    (pushed : entry ∈ (afterThird calls objects tracker).2) :
    entry.track.trackId ∈ ids tracker.trackedStracks ++ ids tracker.lostStracks := by
  have origin := valid.origin partitions pushed
  apply List.mem_append.mpr
  cases entry with
  | activated found position =>
    obtain ⟨_, old, member, same⟩ := origin
    exact .inl (same ▸ mem_ids member)
  | refind found position =>
    obtain ⟨_, old, member, same⟩ := origin
    exact .inr (same ▸ mem_ids member)
  | lost found =>
    obtain ⟨_, old, member, _, same, _⟩ := origin
    exact .inl (same ▸ mem_ids member)
  | removed found =>
    obtain ⟨_, old, member, _, same⟩ := origin
    exact .inl (same ▸ mem_ids member)

theorem Valid.pushed_le (valid : Valid tracker count) (partitions : Partitions calls) {entry : Pushed F}
    (pushed : entry ∈ (afterThird calls objects tracker).2) : entry.track.trackId ≤ count :=
  valid.counted _ (List.mem_append_left _ (valid.pushed_old partitions pushed))

/-- A pushed id belongs to one push. -/
theorem Valid.pushed_eq_of_id (valid : Valid tracker count) (partitions : Partitions calls)
    {entry other : Pushed F} (pushed : entry ∈ (afterThird calls objects tracker).2)
    (again : other ∈ (afterThird calls objects tracker).2)
    (same : entry.track.trackId = other.track.trackId) : entry = other :=
  List.inj_on_of_nodup_map (valid.pushed_nodup partitions objects) pushed again same

/-- An active track is neither lost nor removed in the same call. -/
theorem Valid.active_apart (valid : Valid tracker count) (partitions : Partitions calls)
    (made : update calls objects fps numFrames count tracker = call) {position : Nat}
    (active : Active call track position) {entry : Pushed F} (pushed : entry ∈ call.pushed)
    (same : entry.track.trackId = track.trackId) :
    entry = .activated track position ∨ entry = .refind track position := by
  subst made
  cases active with
  | activated listed => exact .inl (valid.pushed_eq_of_id partitions pushed listed same)
  | refind listed => exact .inr (valid.pushed_eq_of_id partitions pushed listed same)
  | created new =>
    have above := ((call_counted rfl).2 _ new).1
    have below := valid.pushed_le partitions pushed
    rw [same] at below
    exact absurd below (not_le_of_gt above)

theorem Valid.jointed_nodup (valid : Valid tracker count) (partitions : Partitions calls)
    (made : update calls objects fps numFrames count tracker = call) : (ids call.jointed).Nodup := by
  subst made
  apply jointStracks_nodup
  apply jointStracks_nodup
  apply List.Nodup.sublist (ids_sublist List.filter_sublist)
  rw [(valid.afterThird_ids partitions objects).1]
  exact (List.nodup_append.mp valid.distinct).1

/-- What the expiry scan makes of a lost track. -/
structure Scanned (tracker : Tracker F) (old track : STrack F) : Prop where
  trackId : track.trackId = old.trackId
  frameId : track.frameId = old.frameId
  state : track.state = if tracker.overdue old then .removed else old.state

/-- A track kept in `lost_stracks` was there before and not re-found, or it was lost
in this call. -/
theorem Valid.mem_subtracted (valid : Valid tracker count) (partitions : Partitions calls)
    (made : update calls objects fps numFrames count tracker = call) (member : track ∈ call.subtracted) :
    track.trackId ∉ ids tracker.removedStracks ∧
      ((∃ old ∈ tracker.lostStracks, Scanned tracker old track ∧
          track.trackId ∉ ids call.jointed ∧ ∀ entry ∈ call.pushed, entry.track.trackId ≠ track.trackId) ∨
        .lost track ∈ call.pushed) := by
  subst made
  obtain ⟨merged, kept⟩ := mem_subStracks.mp member
  refine ⟨kept, ?_⟩
  obtain listed | pushed := List.mem_append.mp merged
  · left
    obtain ⟨scanned, absent⟩ := mem_subStracks.mp listed
    obtain ⟨raw, right, made⟩ := List.mem_map.mp scanned
    have sameId : track.trackId = raw.trackId := by
      rw [← made]
      split <;> rfl
    obtain ⟨position, refound⟩ | ⟨old, before, rfl, silent⟩ := valid.right_fate partitions right
    · apply absurd _ absent
      rw [sameId]
      exact key_mem_jointStracks (refind_mem.mpr ⟨position, refound⟩)
    · refine ⟨old, before, ?_, absent, fun entry pushed => sameId ▸ silent entry pushed⟩
      have due : tracker.overdue old.predict = tracker.overdue old := rfl
      rw [due] at made
      subst made
      constructor <;> cases tracker.overdue old <;> rfl
  · exact .inr (lost_mem.mp pushed)

theorem Valid.subtracted_nodup (valid : Valid tracker count) (partitions : Partitions calls)
    (made : update calls objects fps numFrames count tracker = call) : (ids call.subtracted).Nodup := by
  subst made
  apply List.Nodup.sublist (ids_sublist subStracks_sublist)
  rw [ids_append]
  have before := List.nodup_append.mp valid.distinct
  refine List.Nodup.append ?_ ?_ ?_
  · apply List.Nodup.sublist (ids_sublist subStracks_sublist)
    have scanned : ids (scanned calls objects tracker) = ids (afterThird calls objects tracker).1.right := by
      simp only [ids, List.map_map]
      apply List.map_congr_left
      intro track _
      simp only [Function.comp_apply]
      split <;> rfl
    rw [scanned, (valid.afterThird_ids partitions objects).2]
    exact before.2.1
  · have distinct := valid.pushed_nodup partitions objects
    have part : (ids (Pushed.lostStracks (afterThird calls objects tracker).2)).Sublist
        ((afterThird calls objects tracker).2.map fun entry => entry.track.trackId) := by
      induction (afterThird calls objects tracker).2 with
      | nil => exact .slnil
      | cons entry rest ih => cases entry <;> first | exact ih.cons _ | exact ih.cons_cons _
    exact distinct.sublist part
  · intro id stayed newly
    obtain ⟨track, listed, rfl⟩ := List.mem_map.mp newly
    obtain ⟨_, old, member, _, same, _⟩ := valid.origin partitions (lost_mem.mp listed)
    have right := (ids_sublist subStracks_sublist).subset stayed
    obtain ⟨kept, scan, sameId⟩ := List.mem_map.mp right
    obtain ⟨raw, there, rfl⟩ := List.mem_map.mp scan
    have lost : raw.trackId ∈ ids tracker.lostStracks := by
      rw [← (valid.afterThird_ids partitions objects).2]
      exact mem_ids there
    refine before.2.2 _ (mem_ids member) _ lost ?_
    rw [same, ← sameId]
    split <;> rfl

theorem Valid.jointed_disjoint (valid : Valid tracker count) (partitions : Partitions calls)
    (made : update calls objects fps numFrames count tracker = call) :
    List.Disjoint (ids call.jointed) (ids call.subtracted) := by
  intro id first last
  obtain ⟨kept, subtracted, rfl⟩ := List.mem_map.mp last
  obtain ⟨_, ⟨_, _, _, absent, _⟩ | lost⟩ := valid.mem_subtracted partitions made subtracted
  · exact absent first
  · obtain ⟨track, jointed, same⟩ := List.mem_map.mp first
    obtain ⟨position, active⟩ := valid.mem_jointed partitions made jointed
    obtain equal | equal := valid.active_apart partitions made active lost same.symm
    · cases equal
    · cases equal

theorem mem_call_tracked (made : update calls objects fps numFrames count tracker = call)
    (member : track ∈ call.tracker.trackedStracks) : ∃ before ∈ call.jointed, Kept before track := by
  subst made
  obtain ⟨before, kept, rfl⟩ := List.mem_map.mp member
  exact ⟨before, (removeDuplicateStracks_sublist _ _).1.subset kept, shown_kept calls fps numFrames before⟩

theorem call_tracked_ids (made : update calls objects fps numFrames count tracker = call) :
    (ids call.tracker.trackedStracks).Sublist (ids call.jointed) := by
  have same (stracks : List (STrack F)) : ids (stracks.map (shown calls fps numFrames)) = ids stracks := by
    rw [ids, List.map_map]
    exact List.map_congr_left fun track _ => (shown_kept calls fps numFrames track).trackId
  subst made
  have kept := ids_sublist (removeDuplicateStracks_sublist
    (update calls objects fps numFrames count tracker).jointed
    (update calls objects fps numFrames count tracker).subtracted).1
  rwa [← same] at kept

theorem call_lost (made : update calls objects fps numFrames count tracker = call) :
    call.tracker.lostStracks.Sublist call.subtracted := by
  subst made
  exact (removeDuplicateStracks_sublist _ _).2

theorem call_output (made : update calls objects fps numFrames count tracker = call) :
    call.output.Sublist call.tracker.trackedStracks := by
  subst made
  exact List.filter_sublist

theorem call_removed (made : update calls objects fps numFrames count tracker = call) :
    call.tracker.removedStracks = tracker.removedStracks ++ call.removedStracks := by
  subst made
  rfl

/-- A track is marked removed if it was never confirmed, or by the expiry scan. -/
theorem mem_removed (made : update calls objects fps numFrames count tracker = call)
    (member : track ∈ call.removedStracks) :
    .removed track ∈ call.pushed ∨
      ∃ raw ∈ (afterThird calls objects tracker).1.right, tracker.overdue raw = true ∧ track = raw.markRemoved := by
  subst made
  obtain unconfirmed | expired := List.mem_append.mp member
  · exact .inl (removed_mem unconfirmed)
  · obtain ⟨raw, scanned, rfl⟩ := List.mem_map.mp expired
    exact .inr ⟨raw, List.mem_of_mem_filter scanned, List.of_mem_filter scanned, rfl⟩

theorem Valid.right_old (valid : Valid tracker count) (partitions : Partitions calls)
    (member : track ∈ (afterThird calls objects tracker).1.right) : track.trackId ∈ ids tracker.lostStracks := by
  rw [← (valid.afterThird_ids partitions objects).2]
  exact mem_ids member

/-- A lost track was re-found, or it was only predicted. -/
theorem Valid.right_of_lost (valid : Valid tracker count) (partitions : Partitions calls)
    (objects : List (Object F)) {old : STrack F} (member : old ∈ tracker.lostStracks) :
    ∃ raw ∈ (afterThird calls objects tracker).1.right, raw.trackId = old.trackId ∧
      ((∃ position, .refind raw position ∈ (afterThird calls objects tracker).2) ∨ raw = old.predict) := by
  have listed := mem_ids member
  rw [← (valid.afterThird_ids partitions objects).2] at listed
  obtain ⟨raw, right, same⟩ := List.mem_map.mp listed
  refine ⟨raw, right, same, ?_⟩
  obtain refound | ⟨other, before, rfl, _⟩ := valid.right_fate partitions right
  · exact .inl refound
  · exact .inr (congrArg STrack.predict (valid.lost_eq before member same))

/-- Every tracked track is pushed. -/
theorem Valid.tracked_pushed (valid : Valid tracker count) (partitions : Partitions calls)
    (objects : List (Object F)) {old : STrack F} (member : old ∈ tracker.trackedStracks) :
    ∃ entry ∈ (afterThird calls objects tracker).2, entry.track.trackId = old.trackId := by
  have listed := mem_ids member
  rw [← (valid.afterThird_ids partitions objects).1] at listed
  obtain ⟨raw, left, same⟩ := List.mem_map.mp listed
  obtain ⟨entry, pushed, rfl⟩ := valid.left_fate partitions left
  exact ⟨entry, pushed, same⟩

theorem lost_subtracted (made : update calls objects fps numFrames count tracker = call)
    (pushed : .lost track ∈ call.pushed) (live : track.trackId ∉ ids tracker.removedStracks) :
    track ∈ call.subtracted := by
  subst made
  exact mem_subStracks.mpr ⟨List.mem_append_right _ (lost_mem.mpr pushed), live⟩

/-- A lost track stays lost, marked removed or not, unless its id is tracked or was
removed before. -/
theorem right_subtracted (made : update calls objects fps numFrames count tracker = call)
    (right : track ∈ (afterThird calls objects tracker).1.right) (untracked : track.trackId ∉ ids call.jointed)
    (live : track.trackId ∉ ids tracker.removedStracks) :
    (if tracker.overdue track then track.markRemoved else track) ∈ call.subtracted := by
  subst made
  have same : (if tracker.overdue track then track.markRemoved else track).trackId = track.trackId := by
    split <;> rfl
  apply mem_subStracks.mpr
  refine ⟨List.mem_append_left _ (mem_subStracks.mpr ⟨List.mem_map_of_mem right, ?_⟩), ?_⟩
  · exact fun tracked => untracked (same ▸ tracked)
  · exact fun removed => live (same ▸ removed)

/-- An active track was tracked or lost before, or it is new. -/
theorem Valid.active_old (valid : Valid tracker count) (partitions : Partitions calls)
    (made : update calls objects fps numFrames count tracker = call) {position : Nat}
    (active : Active call track position) :
    track.trackId ∈ ids tracker.trackedStracks ++ ids tracker.lostStracks ∨
      track.trackId ∈ ids (call.created.map Prod.fst) := by
  cases active with
  | activated pushed | refind pushed =>
    subst made
    exact .inl (valid.pushed_old partitions pushed)
  | created new => exact .inr (mem_ids (List.mem_map.mpr ⟨_, new, rfl⟩))

/-- An id that is tracked after the call belongs to an active track. -/
theorem Valid.tracked_active (valid : Valid tracker count) (partitions : Partitions calls)
    (made : update calls objects fps numFrames count tracker = call) {id : Int}
    (tracked : id ∈ ids call.tracker.trackedStracks) :
    ∃ track position, track.trackId = id ∧ Active call track position := by
  obtain ⟨track, jointed, same⟩ := List.mem_map.mp ((call_tracked_ids made).subset tracked)
  obtain ⟨position, active⟩ := valid.mem_jointed partitions made jointed
  exact ⟨track, position, same, active⟩

/-- The ids after a call are old ones or new ones. -/
theorem Valid.next_ids (valid : Valid tracker count) (partitions : Partitions calls)
    (made : update calls objects fps numFrames count tracker = call) :
    ∀ id ∈ ids call.tracker.trackedStracks ++ ids call.tracker.lostStracks ++ ids call.tracker.removedStracks,
      id ∈ ids tracker.trackedStracks ++ ids tracker.lostStracks ++ ids tracker.removedStracks ∨
        id ∈ ids (call.created.map Prod.fst) := by
  intro id member
  have used {id : Int} (old : id ∈ ids tracker.trackedStracks ++ ids tracker.lostStracks) :
      id ∈ ids tracker.trackedStracks ++ ids tracker.lostStracks ++ ids tracker.removedStracks :=
    List.mem_append_left _ old
  obtain (tracked | lost) | removed := (List.mem_append.mp member).imp_left List.mem_append.mp
  · obtain ⟨track, position, rfl, active⟩ := valid.tracked_active partitions made tracked
    exact (valid.active_old partitions made active).imp_left used
  · obtain ⟨track, subtracted, rfl⟩ := List.mem_map.mp ((ids_sublist (call_lost made)).subset lost)
    obtain ⟨_, ⟨old, before, scanned, _⟩ | pushed⟩ := valid.mem_subtracted partitions made subtracted
    · rw [scanned.trackId]
      exact .inl (used (List.mem_append_right _ (mem_ids before)))
    · subst made
      exact .inl (used (valid.pushed_old partitions pushed))
  · rw [call_removed made, ids_append] at removed
    obtain before | now := List.mem_append.mp removed
    · exact .inl (List.mem_append_right _ before)
    · obtain ⟨track, marked, rfl⟩ := List.mem_map.mp now
      obtain pushed | ⟨raw, right, _, rfl⟩ := mem_removed made marked
      · subst made
        exact .inl (used (valid.pushed_old partitions pushed))
      · have lost : raw.trackId ∈ ids tracker.lostStracks := valid.right_old partitions right
        exact .inl (used (List.mem_append_right _ lost))

/-- The lists of a tracker stay valid. -/
theorem Valid.next (valid : Valid tracker count) (partitions : Partitions calls)
    (made : update calls objects fps numFrames count tracker = call) : Valid call.tracker call.count := by
  have grown := (call_counted made).1
  refine ⟨fun track member => ?_, fun track member => ?_, ?_, fun id member => ?_⟩
  · obtain ⟨before, jointed, kept⟩ := mem_call_tracked made member
    obtain ⟨position, active⟩ := valid.mem_jointed partitions made jointed
    exact kept.state.trans (valid.active_renewed partitions made active).state
  · have subtracted := (call_lost made).subset member
    obtain ⟨_, ⟨old, lost, scanned, _⟩ | pushed⟩ := valid.mem_subtracted partitions made subtracted
    · rw [scanned.state]
      split
      · exact .inr rfl
      · exact valid.lost old lost
    · subst made
      exact .inl (valid.origin partitions pushed).1
  · refine List.Nodup.append ?_ ?_ ?_
    · exact (valid.jointed_nodup partitions made).sublist (call_tracked_ids made)
    · exact (valid.subtracted_nodup partitions made).sublist (ids_sublist (call_lost made))
    · apply List.disjoint_of_subset_left (call_tracked_ids made).subset
      apply List.disjoint_of_subset_right (ids_sublist (call_lost made)).subset
      exact valid.jointed_disjoint partitions made
  · obtain old | new := valid.next_ids partitions made id member
    · exact (valid.counted id old).trans grown
    · obtain ⟨track, created, rfl⟩ := List.mem_map.mp new
      obtain ⟨pair, listed, rfl⟩ := List.mem_map.mp created
      exact ((call_counted made).2 pair listed).2

end Yolov5Rknn.BYTETracker
