import Yolov5Rknn.Proofs.TrackerRounds

/-! The fates of tracks and detections over one call. Everything the claims about
`update` need from its three rounds is here, free of pointers. -/

namespace Yolov5Rknn.BYTETracker
open Matching Pointers

variable {F : Type} [Arithmetic F] {calls : Calls F} {objects : List (Object F)} {tracker : Tracker F}
  {count : Int} {track : STrack F} {entry : Pushed F}

theorem turns_keep (turn : Visit (STrack F) (Pushed F)) (turned : Turned calls objects tracker turn)
    (track : STrack F) : (turn.body track).1.trackId = track.trackId := by
  cases turned with
  | matched pair =>
    simp only [matchTurn]
    split <;> rfl
  | lost pointer =>
    simp only [lostTurn]
    split <;> rfl
  | confirmed pair => rfl
  | removed pointer => rfl

theorem Valid.afterThird_ids (valid : Valid tracker count) (partitions : Partitions calls)
    (objects : List (Object F)) :
    ids (afterThird calls objects tracker).1.left = ids tracker.trackedStracks ∧
      ids (afterThird calls objects tracker).1.right = ids tracker.lostStracks := by
  have predicted : tracker.predicted.keys STrack.trackId = tracker.store.keys STrack.trackId := by
    apply visitAll_keys STrack.trackId (tracker.store, [])
    intro turn member value
    obtain ⟨pointer, _, rfl⟩ := List.mem_map.mp member
    rfl
  have matched : (afterThird calls objects tracker).1.keys STrack.trackId =
      tracker.predicted.keys STrack.trackId := by
    rw [afterThird_eq]
    apply visitAll_keys STrack.trackId (tracker.predicted, [])
    exact fun turn member => turns_keep turn (valid.turned partitions member)
  exact Prod.mk.inj (matched.trans predicted)

theorem Valid.afterThird_there (valid : Valid tracker count) {pointer : Pointer}
    (there : (afterThird calls objects tracker).1.get? pointer = some track) :
    ∃ old, tracker.store.get? pointer = some old := by
  apply Option.isSome_iff_exists.mp
  rw [← valid.predicted_isSome]
  have kept := congrArg Option.isSome there
  rwa [afterThird_eq, visitAll_isSome] at kept

/-- What a turn pushes is the track it leaves behind its pointer; behind a pointer to
a lost track it is a re-found one. -/
theorem Valid.turn_entry (valid : Valid tracker count) (partitions : Partitions calls)
    {turn : Visit (STrack F) (Pushed F)} (taken : turn ∈ turns calls objects tracker) :
    ∃ entry ∈ (afterThird calls objects tracker).2,
      (afterThird calls objects tracker).1.get? turn.pointer = some entry.track ∧
      tracker.idAt turn.pointer = some entry.track.trackId ∧
      ∀ index, turn.pointer = .right index → ∃ found position, entry = .refind found position := by
  obtain ⟨met, seen, after, pushes⟩ := valid.turn_effect partitions taken
  obtain ⟨entry, pushed, same, _, id, refound⟩ := valid.turn_push (valid.turned partitions taken) seen
  exact ⟨entry, pushes entry (by simp [pushed]), same ▸ after, id, refound⟩

/-- Every push comes from a turn and has its origin. -/
theorem Valid.entry_turn (valid : Valid tracker count) (partitions : Partitions calls)
    (member : entry ∈ (afterThird calls objects tracker).2) :
    (∃ turn ∈ turns calls objects tracker, tracker.idAt turn.pointer = some entry.track.trackId) ∧
      Origin objects tracker entry := by
  obtain ⟨turn, taken, met, seen, pushed⟩ := valid.pushed_turn partitions member
  obtain ⟨only, pushes, _, origin, id, _⟩ := valid.turn_push (valid.turned partitions taken) seen
  rw [pushes] at pushed
  cases List.mem_singleton.mp pushed
  exact ⟨⟨turn, taken, id⟩, origin⟩

theorem Valid.origin (valid : Valid tracker count) (partitions : Partitions calls)
    (member : entry ∈ (afterThird calls objects tracker).2) : Origin objects tracker entry :=
  (valid.entry_turn partitions member).2

/-- Every track of `tracked_stracks` was pushed as it is after the rounds. -/
theorem Valid.left_fate (valid : Valid tracker count) (partitions : Partitions calls)
    (member : track ∈ (afterThird calls objects tracker).1.left) :
    ∃ entry ∈ (afterThird calls objects tracker).2, entry.track = track := by
  obtain ⟨index, there⟩ := List.mem_iff_getElem?.mp member
  have found : (afterThird calls objects tracker).1.get? (.left index) = some track := there
  obtain ⟨old, before⟩ := valid.afterThird_there found
  obtain ⟨turn, taken, pointed⟩ := valid.left_turns partitions objects before
  obtain ⟨entry, pushed, after, _⟩ := valid.turn_entry partitions taken
  rw [pointed, found] at after
  exact ⟨entry, pushed, (Option.some.inj after).symm⟩

/-- A track of `lost_stracks` was re-found, or nothing was pushed for its id and it
was only predicted. -/
theorem Valid.right_fate (valid : Valid tracker count) (partitions : Partitions calls)
    (member : track ∈ (afterThird calls objects tracker).1.right) :
    (∃ position, .refind track position ∈ (afterThird calls objects tracker).2) ∨
      ∃ old ∈ tracker.lostStracks, track = old.predict ∧
        ∀ entry ∈ (afterThird calls objects tracker).2, entry.track.trackId ≠ track.trackId := by
  obtain ⟨index, there⟩ := List.mem_iff_getElem?.mp member
  have found : (afterThird calls objects tracker).1.get? (.right index) = some track := there
  obtain ⟨old, before⟩ := valid.afterThird_there found
  by_cases turned : Pointer.right index ∈ (turns calls objects tracker).map Visit.pointer
  · left
    obtain ⟨turn, taken, pointed⟩ := List.mem_map.mp turned
    obtain ⟨entry, pushed, after, _, refound⟩ := valid.turn_entry partitions taken
    obtain ⟨again, position, rfl⟩ := refound index pointed
    rw [pointed, found] at after
    cases Option.some.inj after
    exact ⟨position, pushed⟩
  · right
    have pooled : Pointer.right index ∈ tracker.pool := by
      apply valid.mem_pool.mpr
      exact .inr (right_mem_rights.mpr (List.getElem?_eq_some_iff.mp before).1)
    have kept : track = old.predict := by
      rw [afterThird_eq, visitAll_other turned, valid.predicted_get?, before] at found
      simpa [pooled] using found.symm
    refine ⟨old, get?_right_mem before, kept, fun entry pushed same => turned ?_⟩
    obtain ⟨turn, taken, id⟩ := (valid.entry_turn partitions pushed).1
    have here : tracker.idAt (.right index) = some entry.track.trackId := by
      rw [Tracker.idAt, before, Option.map_some, same, kept, STrack.predict_trackId]
    rw [valid.pointer_eq here id]
    exact List.mem_map_of_mem taken

theorem Valid.pushed_eq (valid : Valid tracker count) (partitions : Partitions calls)
    (objects : List (Object F)) : (afterThird calls objects tracker).2 =
      (turns calls objects tracker).flatMap (Visit.pushed tracker.predicted) := by
  rw [afterThird_eq, visitAll_pushed (valid.turns_nodup partitions objects), List.nil_append]

theorem Valid.turn_pushed (valid : Valid tracker count) (partitions : Partitions calls)
    {turn : Visit (STrack F) (Pushed F)} (taken : turn ∈ turns calls objects tracker) :
    ∃ met, tracker.predicted.get? turn.pointer = some met ∧
      turn.pushed tracker.predicted = (turn.body met).2 := by
  obtain ⟨met, seen, _⟩ := valid.turn_effect partitions taken
  exact ⟨met, seen, by simp [Visit.pushed, seen]⟩

/-- No track is pushed twice in the three rounds. -/
theorem Valid.pushed_nodup (valid : Valid tracker count) (partitions : Partitions calls)
    (objects : List (Object F)) :
    ((afterThird calls objects tracker).2.map fun entry => entry.track.trackId).Nodup := by
  have known : ((afterThird calls objects tracker).2.map fun entry => some entry.track.trackId) =
      ((turns calls objects tracker).map Visit.pointer).map tracker.idAt := by
    rw [valid.pushed_eq partitions, List.map_flatMap, List.map_map, List.map_eq_flatMap]
    apply List.flatMap_congr
    intro turn taken
    obtain ⟨met, seen, pushes⟩ := valid.turn_pushed partitions taken
    obtain ⟨entry, only, _, _, id, _⟩ := valid.turn_push (valid.turned partitions taken) seen
    rw [pushes, only, Function.comp_apply, id]
    rfl
  have distinct : (((turns calls objects tracker).map Visit.pointer).map tracker.idAt).Nodup := by
    apply (valid.turns_nodup partitions objects).map_on
    intro one first two last same
    obtain ⟨turn, taken, rfl⟩ := List.mem_map.mp first
    obtain ⟨track, there⟩ := valid.turns_there partitions taken
    have id : tracker.idAt turn.pointer = some track.trackId := by rw [Tracker.idAt, there, Option.map_some]
    exact valid.pointer_eq id (same.symm.trans id)
  rw [← known] at distinct
  refine List.Nodup.of_map some ?_
  rwa [List.map_map]

/-- The matched pairs of the three rounds, in the order of their loops. -/
def matchedPairs (calls : Calls F) (objects : List (Object F)) (tracker : Tracker F) :
    List (Pointer × Detection F) :=
  (firstRound calls objects tracker).matched ++ ((secondRound calls objects tracker).matched ++
    (thirdRound calls objects tracker).matched)

theorem matchTurn_used (pair : Pointer × Detection F) (track : STrack F) :
    (Pushed.used ((matchTurn calls tracker.now pair).body track).2).map Prod.snd = [pair.2.object] := by
  simp only [matchTurn]
  split <;> rfl

omit [Arithmetic F] in
theorem lostTurn_used (pointer : Pointer) (track : STrack F) :
    Pushed.used ((lostTurn pointer).body track).2 = [] := by
  simp only [lostTurn]
  split <;> rfl

/-- The rounds use the objects of the pairs they match. -/
theorem Valid.used_eq (valid : Valid tracker count) (partitions : Partitions calls)
    (objects : List (Object F)) :
    (Pushed.used (afterThird calls objects tracker).2).map Prod.snd =
      (matchedPairs calls objects tracker).map fun pair => pair.2.object := by
  have uses {α : Type} (items : List α) (turn : α → Visit (STrack F) (Pushed F)) (taken : α → List Nat)
      (member : ∀ item ∈ items, turn item ∈ turns calls objects tracker)
      (used : ∀ item track, (Pushed.used ((turn item).body track).2).map Prod.snd = taken item) :
      ((items.map turn).flatMap fun turn => (Pushed.used (turn.pushed tracker.predicted)).map Prod.snd) =
        items.flatMap taken := by
    rw [List.flatMap_map]
    apply List.flatMap_congr
    intro item listed
    obtain ⟨met, _, pushes⟩ := valid.turn_pushed partitions (member item listed)
    rw [pushes, used]
  have none {α : Type} (items : List α) : (items.flatMap fun _ => ([] : List Nat)) = [] :=
    List.flatMap_eq_nil_iff.mpr fun _ _ => rfl
  have spread : (Pushed.used (afterThird calls objects tracker).2).map Prod.snd =
      (turns calls objects tracker).flatMap fun turn =>
        (Pushed.used (turn.pushed tracker.predicted)).map Prod.snd := by
    rw [valid.pushed_eq partitions, Pushed.used, List.filterMap_flatMap, List.map_flatMap]
    rfl
  rw [spread, turns, List.flatMap_append, List.flatMap_append, List.flatMap_append, List.flatMap_append,
    uses _ _ (fun pair => [pair.2.object]) _ fun pair track => matchTurn_used pair track,
    uses _ _ (fun pair => [pair.2.object]) _ fun pair track => matchTurn_used pair track,
    uses _ _ (fun _ => []) _ fun pointer track => by rw [lostTurn_used]; rfl,
    uses _ _ (fun pair => [pair.2.object]) _ fun _ _ => rfl, uses _ _ (fun _ => []) _ fun _ _ => rfl]
  · simp only [List.map_eq_flatMap, matchedPairs, List.flatMap_append, none, List.nil_append,
      List.append_nil]
  all_goals
    intro item listed
    simp only [turns, List.mem_append]
  · exact .inr (.inr (.inr (.inr (List.mem_map_of_mem listed))))
  · exact .inr (.inr (.inr (.inl (List.mem_map_of_mem listed))))
  · exact .inr (.inr (.inl (List.mem_map_of_mem listed)))
  · exact .inr (.inl (List.mem_map_of_mem listed))
  · exact .inl (List.mem_map_of_mem listed)

end Yolov5Rknn.BYTETracker
