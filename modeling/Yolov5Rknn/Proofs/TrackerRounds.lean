import Yolov5Rknn.Proofs.TrackerLists

/-! What the three rounds of matching leave behind. Their loops change every track
through pointers that are all distinct, so each track has one fate in a call. -/

namespace Yolov5Rknn.BYTETracker
open Matching Pointers

variable {F : Type}

/-- The lists of a tracker between two calls, and the counter of `next_id`. -/
structure Valid (tracker : Tracker F) (count : Int) : Prop where
  tracked : ∀ track ∈ tracker.trackedStracks, track.state = .tracked
  lost : ∀ track ∈ tracker.lostStracks, track.state = .lost ∨ track.state = .removed
  distinct : (ids tracker.trackedStracks ++ ids tracker.lostStracks).Nodup
  counted : ∀ id ∈ ids tracker.trackedStracks ++ ids tracker.lostStracks ++ ids tracker.removedStracks,
    id ≤ count

theorem Valid.later {tracker : Tracker F} {count next : Int} (valid : Valid tracker count)
    (grown : count ≤ next) : Valid tracker next :=
  ⟨valid.tracked, valid.lost, valid.distinct, fun id member => (valid.counted id member).trans grown⟩

theorem Valid.tracked_eq {tracker : Tracker F} {count : Int} {one two : STrack F} (valid : Valid tracker count)
    (first : one ∈ tracker.trackedStracks) (last : two ∈ tracker.trackedStracks)
    (same : one.trackId = two.trackId) : one = two :=
  List.inj_on_of_nodup_map (List.nodup_append.mp valid.distinct).1 first last same

theorem Valid.lost_eq {tracker : Tracker F} {count : Int} {one two : STrack F} (valid : Valid tracker count)
    (first : one ∈ tracker.lostStracks) (last : two ∈ tracker.lostStracks)
    (same : one.trackId = two.trackId) : one = two :=
  List.inj_on_of_nodup_map (List.nodup_append.mp valid.distinct).2.1 first last same

theorem Valid.not_both {tracker : Tracker F} {count : Int} {one two : STrack F} (valid : Valid tracker count)
    (tracked : one ∈ tracker.trackedStracks) (lost : two ∈ tracker.lostStracks) :
    one.trackId ≠ two.trackId :=
  (List.nodup_append.mp valid.distinct).2.2 _ (mem_ids tracked) _ (mem_ids lost)

def Pushed.track : Pushed F → STrack F
  | .activated track _ | .refind track _ | .lost track | .removed track => track

/-- Pointers to all tracks of a tracker. -/
def Tracker.all (tracker : Tracker F) : List Pointer :=
  lefts tracker.trackedStracks.length ++ rights tracker.lostStracks.length

def Tracker.idAt (tracker : Tracker F) (pointer : Pointer) : Option Int :=
  (tracker.store.get? pointer).map STrack.trackId

variable {tracker : Tracker F} {count : Int} {pointer other : Pointer} {track : STrack F}

theorem get?_left_mem {index : Nat} (there : tracker.store.get? (.left index) = some track) :
    track ∈ tracker.trackedStracks := List.mem_of_getElem? there

theorem get?_right_mem {index : Nat} (there : tracker.store.get? (.right index) = some track) :
    track ∈ tracker.lostStracks := List.mem_of_getElem? there

theorem mem_all : pointer ∈ tracker.all ↔ (tracker.store.get? pointer).isSome := by
  cases pointer <;> simp [Tracker.all, Tracker.store, Vectors.get?]

theorem all_nodup (tracker : Tracker F) : tracker.all.Nodup := by
  apply (lefts_nodup _).append (rights_nodup _)
  intro pointer left right
  cases pointer <;> simp at left right

theorem map_getElem? {α β : Type} (f : α → β) (items : List α) :
    (List.range items.length).map (fun index => (items[index]?).map f) = items.map fun item => some (f item) := by
  apply List.ext_getElem (by simp)
  intro index _ last
  have inside : index < items.length := by simpa using last
  simp [List.getElem?_eq_getElem inside]

theorem map_idAt_all (tracker : Tracker F) : tracker.all.map tracker.idAt =
    (ids tracker.trackedStracks ++ ids tracker.lostStracks).map some := by
  simp only [Tracker.all, lefts, rights, List.map_append, List.map_map, ids]
  exact congrArg₂ (· ++ ·) (map_getElem? _ _) (map_getElem? _ _)

theorem Valid.idAt_nodup (valid : Valid tracker count) : (tracker.all.map tracker.idAt).Nodup := by
  rw [map_idAt_all]
  exact valid.distinct.map (Option.some_injective _)

/-- A track is known by its id. -/
theorem Valid.pointer_eq (valid : Valid tracker count) {id : Int} (one : tracker.idAt pointer = some id)
    (two : tracker.idAt other = some id) : pointer = other := by
  apply List.inj_on_of_nodup_map valid.idAt_nodup
  · rw [mem_all, ← Option.isSome_map, ← Tracker.idAt, one]
    rfl
  · rw [mem_all, ← Option.isSome_map, ← Tracker.idAt, two]
    rfl
  · exact one.trans two.symm

/-- Activated tracks and lost ones; no id occurs twice, so `joint_stracks` drops none. -/
theorem Valid.pool_eq (valid : Valid tracker count) :
    tracker.pool = tracker.pointers true ++ rights tracker.lostStracks.length := by
  apply jointStracks_append
  have part : (tracker.pointers true ++ rights tracker.lostStracks.length).Sublist tracker.all :=
    List.filter_sublist.append_right _
  exact valid.idAt_nodup.sublist (part.map tracker.idAt)

theorem mem_pointers {activated : Bool} : pointer ∈ tracker.pointers activated ↔
    ∃ index track, pointer = .left index ∧ tracker.trackedStracks[index]? = some track ∧
      track.isActivated = activated := by
  simp only [Tracker.pointers, List.mem_filter, lefts, List.mem_map, List.mem_range]
  constructor
  · rintro ⟨⟨index, inside, rfl⟩, same⟩
    have there : tracker.store.get? (.left index) = some tracker.trackedStracks[index] :=
      List.getElem?_eq_getElem inside
    exact ⟨index, _, rfl, List.getElem?_eq_getElem inside, by simpa [there] using same⟩
  · rintro ⟨index, track, rfl, there, same⟩
    have found : tracker.store.get? (.left index) = some track := there
    exact ⟨⟨index, (List.getElem?_eq_some_iff.mp there).1, rfl⟩, by simp [found, same]⟩

theorem Valid.mem_pool (valid : Valid tracker count) : pointer ∈ tracker.pool ↔
    pointer ∈ tracker.pointers true ∨ pointer ∈ rights tracker.lostStracks.length := by
  rw [valid.pool_eq, List.mem_append]

theorem Valid.pool_sublist (valid : Valid tracker count) : tracker.pool.Sublist tracker.all := by
  rw [valid.pool_eq]
  exact List.filter_sublist.append_right _

section rounds

variable [Arithmetic F] {calls : Calls F} {objects : List (Object F)}

/-- The pool is predicted, the unconfirmed tracks are not. -/
theorem Valid.predicted_get? (valid : Valid tracker count) (pointer : Pointer) :
    tracker.predicted.get? pointer =
      (tracker.store.get? pointer).map fun track => if pointer ∈ tracker.pool then track.predict else track := by
  have distinct : ((tracker.pool.map (predictTurn : _ → Visit (STrack F) (Pushed F))).map
      Visit.pointer).Nodup := by
    simpa [Function.comp_def, predictTurn] using (all_nodup tracker).sublist valid.pool_sublist
  by_cases pooled : pointer ∈ tracker.pool
  · have turned := List.mem_map_of_mem (f := (predictTurn : _ → Visit (STrack F) (Pushed F))) pooled
    simp only [if_pos pooled]
    exact visitAll_visited distinct turned
  · have apart : pointer ∉ (tracker.pool.map (predictTurn : _ → Visit (STrack F) (Pushed F))).map
        Visit.pointer := by
      simpa [Function.comp_def, predictTurn] using pooled
    simp only [if_neg pooled, Option.map_id']
    exact visitAll_other apart

/-- All turns of the loops after `multi_predict`, in their order. -/
def turns (calls : Calls F) (objects : List (Object F)) (tracker : Tracker F) :
    List (Visit (STrack F) (Pushed F)) :=
  (firstRound calls objects tracker).matched.map (matchTurn calls tracker.now) ++
    ((secondRound calls objects tracker).matched.map (matchTurn calls tracker.now) ++
    ((secondRound calls objects tracker).uTrack.map lostTurn ++
    ((thirdRound calls objects tracker).matched.map (confirmTurn calls tracker.now) ++
    (thirdRound calls objects tracker).uTrack.map removeTurn)))

theorem afterThird_eq : afterThird calls objects tracker =
    visitAll (turns calls objects tracker) (tracker.predicted, []) := by
  simp only [turns, visitAll_append]
  rfl

/-- Prediction changes the box of a track only. -/
theorem Valid.met (valid : Valid tracker count) (met : tracker.predicted.get? pointer = some track) :
    ∃ old, tracker.store.get? pointer = some old ∧ track.trackId = old.trackId ∧
      track.state = old.state ∧ track.frameId = old.frameId := by
  rw [valid.predicted_get?] at met
  obtain ⟨old, there, rfl⟩ := Option.map_eq_some_iff.mp met
  refine ⟨old, there, ?_⟩
  by_cases pooled : pointer ∈ tracker.pool
  · simp [pooled]
  · simp [pooled]

theorem Valid.predicted_isSome (valid : Valid tracker count) :
    (tracker.predicted.get? pointer).isSome = (tracker.store.get? pointer).isSome := by
  rw [valid.predicted_get?, Option.isSome_map]

theorem Valid.firstRound_perm (valid : Valid tracker count) (partitions : Partitions calls)
    (objects : List (Object F)) :
    ((firstRound calls objects tracker).matched.map Prod.fst ++
        (firstRound calls objects tracker).uTrack).Perm tracker.pool ∧
      ((firstRound calls objects tracker).matched.map Prod.snd ++
        (firstRound calls objects tracker).uDetection).Perm
        ((detect objects).filter fun detection => tracker.trackThresh ≤ detection.strack.score) := by
  apply associate_perm partitions
  intro pointer member
  rw [valid.predicted_isSome, ← mem_all]
  exact valid.pool_sublist.subset member

theorem Valid.firstMatched_nodup (valid : Valid tracker count) (partitions : Partitions calls)
    (objects : List (Object F)) :
    ((firstRound calls objects tracker).matched.map Prod.fst ++
      (firstRound calls objects tracker).uTrack).Nodup := by
  apply (valid.firstRound_perm partitions objects).1.nodup_iff.mpr
  exact (all_nodup tracker).sublist valid.pool_sublist

/-- The first round leaves a track it did not match as it was predicted. -/
theorem Valid.afterFirst_get? (valid : Valid tracker count) (partitions : Partitions calls)
    (left : pointer ∈ (firstRound calls objects tracker).uTrack) :
    (afterFirst calls objects tracker).1.get? pointer = tracker.predicted.get? pointer := by
  apply visitAll_other
  have disjoint := List.disjoint_of_nodup_append (valid.firstMatched_nodup partitions objects)
  intro matched
  rw [List.map_map] at matched
  exact disjoint matched left

/-- The second round is about the activated tracks the first one left. -/
theorem Valid.mem_rTrackedStracks (valid : Valid tracker count) (partitions : Partitions calls) :
    pointer ∈ rTrackedStracks calls objects tracker ↔
      pointer ∈ (firstRound calls objects tracker).uTrack ∧ pointer ∈ tracker.pointers true := by
  simp only [rTrackedStracks, List.mem_filter]
  apply and_congr_right
  intro left
  have pooled : pointer ∈ tracker.pool :=
    (valid.firstRound_perm partitions objects).1.subset (List.mem_append_right _ left)
  rw [valid.afterFirst_get? partitions left, valid.predicted_get?]
  obtain activated | lost := valid.mem_pool.mp pooled
  · refine iff_of_true ?_ activated
    obtain ⟨index, track, rfl, there, _⟩ := mem_pointers.mp activated
    have found : tracker.store.get? (.left index) = some track := there
    simp [found, pooled, valid.tracked track (get?_left_mem found)]
  · refine iff_of_false ?_ ?_
    · cases pointer with
      | left index => simp at lost
      | right index =>
        cases found : tracker.store.get? (.right index) with
        | none => simp
        | some track => cases valid.lost track (get?_right_mem found) <;> simp_all
    · intro activated
      obtain ⟨index, track, rfl, _⟩ := mem_pointers.mp activated
      simp at lost

theorem Valid.secondRound_perm (valid : Valid tracker count) (partitions : Partitions calls)
    (objects : List (Object F)) :
    ((secondRound calls objects tracker).matched.map Prod.fst ++
        (secondRound calls objects tracker).uTrack).Perm (rTrackedStracks calls objects tracker) ∧
      ((secondRound calls objects tracker).matched.map Prod.snd ++
        (secondRound calls objects tracker).uDetection).Perm
        ((detect objects).filter fun detection => ¬tracker.trackThresh ≤ detection.strack.score) := by
  apply associate_perm partitions
  intro pointer member
  obtain ⟨left, activated⟩ := (valid.mem_rTrackedStracks partitions).mp member
  rw [valid.afterFirst_get? partitions left, valid.predicted_isSome, ← mem_all]
  exact valid.pool_sublist.subset (valid.mem_pool.mpr (.inl activated))

theorem Valid.thirdRound_perm (valid : Valid tracker count) (partitions : Partitions calls)
    (objects : List (Object F)) :
    ((thirdRound calls objects tracker).matched.map Prod.fst ++
        (thirdRound calls objects tracker).uTrack).Perm (tracker.pointers false) ∧
      ((thirdRound calls objects tracker).matched.map Prod.snd ++
        (thirdRound calls objects tracker).uDetection).Perm
        (firstRound calls objects tracker).uDetection := by
  apply associate_perm partitions
  intro pointer member
  simp only [afterSecond, afterFirst, visitAll_isSome, valid.predicted_isSome]
  obtain ⟨index, track, rfl, there, _⟩ := mem_pointers.mp member
  exact Option.isSome_iff_exists.mpr ⟨track, there⟩

theorem map_turns : (turns calls objects tracker).map Visit.pointer =
    (firstRound calls objects tracker).matched.map Prod.fst ++
      ((secondRound calls objects tracker).matched.map Prod.fst ++
      ((secondRound calls objects tracker).uTrack ++
      ((thirdRound calls objects tracker).matched.map Prod.fst ++
      (thirdRound calls objects tracker).uTrack))) := by
  simp [turns, Function.comp_def, matchTurn, lostTurn, confirmTurn, removeTurn]

/-- The turns take what the first round matched, what it left of the activated
tracks, and the unconfirmed tracks. -/
theorem Valid.turns_perm (valid : Valid tracker count) (partitions : Partitions calls)
    (objects : List (Object F)) :
    ((turns calls objects tracker).map Visit.pointer).Perm
      ((firstRound calls objects tracker).matched.map Prod.fst ++
        (rTrackedStracks calls objects tracker ++ tracker.pointers false)) := by
  rw [map_turns]
  apply List.Perm.append_left
  rw [← List.append_assoc]
  exact (valid.secondRound_perm partitions objects).1.append (valid.thirdRound_perm partitions objects).1

theorem Valid.turns_nodup (valid : Valid tracker count) (partitions : Partitions calls)
    (objects : List (Object F)) : ((turns calls objects tracker).map Visit.pointer).Nodup := by
  apply (valid.turns_perm partitions objects).nodup_iff.mpr
  rw [← List.append_assoc]
  refine List.Nodup.append ?_ ?_ ?_
  · refine List.Nodup.sublist ?_ (valid.firstMatched_nodup partitions objects)
    exact List.filter_sublist.append_left _
  · exact (lefts_nodup _).sublist List.filter_sublist
  · intro pointer confirmed unconfirmed
    obtain ⟨index, track, rfl, there, inactive⟩ := mem_pointers.mp unconfirmed
    have pooled : Pointer.left index ∈ tracker.pool := by
      apply (valid.firstRound_perm partitions objects).1.subset
      obtain matched | left := List.mem_append.mp confirmed
      · exact List.mem_append_left _ matched
      · exact List.mem_append_right _ (List.mem_of_mem_filter left)
    obtain activated | lost := valid.mem_pool.mp pooled
    · obtain ⟨_, other, same, found, active⟩ := mem_pointers.mp activated
      cases same
      cases there.symm.trans found
      cases active.symm.trans inactive
    · simp at lost

theorem Valid.turns_there (valid : Valid tracker count) (partitions : Partitions calls)
    {turn : Visit (STrack F) (Pushed F)} (member : turn ∈ turns calls objects tracker) :
    ∃ track, tracker.store.get? turn.pointer = some track := by
  apply Option.isSome_iff_exists.mp
  apply mem_all.mp
  have pointed := (valid.turns_perm partitions objects).subset (List.mem_map_of_mem member)
  rw [List.mem_append, List.mem_append] at pointed
  obtain matched | left | unconfirmed := pointed
  · apply valid.pool_sublist.subset
    exact (valid.firstRound_perm partitions objects).1.subset (List.mem_append_left _ matched)
  · apply valid.pool_sublist.subset
    exact valid.mem_pool.mpr (.inl ((valid.mem_rTrackedStracks partitions).mp left).2)
  · obtain ⟨index, track, same, there, _⟩ := mem_pointers.mp unconfirmed
    rw [same]
    exact mem_all.mpr (Option.isSome_iff_exists.mpr ⟨track, there⟩)

/-- Every track of `tracked_stracks` has its turn. -/
theorem Valid.left_turns (valid : Valid tracker count) (partitions : Partitions calls)
    (objects : List (Object F)) {index : Nat}
    (there : tracker.trackedStracks[index]? = some track) :
    ∃ turn ∈ turns calls objects tracker, turn.pointer = .left index := by
  apply List.mem_map.mp
  apply (valid.turns_perm partitions objects).mem_iff.mpr
  rw [List.mem_append, List.mem_append]
  cases activated : track.isActivated with
  | false => exact .inr (.inr (mem_pointers.mpr ⟨index, track, rfl, there, activated⟩))
  | true =>
    have active : Pointer.left index ∈ tracker.pointers true :=
      mem_pointers.mpr ⟨index, track, rfl, there, activated⟩
    have pooled := (valid.firstRound_perm partitions objects).1.mem_iff.mpr (valid.mem_pool.mpr (.inl active))
    obtain matched | left := List.mem_append.mp pooled
    · exact .inl matched
    · exact .inr (.inl ((valid.mem_rTrackedStracks partitions).mpr ⟨left, active⟩))

/-- The value a turn meets, what it makes of it and what it pushes. -/
theorem Valid.turn_effect (valid : Valid tracker count) (partitions : Partitions calls)
    {turn : Visit (STrack F) (Pushed F)} (member : turn ∈ turns calls objects tracker) :
    ∃ track, tracker.predicted.get? turn.pointer = some track ∧
      (afterThird calls objects tracker).1.get? turn.pointer = some (turn.body track).1 ∧
      ∀ entry ∈ (turn.body track).2, entry ∈ (afterThird calls objects tracker).2 := by
  have distinct := valid.turns_nodup partitions objects
  obtain ⟨track, there⟩ := valid.turns_there partitions member
  have met := valid.predicted_get? turn.pointer
  rw [there, Option.map_some] at met
  refine ⟨_, met, ?_, fun entry pushed => ?_⟩
  · rw [afterThird_eq, visitAll_visited distinct member]
    change (tracker.predicted.get? turn.pointer).map _ = _
    rw [met]
    rfl
  · rw [afterThird_eq, visitAll_pushed distinct]
    apply List.mem_append_right
    apply List.mem_flatMap_of_mem member
    simpa only [Visit.pushed, met] using pushed

/-- Every push is one turn's. -/
theorem Valid.pushed_turn (valid : Valid tracker count) (partitions : Partitions calls) {entry : Pushed F}
    (member : entry ∈ (afterThird calls objects tracker).2) :
    ∃ turn ∈ turns calls objects tracker, ∃ track,
      tracker.predicted.get? turn.pointer = some track ∧ entry ∈ (turn.body track).2 := by
  rw [afterThird_eq, visitAll_pushed (valid.turns_nodup partitions objects), List.nil_append] at member
  obtain ⟨turn, taken, pushed⟩ := List.mem_flatMap.mp member
  refine ⟨turn, taken, ?_⟩
  unfold Visit.pushed at pushed
  split at pushed
  next => cases pushed
  next track met => exact ⟨track, met, pushed⟩

theorem mem_detect {detection : Detection F} (member : detection ∈ detect objects) :
    ∃ object, objects[detection.object]? = some object ∧ detection.strack = object.toSTrack := by
  obtain ⟨⟨object, position⟩, listed, rfl⟩ := List.mem_map.mp member
  exact ⟨object, List.mk_mem_zipIdx_iff_getElem?.mp listed, rfl⟩

/-- A track matched or created in the frame `now`, with the data of its object. -/
structure Renewed (objects : List (Object F)) (now : Int) (track : STrack F) (position : Nat) : Prop where
  state : track.state = .tracked
  frameId : track.frameId = now
  carries : ∃ object, objects[position]? = some object ∧
    track.score = object.prob ∧ track.name = object.name ∧ track.label = object.label

/-- Which tracks of the state before the call a push can be about, and how. -/
def Origin (objects : List (Object F)) (tracker : Tracker F) : Pushed F → Prop
  | .activated track position => Renewed objects tracker.now track position ∧
      ∃ old ∈ tracker.trackedStracks, old.trackId = track.trackId
  | .refind track position => Renewed objects tracker.now track position ∧
      ∃ old ∈ tracker.lostStracks, old.trackId = track.trackId
  | .lost track => track.state = .lost ∧ ∃ old ∈ tracker.trackedStracks,
      old.isActivated = true ∧ old.trackId = track.trackId ∧ old.frameId = track.frameId
  | .removed track => track.state = .removed ∧ ∃ old ∈ tracker.trackedStracks,
      old.isActivated = false ∧ old.trackId = track.trackId

/-- The five loops. -/
inductive Turned (calls : Calls F) (objects : List (Object F)) (tracker : Tracker F) :
    Visit (STrack F) (Pushed F) → Prop where
  | matched (pair : Pointer × Detection F) (pooled : pair.1 ∈ tracker.pool)
      (detected : pair.2 ∈ detect objects) : Turned calls objects tracker (matchTurn calls tracker.now pair)
  | lost (pointer : Pointer) (activated : pointer ∈ tracker.pointers true) :
      Turned calls objects tracker (lostTurn pointer)
  | confirmed (pair : Pointer × Detection F) (unconfirmed : pair.1 ∈ tracker.pointers false)
      (detected : pair.2 ∈ detect objects) : Turned calls objects tracker (confirmTurn calls tracker.now pair)
  | removed (pointer : Pointer) (unconfirmed : pointer ∈ tracker.pointers false) :
      Turned calls objects tracker (removeTurn pointer)

theorem Valid.turned (valid : Valid tracker count) (partitions : Partitions calls)
    {turn : Visit (STrack F) (Pushed F)} (member : turn ∈ turns calls objects tracker) :
    Turned calls objects tracker turn := by
  have first := valid.firstRound_perm partitions objects
  have second := valid.secondRound_perm partitions objects
  have third := valid.thirdRound_perm partitions objects
  simp only [turns, List.mem_append, List.mem_map] at member
  obtain ⟨pair, paired, rfl⟩ | ⟨pair, paired, rfl⟩ | ⟨pointer, left, rfl⟩ | ⟨pair, paired, rfl⟩ |
    ⟨pointer, left, rfl⟩ := member
  · apply Turned.matched
    · exact first.1.subset (List.mem_append_left _ (List.mem_map_of_mem paired))
    · exact List.mem_of_mem_filter (first.2.subset (List.mem_append_left _ (List.mem_map_of_mem paired)))
  · apply Turned.matched
    · have listed := second.1.subset (List.mem_append_left _ (List.mem_map_of_mem paired))
      exact valid.mem_pool.mpr (.inl ((valid.mem_rTrackedStracks partitions).mp listed).2)
    · exact List.mem_of_mem_filter (second.2.subset (List.mem_append_left _ (List.mem_map_of_mem paired)))
  · apply Turned.lost
    have listed := second.1.subset (List.mem_append_right _ left)
    exact ((valid.mem_rTrackedStracks partitions).mp listed).2
  · apply Turned.confirmed
    · exact third.1.subset (List.mem_append_left _ (List.mem_map_of_mem paired))
    · have unmatched := third.2.subset (List.mem_append_left _ (List.mem_map_of_mem paired))
      exact List.mem_of_mem_filter (first.2.subset (List.mem_append_right _ unmatched))
  · exact .removed pointer (third.1.subset (List.mem_append_right _ left))

/-- Every turn pushes one entry, about the track as the turn leaves it. -/
theorem Valid.turn_push (valid : Valid tracker count) {turn : Visit (STrack F) (Pushed F)}
    (turned : Turned calls objects tracker turn) (met : tracker.predicted.get? turn.pointer = some track) :
    ∃ entry, (turn.body track).2 = [entry] ∧ entry.track = (turn.body track).1 ∧
      Origin objects tracker entry ∧ tracker.idAt turn.pointer = some entry.track.trackId ∧
      ∀ index, turn.pointer = .right index → ∃ found position, entry = .refind found position := by
  obtain ⟨old, there, sameId, sameState, sameFrame⟩ := valid.met met
  have id : tracker.idAt turn.pointer = some track.trackId := by
    rw [Tracker.idAt, there, Option.map_some, sameId]
  cases turned with
  | matched pair pooled detected =>
    obtain ⟨object, listed, made⟩ := mem_detect detected
    simp only [matchTurn] at there id ⊢
    obtain activated | lost := valid.mem_pool.mp pooled
    · obtain ⟨index, _, same, _, _⟩ := mem_pointers.mp activated
      rw [same] at there id ⊢
      have member := get?_left_mem there
      rw [if_pos (sameState.trans (valid.tracked old member))]
      refine ⟨_, rfl, rfl, ⟨⟨rfl, rfl, object, listed, ?_⟩, old, member, sameId.symm⟩, id, by simp⟩
      simp only [STrack.update, made]
      exact ⟨rfl, rfl, rfl⟩
    · cases pointer : pair.1 with
      | left index => simp [pointer] at lost
      | right index =>
        rw [pointer] at there id
        have member := get?_right_mem there
        have apart : track.state ≠ .tracked := by
          rw [sameState]
          obtain lost | removed := valid.lost old member
          · simp [lost]
          · simp [removed]
        rw [if_neg apart]
        refine ⟨_, rfl, rfl, ⟨⟨rfl, rfl, object, listed, ?_⟩, old, member, sameId.symm⟩, id,
          fun _ _ => ⟨_, _, rfl⟩⟩
        simp only [STrack.reActivate, made]
        exact ⟨rfl, rfl, rfl⟩
  | lost pointer activated =>
    obtain ⟨index, _, rfl, found, active⟩ := mem_pointers.mp activated
    cases there.symm.trans found
    have member := get?_left_mem there
    have tracked := sameState.trans (valid.tracked old member)
    simp only [lostTurn]
    rw [if_pos (by simp [tracked])]
    exact ⟨_, rfl, rfl, ⟨rfl, old, member, active, sameId.symm, sameFrame.symm⟩, id, by simp⟩
  | confirmed pair unconfirmed detected =>
    obtain ⟨object, listed, made⟩ := mem_detect detected
    obtain ⟨index, _, same, _, _⟩ := mem_pointers.mp unconfirmed
    simp only [confirmTurn] at there id ⊢
    rw [same] at there id ⊢
    refine ⟨_, rfl, rfl, ⟨⟨rfl, rfl, object, listed, ?_⟩, old, get?_left_mem there, sameId.symm⟩, id, by simp⟩
    simp only [STrack.update, made]
    exact ⟨rfl, rfl, rfl⟩
  | removed pointer unconfirmed =>
    obtain ⟨index, _, rfl, found, inactive⟩ := mem_pointers.mp unconfirmed
    cases there.symm.trans found
    exact ⟨_, rfl, rfl, ⟨rfl, old, get?_left_mem there, inactive, sameId.symm⟩, id, by simp [removeTurn]⟩

end rounds

end Yolov5Rknn.BYTETracker
