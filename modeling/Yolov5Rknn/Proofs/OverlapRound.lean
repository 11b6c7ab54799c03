import Yolov5Rknn.Proofs.AssociationCost
import Yolov5Rknn.Proofs.GalleryRuns
import Yolov5Rknn.Proofs.GatingNaN
import Yolov5Rknn.Logic.Overlap
import Mathlib.Tactic.Linarith

/-! The IoU round in exact arithmetic. A track and a detection that overlap with
nothing else are matched if the track was predicted once since its last update; a
tentative track predicted more often is not matched with anything and is erased. -/

namespace Yolov5Rknn.DeepSort
open Program Assignment Positions

namespace Tracker

variable {F : Type} {tracker : Tracker F} {detections : List (Detection F)}

/-- `iou_track_candidates`. -/
def candidates (tracker : Tracker F) (matcha : TracherMatchd tracker.tracks.length detections.length) :
    List (Fin tracker.tracks.length) :=
  tracker.unconfirmedTracks ++
    matcha.unmatchedTracks.filter fun idx => decide ((tracker.tracks.get idx).timeSinceUpdate = 1)

variable {matcha : TracherMatchd tracker.tracks.length detections.length}

theorem candidates_nodup
    (partitioned : Partitions matcha tracker.confirmedTracks (List.finRange detections.length)) :
    (candidates tracker matcha).Nodup := by
  have all : (tracker.confirmedTracks ++ tracker.unconfirmedTracks).Nodup :=
    (confirmed_perm tracker).nodup_iff.mpr (List.nodup_finRange _)
  have confirmed := partitioned.tracks.nodup_iff.mpr (List.nodup_append.mp all).1
  refine List.nodup_append.mpr ⟨(List.nodup_append.mp all).2.1, (List.nodup_append.mp confirmed).2.1.filter _, ?_⟩
  intro idx unconfirmed other filtered same
  subst same
  have inside := partitioned.tracks.subset (List.mem_append_right _ (List.mem_of_mem_filter filtered))
  exact List.disjoint_of_nodup_append all inside unconfirmed

theorem same_position (ordered : (tracker.tracks.map Track.trackId).Pairwise (· < ·))
    {one two : Fin tracker.tracks.length}
    (same : (tracker.tracks.get one).trackId = (tracker.tracks.get two).trackId) : one = two := by
  have increasing := List.pairwise_iff_get.mp (List.pairwise_map.mp ordered)
  rcases lt_trichotomy one two with less | equal | more
  · exact absurd same (increasing one two less).ne
  · exact equal
  · exact absurd same.symm (increasing two one more).ne

theorem mem_unconfirmedTracks {idx : Fin tracker.tracks.length}
    (tentative : (tracker.tracks.get idx).state = .tentative) : idx ∈ tracker.unconfirmedTracks := by
  refine List.mem_filter.mpr ⟨List.mem_finRange idx, ?_⟩
  rw [Track.isConfirmed, tentative]
  rfl

variable [Arithmetic F] {calls : Calls F}

/-- A track and a detection overlap as much as the round asks. -/
def Overlaps (tracker : Tracker F) (track : Track F) (detection : Detection F) : Prop :=
  1 - tracker.maxIouDistance ≤ iou track.toTlwh detection.row.tlwh

/-- They overlap with each other and with nothing else. -/
structure Isolated (tracker : Tracker F) (detections : List (Detection F)) (idx : Fin tracker.tracks.length)
    (col : Fin detections.length) : Prop where
  overlaps : Overlaps tracker (tracker.tracks.get idx) (detections.get col)
  onlyDetection : ∀ other, Overlaps tracker (tracker.tracks.get idx) (detections.get other) → other = col
  onlyTrack : ∀ other, Overlaps tracker (tracker.tracks.get other) (detections.get col) → other = idx

theorem cascade_partitions {rounds : Nat} (returned : cascade calls detections tracker rounds = .ok matcha) :
    Partitions matcha tracker.confirmedTracks (List.finRange detections.length) :=
  LinearAssignment.matchingCascade_partitions ((List.nodup_finRange _).filter _) returned

/-- Without confirmed tracks the cascade leaves every detection. -/
theorem cascade_none (none : tracker.confirmedTracks = []) :
    Ends (cascade calls detections tracker) fun matcha => matcha.unmatchedDetections = List.finRange _ := by
  unfold cascade LinearAssignment.matchingCascade
  refine (Ends.foldlM (fun _ found => found = ([], List.finRange _)) (fun level rest found held => ?_) rfl).bind
    fun found held => .pure (by rw [held])
  subst held
  unfold LinearAssignment.cascadeLevel
  rw [none]
  dsimp only [List.filter_nil]
  rw [if_pos (.inr rfl)]
  exact .pure rfl

variable {res : TracherMatchd tracker.tracks.length detections.length}

/-- With two hits to confirm, any further one confirms. -/
theorem Sound.confirms {track : Track F} (sound : Sound tracker track) (inits : tracker.nInit = 2)
    (hits : 1 ≤ track.hits) (detection : Detection F) : (track.update calls detection).state = .confirmed := by
  have init := sound.nInit.trans inits
  rw [Track.update_state]
  split
  · rfl
  · next few =>
    cases state : track.state with
    | tentative => exact absurd ⟨state, by omega⟩ few
    | confirmed => rfl
    | deleted => exact absurd state sound.undeleted

/-- What is left is a newcomer or has the fate of a track. -/
theorem mem_erased (partitioned : Partitions res (List.finRange tracker.tracks.length) (List.finRange detections.length))
    {track : Track F} (member : track ∈ (erase (apply calls detections tracker res)).tracks) :
    track.state ≠ .deleted ∧
      (track ∈ newcomers tracker res ∨ ∃ idx : Fin tracker.tracks.length, Fate calls res idx track) := by
  obtain ⟨applied, undeleted⟩ := List.mem_filter.mp member
  refine ⟨by simpa [Track.isDeleted] using undeleted, ?_⟩
  rw [apply_eq] at applied
  obtain old | new := List.mem_append.mp applied
  · obtain ⟨position, inside, found⟩ := List.mem_iff_getElem.mp old
    rw [length_modifyAll] at inside
    obtain ⟨after, there, fate⟩ := changes_fate calls partitioned ⟨position, inside⟩
    have same : track = after := found.symm.trans (List.getElem?_eq_some_iff.mp there).2
    exact .inr ⟨⟨position, inside⟩, same ▸ fate⟩
  · exact .inl new

theorem mem_cleared (partitioned : Partitions res (List.finRange tracker.tracks.length) (List.finRange detections.length))
    {track : Track F} (member : track ∈ (clearFeatures (erase (apply calls detections tracker res))).tracks) :
    ∃ before, track = cleared before ∧ before.state ≠ .deleted ∧
      (before ∈ newcomers tracker res ∨ ∃ idx : Fin tracker.tracks.length, Fate calls res idx before) := by
  obtain ⟨before, listed, rfl⟩ := List.mem_map.mp member
  exact ⟨before, rfl, mem_erased partitioned listed⟩

theorem Fate.trackId {idx : Fin tracker.tracks.length} {after : Track F} (fate : Fate calls res idx after) :
    after.trackId = (tracker.tracks.get idx).trackId := by
  cases fate with
  | matched detection _ _ same => rw [same, Track.update_trackId]
  | missed _ _ same =>
    obtain ⟨state, changed, _⟩ := (tracker.tracks.get idx).markMissed_eq
    rw [same, changed]

/-- A tentative track that is not matched is erased, and its id is not given again. -/
theorem missed_gone (kept : Kept tracker)
    (partitioned : Partitions res (List.finRange tracker.tracks.length) (List.finRange detections.length))
    {idx : Fin tracker.tracks.length} (tentative : (tracker.tracks.get idx).state = .tentative)
    (missed : idx ∉ res.matched.map Prod.fst) :
    (tracker.tracks.get idx).trackId ∉
      (clearFeatures (erase (apply calls detections tracker res))).tracks.map Track.trackId := by
  intro listed
  obtain ⟨track, member, same⟩ := List.mem_map.mp listed
  obtain ⟨before, rfl, undeleted, new | ⟨other, fate⟩⟩ := mem_cleared partitioned member
  · rw [(cleared_fields before).1] at same
    obtain ⟨_, _, trackId, low, _, rfl⟩ := mem_startedAll new
    have below := (kept.sound _ (List.get_mem tracker.tracks idx)).below
    change trackId = _ at same
    omega
  · rw [(cleared_fields before).1, fate.trackId] at same
    obtain rfl := same_position kept.ordered same
    cases fate with
    | matched detection found _ _ => exact missed (List.mem_map_of_mem found)
    | missed _ _ same =>
      refine undeleted ?_
      rw [same, Track.markMissed, if_pos tentative]

/-- A matched track is in the table afterwards, updated with its detection. -/
theorem matched_updated (kept : Kept tracker)
    (partitioned : Partitions res (List.finRange tracker.tracks.length) (List.finRange detections.length))
    {idx : Fin tracker.tracks.length} {col : Fin detections.length} (matched : (idx, col) ∈ res.matched) :
    cleared ((tracker.tracks.get idx).update calls (detections.get col)) ∈
      (clearFeatures (erase (apply calls detections tracker res))).tracks := by
  obtain ⟨after, there, fate⟩ := changes_fate calls partitioned idx
  have updated : after = (tracker.tracks.get idx).update calls (detections.get col) := by
    cases fate with
    | matched other found _ same =>
      have rows := (List.nodup_append.mp (partitioned.tracks.nodup_iff.mpr (List.nodup_finRange _))).1
      have equal := List.inj_on_of_nodup_map rows found matched rfl
      cases equal
      exact same
    | missed _ only _ => exact absurd (List.mem_map_of_mem matched) only
  rw [← updated]
  refine List.mem_map.mpr ⟨after, List.mem_filter.mpr ⟨?_, ?_⟩, rfl⟩
  · rw [apply_eq]
    exact List.mem_append_left _ (List.mem_of_getElem? there)
  · have undeleted := (kept.sound _ (List.get_mem tracker.tracks idx)).undeleted
    rw [Bool.not_eq_true', updated, Track.isDeleted, decide_eq_false_iff_not, Track.update_state]
    split
    · decide
    · exact undeleted

end Tracker

section exact

attribute [local instance] Arithmetic.ofField

variable {K : Type} [Field K] [LinearOrder K]

/-! ### The overlap of two boxes -/

/-- One side of the intersection, not below zero. -/
def overlapSide (start stop first last : K) : K :=
  let side := (if last < stop then last else stop) - if start < first then first else start
  if side < 0 then 0 else side

theorem iou_sides (bbox candidate : Fin 4 → K) :
    iou bbox candidate =
      overlapSide (bbox 0) (bbox 0 + bbox 2) (candidate 0) (candidate 2 + candidate 0) *
          overlapSide (bbox 1) (bbox 1 + bbox 3) (candidate 1) (candidate 3 + candidate 1) /
        (bbox 2 * bbox 3 + candidate 2 * candidate 3 -
          overlapSide (bbox 0) (bbox 0 + bbox 2) (candidate 0) (candidate 2 + candidate 0) *
            overlapSide (bbox 1) (bbox 1 + bbox 3) (candidate 1) (candidate 3 + candidate 1)) := rfl

theorem overlapSide_self {start extent : K} (positive : 0 < extent) :
    overlapSide start (start + extent) start (extent + start) = extent := by
  rw [add_comm extent]
  simp only [overlapSide, lt_self_iff_false, if_false, add_sub_cancel_left, if_neg (not_lt_of_gt positive)]

variable [IsStrictOrderedRing K]

theorem overlapSide_bounds (start stop first last : K) :
    0 ≤ overlapSide start stop first last ∧
      (overlapSide start stop first last = 0 ∨
        overlapSide start stop first last ≤ stop - start ∧ overlapSide start stop first last ≤ last - first) := by
  have right : (if last < stop then last else stop) ≤ stop ∧ (if last < stop then last else stop) ≤ last := by
    split
    · next less => exact ⟨less.le, le_rfl⟩
    · next less => exact ⟨le_rfl, not_lt.mp less⟩
  have left : start ≤ (if start < first then first else start) ∧ first ≤ if start < first then first else start := by
    split
    · next less => exact ⟨less.le, le_rfl⟩
    · next less => exact ⟨le_rfl, not_lt.mp less⟩
  unfold overlapSide
  generalize (if last < stop then last else stop) = far at right ⊢
  generalize (if start < first then first else start) = near at left ⊢
  dsimp only
  split
  · exact ⟨le_rfl, .inl rfl⟩
  · next some => exact ⟨not_lt.mp some, .inr ⟨sub_le_sub right.1 left.1, sub_le_sub right.2 left.2⟩⟩

/-- Whatever the boxes are, the overlap is a proportion. -/
theorem iou_bounds (bbox candidate : Fin 4 → K) : 0 ≤ iou bbox candidate ∧ iou bbox candidate ≤ 1 := by
  rw [iou_sides]
  obtain ⟨wide, across⟩ := overlapSide_bounds (bbox 0) (bbox 0 + bbox 2) (candidate 0) (candidate 2 + candidate 0)
  obtain ⟨high, down⟩ := overlapSide_bounds (bbox 1) (bbox 1 + bbox 3) (candidate 1) (candidate 3 + candidate 1)
  generalize overlapSide (bbox 0) _ _ _ = w at wide across ⊢
  generalize overlapSide (bbox 1) _ _ _ = h at high down ⊢
  rw [add_sub_cancel_left, add_sub_cancel_right] at across down
  by_cases some : 0 < w ∧ 0 < h
  · exact Overlap.proportion_bounds
      ⟨w, h, (bbox 2, bbox 3), (candidate 2, candidate 3), some.1, some.2, across.resolve_left some.1.ne',
        down.resolve_left some.2.ne'⟩
  · have nothing : w * h = 0 := by
      apply mul_eq_zero.mpr
      exact (not_and_or.mp some).imp (fun none => wide.antisymm' (not_lt.mp none)) fun none =>
        high.antisymm' (not_lt.mp none)
    rw [nothing, zero_div]
    exact ⟨le_rfl, zero_le_one⟩

theorem iou_self {bbox : Fin 4 → K} (wide : 0 < bbox 2) (high : 0 < bbox 3) : iou bbox bbox = 1 := by
  have area : bbox 2 * bbox 3 ≠ 0 := (mul_pos wide high).ne'
  rw [iou_sides, overlapSide_self wide, overlapSide_self high, add_sub_cancel_right]
  exact div_self area

namespace Tracker

theorem overlapCost_nonneg (track : Track K) (detection : Detection K) : 0 ≤ overlapCost track detection := by
  unfold overlapCost
  split
  · exact Nat.cast_nonneg 100000
  · exact sub_nonneg.mpr (iou_bounds _ _).2

variable {calls : Calls K} {tracker : Tracker K} {detections : List (Detection K)}
variable {matcha : TracherMatchd tracker.tracks.length detections.length}

theorem overlap_bounds (overlap : tracker.maxIouDistance = 7 / 10) :
    0 ≤ tracker.maxIouDistance ∧ tracker.maxIouDistance < 99999 := by
  rw [overlap]
  norm_num

theorem below_infty : (99999 : K) < inftyCost := by
  norm_num [inftyCost]

/-- The costs of the round. -/
def overlapCosts (tracker : Tracker K) (detections : List (Detection K))
    (matcha : TracherMatchd tracker.tracks.length detections.length) :
    Matrix (Fin (candidates tracker matcha).length) (Fin matcha.unmatchedDetections.length) K :=
  .of fun row col => overlapCost (tracker.tracks.get ((candidates tracker matcha).get row))
    (detections.get (matcha.unmatchedDetections.get col))

theorem iouRound_ends (finite : calls.infinite = fun _ => false)
    (bounds : 0 ≤ tracker.maxIouDistance ∧ tracker.maxIouDistance < 99999)
    (matcha : TracherMatchd tracker.tracks.length detections.length) :
    Ends (iouRound calls detections tracker matcha)
      (LinearAssignment.Chosen tracker.maxIouDistance (overlapCosts tracker detections matcha)) := by
  have computed : Ends (iouCost detections tracker (candidates tracker matcha) matcha.unmatchedDetections)
      fun result => result = overlapCosts tracker detections matcha := .pure rfl
  have ended := LinearAssignment.minCostMatching_ends bounds computed fun _ _ => overlapCost_nonneg _ _
  rw [← finite] at ended
  exact ended.imp fun _ held => held.1

/-- Every other pair of the row or of the column costs what is clipped, so that an
assignment without the pair would not be minimal. -/
theorem chosen_matches (limit : tracker.maxIouDistance < 99999)
    (partitioned : Partitions matcha tracker.confirmedTracks (List.finRange detections.length))
    {idx : Fin tracker.tracks.length} {col : Fin detections.length} (isolated : Isolated tracker detections idx col)
    (recent : (tracker.tracks.get idx).timeSinceUpdate = 1) (candidate : idx ∈ candidates tracker matcha)
    (left : col ∈ matcha.unmatchedDetections) {matchb : TracherMatchd tracker.tracks.length detections.length}
    (chosen : LinearAssignment.Chosen tracker.maxIouDistance (overlapCosts tracker detections matcha) matchb) :
    (idx, col) ∈ matchb.matched := by
  obtain ⟨row, rowed⟩ := List.mem_iff_get.mp candidate
  obtain ⟨place, placed⟩ := List.mem_iff_get.mp left
  have rows := candidates_nodup partitioned
  have cols := (List.nodup_append.mp (partitioned.detections.nodup_iff.mpr (List.nodup_finRange _))).2.1
  obtain ⟨pairs, least, same⟩ := chosen
  have step : (0 : K) < 1 / 100000 := by norm_num
  have near : overlapCosts tracker detections matcha row place ≤ tracker.maxIouDistance := by
    have overlaps := isolated.overlaps
    simp only [overlapCosts, Matrix.of_apply, rowed, placed, overlapCost, recent, lt_self_iff_false, if_false]
    unfold Overlaps at overlaps
    linarith
  have far {k : Fin (candidates tracker matcha).length} {l : Fin matcha.unmatchedDetections.length}
      (apart : ¬Overlaps tracker (tracker.tracks.get ((candidates tracker matcha).get k))
        (detections.get (matcha.unmatchedDetections.get l))) :
      LinearAssignment.clip tracker.maxIouDistance (overlapCosts tracker detections matcha) k l =
        tracker.maxIouDistance + 1 / 100000 := by
    refine if_pos ?_
    change tracker.maxIouDistance < overlapCost _ _
    unfold overlapCost
    split
    · exact limit.trans below_infty
    · unfold Overlaps at apart
      linarith
  have cheap : LinearAssignment.clip tracker.maxIouDistance (overlapCosts tracker detections matcha) row place <
      tracker.maxIouDistance + 1 / 100000 :=
    lt_of_le_of_lt ((if_neg (not_lt.mpr near)).le.trans near) (lt_add_of_pos_right _ step)
  have member : (row, place) ∈ pairs := by
    refine least.isolated cheap (fun l other => ?_) (fun k other => ?_) fun k l => ?_
    · refine far fun overlaps => other ?_
      rw [rowed] at overlaps
      exact (List.nodup_iff_injective_get.mp cols) ((isolated.onlyDetection _ overlaps).trans placed.symm)
    · refine far fun overlaps => other ?_
      rw [placed] at overlaps
      exact (List.nodup_iff_injective_get.mp rows) ((isolated.onlyTrack _ overlaps).trans rowed.symm)
    · rw [LinearAssignment.clip, Matrix.of_apply]
      split
      · exact le_rfl
      · next below => exact (not_lt.mp below).trans (le_add_of_nonneg_right step.le)
  rw [same]
  refine List.mem_map.mpr ⟨(row, place), List.mem_filter.mpr ⟨member, decide_eq_true near⟩, ?_⟩
  exact Prod.ext rowed placed

/-- A pair that the cascade matches or leaves to the IoU round is matched if it is
isolated. -/
def Settles (tracker : Tracker K) (detections : List (Detection K))
    (matcha res : TracherMatchd tracker.tracks.length detections.length) : Prop :=
  ∀ idx col, Isolated tracker detections idx col → (tracker.tracks.get idx).timeSinceUpdate = 1 →
    (idx, col) ∈ matcha.matched ∨ idx ∈ candidates tracker matcha ∧ col ∈ matcha.unmatchedDetections →
      (idx, col) ∈ res.matched

theorem matchTracks_ends (finite : calls.infinite = fun _ => false)
    (bounds : 0 ≤ tracker.maxIouDistance ∧ tracker.maxIouDistance < 99999)
    {post : TracherMatchd tracker.tracks.length detections.length → Prop}
    (cascaded : Ends (cascade calls detections tracker) post) :
    Ends (matchTracks calls detections tracker) fun res => ∃ matcha, post matcha ∧
      Partitions matcha tracker.confirmedTracks (List.finRange detections.length) ∧
      Settles tracker detections matcha res := by
  refine (cascaded.resulting fun _ _ => cascade_partitions).bind fun matcha ⟨holds, partitioned⟩ => ?_
  refine (iouRound_ends finite bounds matcha).bind fun matchb chosen => ?_
  refine .pure ⟨matcha, holds, partitioned, fun idx col isolated recent found => ?_⟩
  obtain matched | ⟨candidate, left⟩ := found
  · exact List.mem_append_left _ matched
  · exact List.mem_append_right _ (chosen_matches bounds.2 partitioned isolated recent candidate left chosen)

variable {res : TracherMatchd tracker.tracks.length detections.length} {rounds : Nat}

/-- What was predicted more than once costs too much for the IoU round. -/
theorem stale_unmatched (limit : tracker.maxIouDistance < 99999)
    (returned : matchTracks calls detections tracker rounds = .ok res) {idx : Fin tracker.tracks.length}
    (tentative : (tracker.tracks.get idx).state = .tentative) (stale : 1 < (tracker.tracks.get idx).timeSinceUpdate) :
    idx ∉ res.matched.map Prod.fst := by
  obtain ⟨matcha, matchb, cascaded, matched, joined⟩ := matchTracks_rounds returned
  intro member
  obtain ⟨pair, listed, rfl⟩ := List.mem_map.mp member
  rw [joined] at listed
  obtain first | second := List.mem_append.mp listed
  · have inside := (LinearAssignment.matchingCascade_admitted gatedMatric_pointwise cascaded pair first).listed
    have confirmed := (List.mem_filter.mp inside).2
    cases tentative.symm.trans (of_decide_eq_true confirmed)
  · have accepted := (LinearAssignment.minCostMatching_accepted iouCost_pointwise matched pair second).2.2
    have above : tracker.maxIouDistance < inftyCost := limit.trans below_infty
    rw [overlapCost, if_pos stale, LinearAssignment.Accepted, if_pos above] at accepted
    exact accepted (lt_add_of_pos_right _ (by norm_num))

/-- What an update does with an isolated tentative track depends on how often the track
was predicted. -/
theorem update_isolated (finite : calls.infinite = fun _ => false) (kept : Kept tracker)
    (galleries : Galleries tracker) (room : tracker.nInit ≤ tracker.metric.budget)
    (bounds : 0 ≤ tracker.maxIouDistance ∧ tracker.maxIouDistance < 99999)
    {idx : Fin tracker.tracks.length} {col : Fin detections.length} (isolated : Isolated tracker detections idx col)
    (tentative : (tracker.tracks.get idx).state = .tentative)
    (cascaded : Ends (cascade calls detections tracker) fun matcha => col ∈ matcha.unmatchedDetections) :
    Ends (update calls detections tracker) fun after =>
      ((tracker.tracks.get idx).timeSinceUpdate = 1 →
        cleared ((tracker.tracks.get idx).update calls (detections.get col)) ∈ after.tracks) ∧
      (1 < (tracker.tracks.get idx).timeSinceUpdate →
        (tracker.tracks.get idx).trackId ∉ after.tracks.map Track.trackId) := by
  have matched := (matchTracks_ends finite bounds cascaded).resulting fun _ _ returned stale =>
    stale_unmatched bounds.2 returned tentative stale
  refine (update_ends kept galleries room matched).imp ?_
  rintro _ ⟨res, metric, ⟨⟨matcha, left, _, settles⟩, unmatched⟩, partitioned, _, rfl⟩
  refine ⟨fun recent => matched_updated kept partitioned ?_, fun stale => ?_⟩
  · exact settles idx col isolated recent
      (.inr ⟨List.mem_append_left _ (mem_unconfirmedTracks tentative), left⟩)
  · exact missed_gone kept partitioned tentative (unmatched stale)

end Tracker

end exact
end Yolov5Rknn.DeepSort
