import Yolov5Rknn.Proofs.OverlapRound
import Yolov5Rknn.Proofs.KalmanCovariance
import Mathlib.Tactic.Ring

/-! One object that never moves, in exact arithmetic. The filter leaves its mean where
it is, every row its track keeps is the same feature, and each detection of it is
matched with the track, by the cascade or by the IoU round. -/

namespace Yolov5Rknn.ByteKalman

section exact

attribute [local instance] Arithmetic.ofField

variable {K : Type} [Field K] [LinearOrder K]

/-- A box that never moved is predicted where it is. -/
theorem predict_still (measurement : DetectBox K) (covariance : KalCova K) :
    (predict (initiate measurement).1 covariance).1 = (initiate measurement).1 := by
  funext i
  change (List.ofFn fun l => motionMat i l * (initiate measurement).1 l).sum = _
  rw [List.sum_ofFn]
  fin_cases i <;> simp [Fin.sum_univ_eight, motionMat, initiate]

theorem project_still (measurement : DetectBox K) (covariance : KalCova K) :
    (project (initiate measurement).1 covariance).1 = measurement := by
  funext i
  change (List.ofFn fun l => updateMat i l * (initiate measurement).1 l).sum = _
  rw [List.sum_ofFn]
  fin_cases i <;> simp [Fin.sum_univ_eight, updateMat, initiate]

/-- A measurement of what was predicted changes nothing of the mean. -/
theorem update_still (lltSolve : KalHCova K → Matrix (Fin 4) (Fin 8) K → Matrix (Fin 4) (Fin 8) K)
    (measurement : DetectBox K) (covariance : KalCova K) :
    (update lltSolve (initiate measurement).1 covariance measurement).1 = (initiate measurement).1 := by
  funext i
  have none (l : Fin 4) : measurement l - (project (initiate measurement).1 covariance).1 l = 0 := by
    rw [project_still, sub_self]
  simp only [update, none, zero_mul, List.sum_ofFn, Finset.sum_const_zero, add_zero]

end exact

end Yolov5Rknn.ByteKalman

namespace Yolov5Rknn.DeepSort
open Program NearNeighborDisMetric Positions

section uniform

variable {F : Type} {metric after : NearNeighborDisMetric F} {feature : Feature F} {rounds : Nat}

/-- A gallery takes one row more, or moves its window. -/
theorem slide_one {budget : Nat} {unwritten row : Feature F} {sample : List (Feature F)}
    (bounded : sample.length ≤ budget) (some : 2 ≤ budget) {result : List (Feature F)}
    (slid : NearNeighborDisMetric.slide budget unwritten sample [row] rounds = .ok result) :
    ∀ kept ∈ result, kept ∈ sample ∨ kept = row := by
  by_cases fits : sample.length + 1 ≤ budget
  · rw [NearNeighborDisMetric.slide_grow fits] at slid
    cases slid
    simp
  · rw [NearNeighborDisMetric.slide_move (by simp; omega) (by simp; omega) (by omega) bounded] at slid
    cases slid
    intro kept member
    obtain old | new := List.mem_append.mp member
    · exact .inl (List.mem_of_mem_drop (List.mem_of_mem_take old))
    · exact .inr (List.mem_singleton.mp new)

/-- Rows that are all the same stay so in every gallery. -/
theorem partialFit_uniform {budget : Nat} {unwritten : Feature F} {tidFeats : List (Int × List (Feature F))}
    (sized : metric.budget = budget) (some : 2 ≤ budget) (distinct : (tidFeats.map Prod.fst).Nodup)
    (returned : partialFit unwritten tidFeats (tidFeats.map Prod.fst) metric rounds = .ok after)
    (old : ∀ target sample, metric.samples target = .some sample →
      sample.length ≤ budget ∧ ∀ row ∈ sample, row = feature)
    (new : ∀ data ∈ tidFeats, (∀ row ∈ data.2, row = feature) ∧
      (metric.samples data.1 ≠ none → data.2.length = 1)) :
    ∀ target sample, after.samples target = .some sample → ∀ row ∈ sample, row = feature := by
  obtain ⟨_, stored, gone⟩ := partialFit_result distinct returned
  intro target sample known
  by_cases active : target ∈ tidFeats.map Prod.fst
  · obtain ⟨data, member, rfl⟩ := List.mem_map.mp active
    obtain ⟨rows, fitting, kept⟩ := stored data member
    cases kept.symm.trans known
    obtain ⟨same, once⟩ := new data member
    unfold fitted at fitting
    cases before : metric.samples data.1 with
    | none =>
      rw [before] at fitting
      cases pure_result.mp fitting
      exact same
    | some gallery =>
      rw [before] at fitting
      obtain ⟨bounded, uniform⟩ := old data.1 gallery before
      obtain ⟨row, single⟩ := List.length_eq_one_iff.mp (once (by simp [before]))
      rw [single] at fitting same
      rw [sized] at fitting
      intro kept member
      obtain inside | last := slide_one bounded some fitting kept member
      · exact uniform kept inside
      · exact last.trans (same row List.mem_cons_self)
  · rw [gone target active] at known
    cases known

end uniform

theorem get_singleton {α : Type} {item : α} (position : Fin [item].length) : [item].get position = item :=
  List.mem_singleton.mp (List.get_mem [item] position)

theorem get_only {α : Type} {items : List α} {item : α} (only : items = [item]) (position : Fin items.length) :
    items.get position = item := by
  subst only
  exact get_singleton position

theorem position_only {α : Type} {items : List α} {item : α} (only : items = [item])
    (one two : Fin items.length) : one = two := by
  subst only
  exact Subsingleton.elim (α := Fin 1) one two

theorem Tracker.cleared_mean {F : Type} (track : Track F) : (cleared track).mean = track.mean := by
  unfold cleared
  split <;> rfl

section exact

attribute [local instance] Arithmetic.ofField

variable {K : Type} [Field K] [LinearOrder K]

/-- The measurement depends on the place alone. -/
theorem toXyah_place {row : DetectionRow K} {place : ByteKalman.DetectBox K} (same : row.tlwh = place) (confidence : K)
    (feature : Feature K) : row.toXyah = DetectionRow.toXyah ⟨place, confidence, feature⟩ := by
  unfold DetectionRow.toXyah
  rw [same]

theorem nncosineDistance_nonneg {sqrt : K → K} {sample : List (Feature K)} {feature : Feature K}
    (far : ∀ x ∈ sample, 0 ≤ cosineDistance sqrt x feature) : 0 ≤ nncosineDistance sqrt sample feature := by
  have least (rest : List K) (first : K) (start : 0 ≤ first) (all : ∀ value ∈ rest, 0 ≤ value) :
      0 ≤ rest.foldl (fun least value => if value < least then value else least) first := by
    induction rest generalizing first with
    | nil => exact start
    | cons value rest ih =>
      refine ih _ ?_ fun other member => all other (List.mem_cons_of_mem _ member)
      change 0 ≤ if value < first then value else first
      split
      · exact all value List.mem_cons_self
      · exact start
  unfold nncosineDistance
  cases sample with
  | nil => exact le_rfl
  | cons first rest =>
    refine least _ _ (far first List.mem_cons_self) fun value member => ?_
    obtain ⟨x, listed, rfl⟩ := List.mem_map.mp member
    exact far x (List.mem_cons_of_mem _ listed)

namespace Tracker

variable {calls : Calls K} {tracker : Tracker K} {place : ByteKalman.DetectBox K} {feature : Feature K}
variable {track : Track K} {detection : Detection K}

/-- The tracker holds one track, which never moved from the place of its detections, and
every row it keeps is their feature. -/
structure Lone (place : ByteKalman.DetectBox K) (feature : Feature K) (tracker : Tracker K) (track : Track K) :
    Prop where
  tracks : tracker.tracks = [track]
  trackId : track.trackId = 1
  still : track.mean = (ByteKalman.initiate (DetectionRow.toXyah ⟨place, 0, feature⟩)).1
  features : ∀ row ∈ track.features, row = feature
  galleries : ∀ target sample, tracker.metric.samples target = some sample → ∀ row ∈ sample, row = feature
  mating : tracker.metric.matingThreshold = 1 / 2

theorem Lone.predict (lone : Lone place feature tracker track) : Lone place feature tracker.predict track.predict where
  tracks := by rw [Tracker.predict, lone.tracks]; rfl
  trackId := lone.trackId
  still := by
    change (ByteKalman.predict track.mean track.covariance).1 = _
    rw [lone.still, ByteKalman.predict_still]
  features := lone.features
  galleries := lone.galleries
  mating := lone.mating

theorem Lone.get (lone : Lone place feature tracker track) (idx : Fin tracker.tracks.length) :
    tracker.tracks.get idx = track :=
  get_only lone.tracks idx

theorem Lone.same (lone : Lone place feature tracker track) (one two : Fin tracker.tracks.length) : one = two :=
  position_only lone.tracks one two

theorem Lone.gallery (lone : Lone place feature tracker track) {target : Int} (row : Feature K)
    (member : row ∈ tracker.metric.gallery target) : row = feature := by
  unfold NearNeighborDisMetric.gallery at member
  cases known : tracker.metric.samples target with
  | none =>
    rw [known] at member
    cases member
  | some sample =>
    rw [known] at member
    exact lone.galleries target sample known row member

/-- What is left is the one track, updated with the one detection. -/
theorem Lone.erased (kept : Kept tracker) (lone : Lone place feature tracker track)
    {res : TracherMatchd tracker.tracks.length [detection].length}
    (partitioned : Partitions res (List.finRange tracker.tracks.length) (List.finRange [detection].length))
    {idx : Fin tracker.tracks.length} {col : Fin [detection].length} (matched : (idx, col) ∈ res.matched) :
    (erase (apply calls [detection] tracker res)).tracks = [track.update calls detection] := by
  have none : res.unmatchedDetections = [] := by
    have counted := partitioned.detections.length_eq
    have some := List.length_pos_of_mem matched
    rw [List.length_append, List.length_map, List.length_finRange] at counted
    change res.matched.length + res.unmatchedDetections.length = 1 at counted
    exact List.eq_nil_of_length_eq_zero (by omega)
  have updated {before : Track K} (member : before ∈ (erase (apply calls [detection] tracker res)).tracks) :
      before = track.update calls detection := by
    obtain ⟨_, new | ⟨other, fate⟩⟩ := mem_erased partitioned member
    · rw [newcomers, none] at new
      cases new
    · cases fate with
      | matched found _ _ after => rw [after, lone.get, get_singleton]
      | missed _ unmatched _ =>
        exact absurd (List.mem_map_of_mem (f := Prod.fst) (lone.same idx other ▸ matched)) unmatched
  have there : cleared ((tracker.tracks.get idx).update calls ([detection].get col)) ∈
      (clearFeatures (erase (apply calls [detection] tracker res))).tracks := matched_updated kept partitioned matched
  obtain ⟨before, member, _⟩ := List.mem_map.mp there
  have survivors : Survivors calls tracker (erase (apply calls [detection] tracker res)).tracks
      (apply calls [detection] tracker res).nextIdx := erase_survivors kept partitioned
  have ordered := survivors.ordered
  generalize (erase (apply calls [detection] tracker res)).tracks = tracks at updated member ordered ⊢
  cases tracks with
  | nil => cases member
  | cons first rest =>
    cases rest with
    | nil => rw [updated List.mem_cons_self]
    | cons second rest =>
      have less := (List.pairwise_cons.mp ordered).1 _ List.mem_cons_self
      rw [updated List.mem_cons_self, updated (List.mem_cons_of_mem _ List.mem_cons_self)] at less
      exact absurd less (lt_irrefl _)

end Tracker

variable [IsStrictOrderedRing K]

theorem toTlwh_still {track : Track K} {row : DetectionRow K} (high : row.tlwh 3 ≠ 0)
    (still : track.mean = (ByteKalman.initiate row.toXyah).1) : track.toTlwh = row.tlwh := by
  have width : row.tlwh 2 / row.tlwh 3 * row.tlwh 3 = row.tlwh 2 := div_mul_cancel₀ _ high
  funext i
  unfold Track.toTlwh
  rw [still]
  fin_cases i
  · change row.tlwh 0 + row.tlwh 2 * (1 / 2) - row.tlwh 2 / row.tlwh 3 * row.tlwh 3 / 2 = row.tlwh 0
    rw [width]
    ring
  · change row.tlwh 1 + row.tlwh 3 * (1 / 2) - row.tlwh 3 / 2 = row.tlwh 1
    ring
  · exact width
  · rfl

/-- Nothing is farther from itself than one. -/
theorem cosineDistance_self {sqrt : K → K} {feature : Feature K}
    (root : sqrt (dot feature feature) * sqrt (dot feature feature) = dot feature feature) :
    0 ≤ cosineDistance sqrt feature feature := by
  have scaled : dot (normalize sqrt feature) (normalize sqrt feature) = dot feature feature / dot feature feature :=
    calc
      _ = ∑ l, feature l / sqrt (dot feature feature) * (feature l / sqrt (dot feature feature)) := List.sum_ofFn
      _ = (∑ l, feature l * feature l) / (sqrt (dot feature feature) * sqrt (dot feature feature)) := by
        rw [Finset.sum_div]
        exact Finset.sum_congr rfl fun l _ => div_mul_div_comm ..
      _ = dot feature feature / dot feature feature := by
        rw [root]
        exact congrArg (· / dot feature feature) List.sum_ofFn.symm
  rw [cosineDistance, scaled]
  exact sub_nonneg.mpr (div_self_le_one _)

namespace Tracker

variable {calls : Calls K} {tracker : Tracker K} {detections : List (Detection K)}

/-- In exact arithmetic the cascade ends if no cost is negative. -/
theorem cascade_ends (finite : calls.infinite = fun _ => false)
    (bounds : 0 ≤ tracker.metric.matingThreshold ∧ tracker.metric.matingThreshold < 99999)
    (held : ∀ idx ∈ tracker.confirmedTracks, tracker.metric.gallery (tracker.tracks.get idx).trackId ≠ [])
    (nonneg : ∀ idx col, 0 ≤ gatedCost calls tracker (tracker.tracks.get idx) (detections.get col)) :
    Ends (cascade calls detections tracker) fun _ => True := by
  unfold cascade LinearAssignment.matchingCascade
  refine (Ends.foldlM (fun _ _ => True) (fun level rest found _ => ?_) trivial).bind fun _ _ => .pure trivial
  unfold LinearAssignment.cascadeLevel
  dsimp only
  split
  · exact .pure trivial
  · generalize chosen : (tracker.confirmedTracks.filter fun k =>
      decide ((tracker.tracks.get k).timeSinceUpdate = 1 + level)) = trackIndices
    have inside : ∀ idx ∈ trackIndices, tracker.metric.gallery (tracker.tracks.get idx).trackId ≠ [] := by
      intro idx member
      rw [← chosen] at member
      exact held idx (List.mem_of_mem_filter member)
    have computed : Ends (gatedMatric calls detections tracker trackIndices found.2) fun result =>
        result = .of fun row col => gatedCost calls tracker (tracker.tracks.get (trackIndices.get row))
          (detections.get (found.2.get col)) := by
      have full : ¬((List.finRange trackIndices.length).any fun row =>
          (tracker.metric.gallery (tracker.tracks.get (trackIndices.get row)).trackId).isEmpty) = true := by
        rw [List.any_eq_true]
        rintro ⟨row, _, none⟩
        exact inside _ (List.get_mem trackIndices row) (List.isEmpty_iff.mp none)
      unfold gatedMatric distance
      rw [if_neg full]
      exact .pure rfl
    have ended := LinearAssignment.minCostMatching_ends bounds computed fun _ _ => nonneg _ _
    rw [← finite] at ended
    exact ended.bind fun _ _ => .pure trivial

variable {place : ByteKalman.DetectBox K} {feature : Feature K} {track : Track K} {detection : Detection K}

theorem Lone.isolated (wide : 0 < place 2) (high : 0 < place 3) (overlap : tracker.maxIouDistance = 7 / 10)
    (lone : Lone place feature tracker track) (same : detection.row.tlwh = place) (idx : Fin tracker.tracks.length)
    (col : Fin [detection].length) : Isolated tracker [detection] idx col where
  overlaps := by
    have here : track.toTlwh = (⟨place, 0, feature⟩ : DetectionRow K).tlwh := toTlwh_still high.ne' lone.still
    rw [Overlaps, lone.get, get_singleton, same, here, iou_self wide high, overlap]
    norm_num
  onlyDetection _ _ := Subsingleton.elim (α := Fin 1) _ _
  onlyTrack _ _ := lone.same _ _

/-- A track and a detection that are alone are matched by the cascade or left by it. -/
theorem Lone.offered (finite : calls.infinite = fun _ => false)
    (root : calls.sqrt (dot feature feature) * calls.sqrt (dot feature feature) = dot feature feature)
    (galleries : Galleries tracker) (lone : Lone place feature tracker track)
    (featured : detection.row.feature = feature) (recent : track.timeSinceUpdate = 1)
    (idx : Fin tracker.tracks.length) (col : Fin [detection].length) :
    Ends (cascade calls [detection] tracker) fun matcha => (idx, col) ∈ matcha.matched ∨
      idx ∈ candidates tracker matcha ∧ col ∈ matcha.unmatchedDetections := by
  by_cases confirmed : track.isConfirmed = true
  · have bounds : 0 ≤ tracker.metric.matingThreshold ∧ tracker.metric.matingThreshold < 99999 := by
      rw [lone.mating]
      norm_num
    have ended : Ends (cascade calls [detection] tracker) fun _ => True := by
      refine cascade_ends finite bounds (galleries_held galleries) fun idx col => ?_
      unfold gatedCost
      split
      · exact Nat.cast_nonneg 100000
      · rw [appearance, get_singleton, featured]
        refine nncosineDistance_nonneg fun row member => ?_
        rw [lone.gallery row member]
        exact cosineDistance_self root
    refine (ended.resulting fun _ _ => cascade_partitions).imp fun matcha ⟨_, partitioned⟩ => ?_
    have row : idx ∈ tracker.confirmedTracks :=
      List.mem_filter.mpr ⟨List.mem_finRange idx, by rw [lone.get]; exact confirmed⟩
    obtain matched | missed := List.mem_append.mp (partitioned.tracks.mem_iff.mpr row)
    · obtain ⟨⟨other, found⟩, member, rfl⟩ := List.mem_map.mp matched
      obtain rfl : found = col := Subsingleton.elim (α := Fin 1) _ _
      exact .inl member
    · obtain taken | left := List.mem_append.mp (partitioned.detections.mem_iff.mpr (List.mem_finRange col))
      · obtain ⟨⟨other, found⟩, member, rfl⟩ := List.mem_map.mp taken
        exact .inl (lone.same other idx ▸ member)
      · refine .inr ⟨List.mem_append_right _ (List.mem_filter.mpr ⟨missed, ?_⟩), left⟩
        rw [lone.get, recent]
        rfl
  · have unconfirmed (idx : Fin tracker.tracks.length) : (tracker.tracks.get idx).isConfirmed = false := by
      rw [lone.get]
      exact Bool.eq_false_iff.mpr confirmed
    have none : tracker.confirmedTracks = [] := List.filter_eq_nil_iff.mpr fun idx _ found => by
      rw [unconfirmed] at found
      cases found
    refine (cascade_none none).imp fun matcha left => .inr ⟨List.mem_append_left _ ?_, ?_⟩
    · exact List.mem_filter.mpr ⟨List.mem_finRange idx, by rw [unconfirmed]; rfl⟩
    · rw [left]
      exact List.mem_finRange col

/-- Another detection at the same place updates the track and confirms it. -/
theorem Lone.confirms (finite : calls.infinite = fun _ => false)
    (root : calls.sqrt (dot feature feature) * calls.sqrt (dot feature feature) = dot feature feature)
    (wide : 0 < place 2) (high : 0 < place 3) (stocked : Stocked 2 100 tracker)
    (overlap : tracker.maxIouDistance = 7 / 10) (lone : Lone place feature tracker track)
    (recent : track.timeSinceUpdate = 1) (hits : 1 ≤ track.hits) (same : detection.row.tlwh = place)
    (featured : detection.row.feature = feature) :
    Ends (update calls [detection] tracker) fun after => ∃ next, Lone place feature after next ∧
      next.state = .confirmed ∧ next.timeSinceUpdate = 0 := by
  have idx : Fin tracker.tracks.length := ⟨0, by rw [lone.tracks]; exact Nat.one_pos⟩
  let col : Fin [detection].length := ⟨0, Nat.one_pos⟩
  have matched := matchTracks_ends finite (overlap_bounds overlap)
    (lone.offered finite root stocked.galleries featured recent idx col)
  refine ((update_ends stocked.kept stocked.galleries stocked.room matched).resulting fun _ _ returned =>
    (update_table stocked.kept returned).1).imp ?_
  rintro _ ⟨⟨res, metric, ⟨matcha, found, _, settles⟩, partitioned, ⟨rounds, fitted⟩, rfl⟩, kept⟩
  have pair : (idx, col) ∈ res.matched :=
    settles idx col (lone.isolated wide high overlap same idx col) (by rw [lone.get]; exact recent) found
  have erased : (erase (apply calls [detection] tracker res)).tracks = [track.update calls detection] :=
    lone.erased stocked.kept partitioned pair
  have sound := stocked.kept.sound track (by rw [lone.tracks]; exact List.mem_singleton_self track)
  have confirmed : (track.update calls detection).state = .confirmed := sound.confirms stocked.nInit hits detection
  obtain ⟨trackId, _, _, state, _, since, features⟩ := cleared_fields (track.update calls detection)
  have sized : tracker.metric.budget = (100 : Nat) := stocked.budget
  have distinct : ((erase (apply calls [detection] tracker res)).tidFeatures.map Prod.fst).Nodup :=
    erased_distinct calls stocked.kept partitioned
  rw [← erased_targets] at fitted
  refine ⟨cleared (track.update calls detection), ⟨?_, trackId.trans lone.trackId, ?_, ?_, ?_, ?_⟩,
    state.trans confirmed, since⟩
  · change (erase (apply calls [detection] tracker res)).tracks.map cleared = _
    rw [erased]
    rfl
  · rw [cleared_mean]
    change (ByteKalman.update calls.lltSolve track.mean track.covariance detection.row.toXyah).1 = _
    rw [lone.still, toXyah_place same 0 feature, ByteKalman.update_still]
  · rw [features, if_pos confirmed]
    exact fun row member => by cases member
  · refine partialFit_uniform sized (by decide) distinct fitted
      (fun target sample known => ⟨?_, lone.galleries target sample known⟩) fun data member => ?_
    · have bounded := (stocked.galleries.rows target sample known).2
      rw [sized] at bounded
      exact Int.ofNat_le.mp bounded
    · obtain ⟨after, chosen, rfl⟩ := List.mem_map.mp member
      have listed := List.mem_of_mem_filter chosen
      rw [erased] at listed
      obtain rfl := List.mem_singleton.mp listed
      refine ⟨fun row inside => ?_, fun held => ?_⟩
      · obtain old | new := List.mem_append.mp inside
        · exact lone.features row old
        · exact (List.mem_singleton.mp new).trans featured
      · have active := (stocked.galleries.keys track.trackId).mp (Option.isSome_iff_ne_none.mpr held)
        obtain ⟨other, known, _⟩ := List.mem_map.mp active
        obtain ⟨there, settled⟩ := List.mem_filter.mp known
        rw [lone.tracks] at there
        obtain rfl := List.mem_singleton.mp there
        have empty := (sound.confirmed (of_decide_eq_true settled)).2
        change (other.features ++ [detection.row.feature]).length = 1
        rw [empty]
        rfl
  · exact (partialFit_result distinct fitted).1.2.trans lone.mating

/-- The first detection starts the track. -/
theorem lone_start (finite : calls.infinite = fun _ => false) (stocked : Stocked 2 100 tracker)
    (overlap : tracker.maxIouDistance = 7 / 10) (mating : tracker.metric.matingThreshold = 1 / 2)
    (empty : tracker.tracks = []) (next : tracker.nextIdx = 1) (same : detection.row.tlwh = place)
    (featured : detection.row.feature = feature) :
    Ends (update calls [detection] tracker) fun after => ∃ track, Lone place feature after track ∧
      track.timeSinceUpdate = 0 := by
  have vacant (idx : Fin tracker.tracks.length) : False :=
    Nat.not_lt_zero _ (lt_of_lt_of_eq idx.isLt (congrArg List.length empty))
  have none : tracker.confirmedTracks = [] := List.eq_nil_iff_forall_not_mem.mpr fun idx => (vacant idx).elim
  have cascaded : Ends (cascade calls [detection] tracker) _ := cascade_none none
  have matched := matchTracks_ends finite (overlap_bounds overlap) cascaded
  refine (update_ends stocked.kept stocked.galleries stocked.room matched).imp ?_
  rintro _ ⟨res, metric, _, partitioned, ⟨rounds, fitted⟩, rfl⟩
  have unmatched : res.unmatchedDetections.map [detection].get = [detection] := by
    have alone : res.matched = [] := List.eq_nil_iff_forall_not_mem.mpr fun pair => (vacant pair.1).elim
    have all := partitioned.detections.map [detection].get
    rw [alone, List.map_get_finRange] at all
    exact List.perm_singleton.mp all
  have old : modifyAll (changes calls res) tracker.tracks = [] := by
    refine List.eq_nil_of_length_eq_zero ?_
    rw [length_modifyAll, empty]
    rfl
  have erased : (erase (apply calls [detection] tracker res)).tracks =
      [started tracker.nInit tracker.maxAge tracker.nextIdx detection] := by
    rw [apply_eq, erase, old, newcomers, unmatched]
    rfl
  have distinct : ((erase (apply calls [detection] tracker res)).tidFeatures.map Prod.fst).Nodup :=
    erased_distinct calls stocked.kept partitioned
  rw [← erased_targets] at fitted
  obtain ⟨⟨_, threshold⟩, _, gone⟩ := partialFit_result distinct fitted
  refine ⟨started tracker.nInit tracker.maxAge tracker.nextIdx detection,
    ⟨?_, next, ?_, ?_, ?_, threshold.trans mating⟩, rfl⟩
  · change (erase (apply calls [detection] tracker res)).tracks.map cleared = _
    rw [erased]
    rfl
  · rw [← toXyah_place same 0 feature]
    rfl
  · intro row member
    exact (List.mem_singleton.mp member).trans featured
  · intro target sample known
    have absent : target ∉ (erase (apply calls [detection] tracker res)).tidFeatures.map Prod.fst := by
      rw [erased_targets, activeTargets, erased]
      exact List.not_mem_nil
    cases (gone target absent).symm.trans known

end Tracker

end exact
end Yolov5Rknn.DeepSort
