import Yolov5Rknn.Proofs.AssociationPartition
import Yolov5Rknn.Logic.Positions
import Mathlib.LinearAlgebra.Matrix.Adjugate
import Mathlib.Data.Rat.Sqrt

/-! What one update of the tracker does with each of its tracks: a matched track is
updated with its detection, any other track misses, and every detection left over
starts a track. -/

namespace Yolov5Rknn.DeepSort.Tracker
open Program Positions

variable {F : Type} [Arithmetic F] {calls : Calls F} {tracker : Tracker F}
variable {detections : List (Detection F)} {res : TracherMatchd tracker.tracks.length detections.length}

/-- The changes both loops over the tracks make. -/
def changes (calls : Calls F) (res : TracherMatchd tracker.tracks.length detections.length) :
    List (Change (Track F)) :=
  res.matched.map (fun data => (data.1.val, fun track => track.update calls (detections.get data.2))) ++
    res.unmatchedTracks.map fun idx => (idx.val, Track.markMissed)

/-- The track `_initiate_track` makes of a detection. -/
def started (nInit maxAge trackId : Int) (detection : Detection F) : Track F :=
  Track.create (ByteKalman.initiate detection.row.toXyah).1 (ByteKalman.initiate detection.row.toXyah).2
    trackId nInit maxAge detection.row.feature detection.clsConf

def startedAll (nInit maxAge first : Int) : List (Detection F) → List (Track F)
  | [] => []
  | detection :: rest => started nInit maxAge first detection :: startedAll nInit maxAge (first + 1) rest

@[simp] theorem length_startedAll {nInit maxAge first : Int} (rest : List (Detection F)) :
    (startedAll nInit maxAge first rest).length = rest.length := by
  induction rest generalizing first with
  | nil => rfl
  | cons detection rest ih => simp [startedAll, ih]

theorem initiateAll_eq (rest : List (Detection F)) (tracker : Tracker F) :
    rest.foldl initiateTrack tracker =
      { tracker with
        tracks := tracker.tracks ++ startedAll tracker.nInit tracker.maxAge tracker.nextIdx rest
        nextIdx := tracker.nextIdx + rest.length } := by
  induction rest generalizing tracker with
  | nil => simp [startedAll]
  | cons detection rest ih =>
    rw [List.foldl_cons, ih]
    simp only [initiateTrack, startedAll, started, List.append_assoc, List.singleton_append, List.length_cons]
    congr 1
    push_cast
    omega

/-- The tracks an update starts, in the order of the detections left over. -/
def newcomers (tracker : Tracker F) (res : TracherMatchd tracker.tracks.length detections.length) :
    List (Track F) :=
  startedAll tracker.nInit tracker.maxAge tracker.nextIdx (res.unmatchedDetections.map detections.get)

theorem apply_eq : apply calls detections tracker res =
    { tracker with
      tracks := modifyAll (changes calls res) tracker.tracks ++ newcomers tracker res
      nextIdx := tracker.nextIdx + res.unmatchedDetections.length } := by
  have loops : modifyAll (changes calls res) tracker.tracks =
      res.unmatchedTracks.foldl (fun tracks idx => tracks.modify idx Track.markMissed)
        (res.matched.foldl
          (fun tracks data => tracks.modify data.1 fun track => track.update calls (detections.get data.2))
          tracker.tracks) := by
    simp only [changes, modifyAll, List.foldl_append, List.foldl_map]
  have starts (tracker : Tracker F) : res.unmatchedDetections.foldl
      (fun tracker idx => initiateTrack tracker (detections.get idx)) tracker =
        (res.unmatchedDetections.map detections.get).foldl initiateTrack tracker := by
    rw [List.foldl_map]
  simp only [apply, starts, initiateAll_eq, loops, newcomers, List.length_map]

/-- A track is updated with the detection it is matched with, or it misses. -/
inductive Fate (calls : Calls F) (res : TracherMatchd tracker.tracks.length detections.length)
    (idx : Fin tracker.tracks.length) (after : Track F) : Prop where
  | matched (detection : Fin detections.length) (member : (idx, detection) ∈ res.matched)
      (only : idx ∉ res.unmatchedTracks)
      (same : after = (tracker.tracks.get idx).update calls (detections.get detection))
  | missed (member : idx ∈ res.unmatchedTracks) (only : idx ∉ res.matched.map Prod.fst)
      (same : after = (tracker.tracks.get idx).markMissed)

theorem changes_positions (res : TracherMatchd tracker.tracks.length detections.length) :
    (changes calls res).map Prod.fst = (res.matched.map Prod.fst ++ res.unmatchedTracks).map Fin.val := by
  simp [changes, Function.comp_def]

theorem changes_fate (calls : Calls F)
    (partitioned : Partitions res (List.finRange tracker.tracks.length) (List.finRange detections.length))
    (idx : Fin tracker.tracks.length) :
    ∃ after, (modifyAll (changes calls res) tracker.tracks)[idx.val]? = some after ∧ Fate calls res idx after := by
  have once : (res.matched.map Prod.fst ++ res.unmatchedTracks).Nodup :=
    partitioned.tracks.nodup_iff.mpr (List.nodup_finRange _)
  have distinct : ((changes calls res).map Prod.fst).Nodup := by
    rw [changes_positions]
    exact once.map Fin.val_injective
  have there : tracker.tracks[idx.val]? = some (tracker.tracks.get idx) := List.getElem?_eq_getElem idx.isLt
  have apart := List.disjoint_of_nodup_append once
  have all : idx ∈ res.matched.map Prod.fst ++ res.unmatchedTracks :=
    partitioned.tracks.mem_iff.mpr (List.mem_finRange idx)
  obtain matched | missed := List.mem_append.mp all
  · obtain ⟨⟨other, detection⟩, member, same⟩ := List.mem_map.mp matched
    obtain rfl : other = idx := same
    have change : (other.val, fun track : Track F => track.update calls (detections.get detection)) ∈
        changes calls res := List.mem_append_left _ (List.mem_map.mpr ⟨_, member, rfl⟩)
    refine ⟨_, ?_, .matched detection member (apart matched) rfl⟩
    rw [modifyAll_changed distinct change, there]
    rfl
  · have change : (idx.val, Track.markMissed) ∈ changes calls res :=
      List.mem_append_right _ (List.mem_map.mpr ⟨_, missed, rfl⟩)
    refine ⟨_, ?_, .missed missed (fun matched => apart matched missed) rfl⟩
    rw [modifyAll_changed distinct change, there]
    rfl

/-- Association accounts for every track and every detection, and the update follows
it: each track is updated once or misses once, and the detections left over start one
track each. -/
theorem match_accounts (calls : Calls F) {infinite : F → Bool}
    {gated iou : GatedMetricFunc F tracker.tracks.length detections.length} {rounds : Nat}
    (returned : matchWith infinite tracker gated iou rounds = .ok res) :
    ((res.matched.map Prod.fst).Nodup ∧ (res.matched.map Prod.snd).Nodup) ∧
      (res.matched.map Prod.fst ++ res.unmatchedTracks).Perm (List.finRange tracker.tracks.length) ∧
      (res.matched.map Prod.snd ++ res.unmatchedDetections).Perm (List.finRange detections.length) ∧
      (∀ idx : Fin tracker.tracks.length, ∃ after,
        (apply calls detections tracker res).tracks[idx.val]? = some after ∧ Fate calls res idx after) ∧
      (apply calls detections tracker res).tracks.drop tracker.tracks.length =
        startedAll tracker.nInit tracker.maxAge tracker.nextIdx (res.unmatchedDetections.map detections.get) := by
  have partitioned := matchWith_partitions returned
  have rows := partitioned.tracks.nodup_iff.mpr (List.nodup_finRange _)
  have cols := partitioned.detections.nodup_iff.mpr (List.nodup_finRange _)
  refine ⟨⟨(List.nodup_append.mp rows).1, (List.nodup_append.mp cols).1⟩, partitioned.tracks,
    partitioned.detections, fun idx => ?_, ?_⟩
  · obtain ⟨after, there, fate⟩ := changes_fate calls partitioned idx
    refine ⟨after, ?_, fate⟩
    rw [apply_eq, List.getElem?_append_left (by simp), there]
  · rw [apply_eq]
    exact List.drop_left' length_modifyAll

/-- An exact arithmetic and a solver of linear systems for concrete runs. -/
def sampleCalls : Calls ℚ where
  lltSolve s b := s.det⁻¹ • (s.adjugate * b)
  lltRight s d := fun i => d i / Rat.sqrt (s i i)
  sqrt := Rat.sqrt
  infinite _ := false
  unwritten _ := 0

def sampleStart : Tracker ℚ := create (1 / 2) 100 (7 / 10) 30 2

def sampleFeature : Feature ℚ := fun l => if l = 0 then 1 else 0

def sampleDetection : Detection ℚ := ⟨⟨0, 9 / 10⟩, ⟨![100, 100, 40, 80], 9 / 10, sampleFeature⟩⟩

/-- A tracker with a tentative and a confirmed track. -/
def samplePair : Tracker ℚ :=
  { sampleStart with
    nextIdx := 3
    tracks :=
      [started 2 30 1 sampleDetection,
        { started 2 30 2 sampleDetection with state := .confirmed, timeSinceUpdate := 1 }] }

/-- Costs that tell nothing apart. -/
def sampleCosts : GatedMetricFunc ℚ samplePair.tracks.length [sampleDetection].length := fun _ _ => pure 0

theorem match_accounts_sample : ∃ res : TracherMatchd samplePair.tracks.length [sampleDetection].length,
    matchWith sampleCalls.infinite samplePair sampleCosts sampleCosts 9 = .ok res ∧
      (res.matched.map Prod.fst ++ res.unmatchedTracks).Perm (List.finRange samplePair.tracks.length) := by
  have returns : (matchWith sampleCalls.infinite samplePair sampleCosts sampleCosts 9).toOption.isSome := by
    decide +kernel
  cases returned : matchWith sampleCalls.infinite samplePair sampleCosts sampleCosts 9 with
  | error fault =>
    rw [returned] at returns
    cases returns
  | ok res => exact ⟨res, rfl, (match_accounts sampleCalls returned).2.1⟩

/-- What an update makes of a track, without the positions. -/
inductive Outcome (calls : Calls F) (before after : Track F) : Prop where
  | updated (detection : Detection F) (same : after = before.update calls detection)
  | missed (same : after = before.markMissed)

theorem apply_outcomes (calls : Calls F)
    (partitioned : Partitions res (List.finRange tracker.tracks.length) (List.finRange detections.length)) :
    ∃ old, (apply calls detections tracker res).tracks = old ++ newcomers tracker res ∧
      List.Forall₂ (Outcome calls) tracker.tracks old := by
  refine ⟨modifyAll (changes calls res) tracker.tracks, by rw [apply_eq], ?_⟩
  refine List.forall₂_iff_get.mpr ⟨length_modifyAll.symm, fun position inside there => ?_⟩
  obtain ⟨after, found, fate⟩ := changes_fate calls partitioned ⟨position, inside⟩
  have same : (modifyAll (changes calls res) tracker.tracks).get ⟨position, there⟩ = after :=
    (List.getElem?_eq_some_iff.mp found).2
  rw [same]
  cases fate with
  | matched detection _ _ same => exact .updated _ same
  | missed _ _ same => exact .missed same

variable {rounds : Nat} {after : Tracker F}

/-- Everything an update that returned has done. -/
theorem update_result (returned : update calls detections tracker rounds = .ok after) :
    ∃ res metric,
      matchTracks calls detections tracker rounds = .ok res ∧
      Partitions res (List.finRange tracker.tracks.length) (List.finRange detections.length) ∧
      (erase (apply calls detections tracker res)).metric.partialFit calls.unwritten
        (erase (apply calls detections tracker res)).tidFeatures
        (erase (apply calls detections tracker res)).activeTargets rounds = .ok metric ∧
      after = { clearFeatures (erase (apply calls detections tracker res)) with metric } := by
  obtain ⟨res, matched, remaining⟩ := bind_result.mp returned
  obtain ⟨metric, fitted, finished⟩ := bind_result.mp remaining
  exact ⟨res, metric, matched, matchWith_partitions matched, fitted, (pure_result.mp finished).symm⟩

end Yolov5Rknn.DeepSort.Tracker
