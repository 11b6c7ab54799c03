import Yolov5Rknn.BYTETracker
import Yolov5Rknn.Logic.Rivals
import Mathlib.Data.List.FinRange

/-! What `remove_duplicate_stracks` leaves of two lists: no two duplicates, and for every
track dropped one that stands for it. -/

namespace Yolov5Rknn.BYTETracker
open Relation Rivals

section positions

variable {α : Type} {items : List α} {i : Nat} {item : α}

theorem zipIdx_eq (items : List α) : items.zipIdx = (List.finRange items.length).map fun i => (items.get i, i.val) := by
  refine List.ext_getElem (by simp) fun position _ _ => ?_
  simp

theorem mem_zipIdx_iff : (item, i) ∈ items.zipIdx ↔ items[i]? = some item := by
  rw [List.mem_zipIdx_iff_getElem?]

/-- What stays are the elements at the positions that are not listed. -/
theorem dropPositions_eq (dup : List Nat) (items : List α) : dropPositions dup items =
    ((List.finRange items.length).filter fun i => decide (i.val ∉ dup)).map items.get := by
  rw [dropPositions, zipIdx_eq, List.filter_map, List.map_map]
  rfl

end positions

variable {F : Type} {stracksa stracksb : List (STrack F)}

/-- `timep` and `timeq`. -/
def duration (track : STrack F) : Int := track.frameId - track.startFrame

theorem outlives_iff {i : Fin stracksa.length} {j : Fin stracksb.length} : outlives stracksa stracksb (i.val, j.val) = true ↔
    duration (stracksb.get j) < duration (stracksa.get i) := by
  rw [outlives, List.getElem?_eq_getElem i.isLt, List.getElem?_eq_getElem j.isLt]
  exact decide_eq_true_iff

variable [Arithmetic F]

/-- The IoU distance of the tracks is below 0.15. -/
def Near (p q : STrack F) : Prop := 1 - iou p.tlbr q.tlbr < 15 / 100

theorem iouDistance_eq (some : stracksb ≠ []) : iouDistance stracksa stracksb =
    stracksa.map fun p => stracksb.map fun q => 1 - iou p.tlbr q.tlbr := by
  cases stracksa with
  | nil => rfl
  | cons a as =>
    obtain ⟨b, bs, rfl⟩ := List.exists_cons_of_ne_nil some
    simp [iouDistance, ious]

theorem iouDistance_row {i : Nat} {row : List F} : (iouDistance stracksa stracksb)[i]? = some row ↔
    stracksb ≠ [] ∧ ∃ p, stracksa[i]? = some p ∧ (stracksb.map fun q => 1 - iou p.tlbr q.tlbr) = row := by
  by_cases some : stracksb ≠ []
  · rw [iouDistance_eq some, List.getElem?_map, Option.map_eq_some_iff, and_iff_right some]
  · rw [not_not.mp some]
    simp [iouDistance, ious]

theorem mem_duplicatePairs {i j : Nat} : (i, j) ∈ duplicatePairs stracksa stracksb ↔
    ∃ p q, stracksa[i]? = some p ∧ stracksb[j]? = some q ∧ Near p q := by
  simp only [duplicatePairs, List.mem_flatMap, List.mem_filterMap, Prod.exists, mem_zipIdx_iff]
  constructor
  · intro listed
    obtain ⟨row, k, rowAt, dist, l, distAt, taken⟩ := listed
    obtain ⟨_, p, first, rfl⟩ := iouDistance_row.mp rowAt
    obtain ⟨q, second, rfl⟩ := Option.map_eq_some_iff.mp (List.getElem?_map.symm.trans distAt)
    split at taken
    · next near =>
      cases taken
      exact ⟨p, q, first, second, near⟩
    · cases taken
  · intro near
    obtain ⟨p, q, first, second, near⟩ := near
    have some : stracksb ≠ [] := List.ne_nil_of_mem (List.mem_of_getElem? second)
    refine ⟨_, i, iouDistance_row.mpr ⟨some, p, first, rfl⟩, _, j, ?_, if_pos near⟩
    rw [List.getElem?_map, second]
    rfl

variable (stracksa stracksb)

/-- A track yields to a duplicate of a longer duration, one of `stracksa` to a duplicate
of the same duration also. -/
abbrev Outlived : Fin stracksa.length ⊕ Fin stracksb.length → Fin stracksa.length ⊕ Fin stracksb.length → Prop :=
  Yields (fun i j => Near (stracksa.get i) (stracksb.get j)) (fun i => duration (stracksa.get i))
    fun j => duration (stracksb.get j)

/-- Two duplicates, the second with no shorter duration than the first. -/
inductive Linked : Fin stracksa.length ⊕ Fin stracksb.length → Fin stracksa.length ⊕ Fin stracksb.length → Prop where
  | left {i : Fin stracksa.length} {j : Fin stracksb.length} (near : Near (stracksa.get i) (stracksb.get j))
    (grows : duration (stracksa.get i) ≤ duration (stracksb.get j)) : Linked (.inl i) (.inr j)
  | right {i : Fin stracksa.length} {j : Fin stracksb.length} (near : Near (stracksa.get i) (stracksb.get j))
    (grows : duration (stracksb.get j) ≤ duration (stracksa.get i)) : Linked (.inr j) (.inl i)

variable {stracksa stracksb} {i : Fin stracksa.length} {j : Fin stracksb.length}

theorem Linked.of_outlived {one two} (outlived : Outlived stracksa stracksb one two) :
    Linked stracksa stracksb one two := by
  cases outlived with
  | left near younger => exact .left near younger
  | right near younger => exact .right near younger.le

theorem near_iff : (i.val, j.val) ∈ duplicatePairs stracksa stracksb ↔
    Near (stracksa.get i) (stracksb.get j) := by
  rw [mem_duplicatePairs]
  simp

/-- `dupa` has the tracks of `stracksa` that yield. -/
theorem mem_dupa : i.val ∈ ((duplicatePairs stracksa stracksb).filter fun pair =>
    !outlives stracksa stracksb pair).map Prod.fst ↔ ∃ other, Outlived stracksa stracksb (.inl i) other := by
  constructor
  · intro dropped
    obtain ⟨⟨k, l⟩, listed, rfl⟩ := List.mem_map.mp dropped
    obtain ⟨paired, outlived⟩ := List.mem_filter.mp listed
    obtain ⟨p, q, _, second, _⟩ := mem_duplicatePairs.mp paired
    obtain ⟨inside, _⟩ := List.getElem?_eq_some_iff.mp second
    have younger := mt (outlives_iff (i := i) (j := ⟨l, inside⟩)).mpr (by simpa using outlived)
    exact ⟨.inr ⟨l, inside⟩, .left (near_iff.mp paired) (not_lt.mp younger)⟩
  · intro yields
    obtain ⟨other, yields⟩ := yields
    cases yields with
    | left near younger =>
      next j =>
      have outlived := mt (outlives_iff (i := i) (j := j)).mp (not_lt.mpr younger)
      exact List.mem_map.mpr ⟨(i.val, j.val), List.mem_filter.mpr ⟨near_iff.mpr near, by simpa using outlived⟩, rfl⟩

/-- `dupb` has the tracks of `stracksb` that yield. -/
theorem mem_dupb : j.val ∈ ((duplicatePairs stracksa stracksb).filter fun pair =>
    outlives stracksa stracksb pair).map Prod.snd ↔ ∃ other, Outlived stracksa stracksb (.inr j) other := by
  constructor
  · intro dropped
    obtain ⟨⟨k, l⟩, listed, rfl⟩ := List.mem_map.mp dropped
    obtain ⟨paired, outlived⟩ := List.mem_filter.mp listed
    obtain ⟨p, q, first, _, _⟩ := mem_duplicatePairs.mp paired
    obtain ⟨inside, _⟩ := List.getElem?_eq_some_iff.mp first
    exact ⟨.inl ⟨k, inside⟩, .right (near_iff (i := ⟨k, inside⟩).mp paired) (outlives_iff.mp outlived)⟩
  · intro yields
    obtain ⟨other, yields⟩ := yields
    cases yields with
    | right near younger =>
      next i =>
      exact List.mem_map.mpr ⟨(i.val, j.val), List.mem_filter.mpr ⟨near_iff.mpr near, outlives_iff.mpr younger⟩, rfl⟩

/-- What is returned has its tracks at positions of the two lists, in order; no two of
them are duplicates, every track dropped has a duplicate, and duplicates of durations
that never fall lead from it to a track that is kept. -/
theorem duplicates_represented (stracksa stracksb : List (STrack F)) :
    ∃ (keptA : List (Fin stracksa.length)) (keptB : List (Fin stracksb.length)),
      keptA.Sublist (List.finRange stracksa.length) ∧ keptB.Sublist (List.finRange stracksb.length) ∧
        removeDuplicateStracks stracksa stracksb = (keptA.map stracksa.get, keptB.map stracksb.get) ∧
        (∀ i ∈ keptA, ∀ j ∈ keptB, ¬Near (stracksa.get i) (stracksb.get j)) ∧
        (∀ i, i ∉ keptA → ∃ j, Near (stracksa.get i) (stracksb.get j)) ∧
        (∀ j, j ∉ keptB → ∃ i, Near (stracksa.get i) (stracksb.get j)) ∧
        ∀ track, ∃ last, ReflTransGen (Linked stracksa stracksb) track last ∧
          Sum.elim (fun i => i ∈ keptA) (fun j => j ∈ keptB) last := by
  obtain ⟨keptA, returnedA, partA, memA⟩ : ∃ keptA : List (Fin stracksa.length),
      (removeDuplicateStracks stracksa stracksb).1 = keptA.map stracksa.get ∧
        keptA.Sublist (List.finRange _) ∧ ∀ i, i ∈ keptA ↔ ∀ other, ¬Outlived stracksa stracksb (.inl i) other :=
    ⟨_, dropPositions_eq _ _, List.filter_sublist, fun i => by
      rw [List.mem_filter, decide_eq_true_iff, mem_dupa, not_exists, and_iff_right (List.mem_finRange i)]⟩
  obtain ⟨keptB, returnedB, partB, memB⟩ : ∃ keptB : List (Fin stracksb.length),
      (removeDuplicateStracks stracksa stracksb).2 = keptB.map stracksb.get ∧
        keptB.Sublist (List.finRange _) ∧ ∀ j, j ∈ keptB ↔ ∀ other, ¬Outlived stracksa stracksb (.inr j) other :=
    ⟨_, dropPositions_eq _ _, List.filter_sublist, fun j => by
      rw [List.mem_filter, decide_eq_true_iff, mem_dupb, not_exists, and_iff_right (List.mem_finRange j)]⟩
  refine ⟨keptA, keptB, partA, partB, Prod.ext returnedA returnedB, fun i first j second near => ?_,
    fun i dropped => ?_, fun j dropped => ?_, fun track => ?_⟩
  · rcases one_yields (fun i j => Near (stracksa.get i) (stracksb.get j)) (fun i => duration (stracksa.get i))
      (fun j => duration (stracksb.get j)) near with yields | yields
    · exact (memA i).mp first _ yields
    · exact (memB j).mp second _ yields
  · rw [memA, not_forall] at dropped
    obtain ⟨other, yields⟩ := dropped
    cases not_not.mp yields with
    | left near _ => exact ⟨_, near⟩
  · rw [memB, not_forall] at dropped
    obtain ⟨other, yields⟩ := dropped
    cases not_not.mp yields with
    | right near _ => exact ⟨_, near⟩
  · obtain ⟨last, chain, stands⟩ := yields_end (fun i j => Near (stracksa.get i) (stracksb.get j))
      (fun i => duration (stracksa.get i)) (fun j => duration (stracksb.get j)) track
    refine ⟨last, ReflTransGen.mono (fun _ _ => Linked.of_outlived) track last chain, ?_⟩
    cases last with
    | inl i => exact (memA i).mpr stands
    | inr j => exact (memB j).mpr stands

end Yolov5Rknn.BYTETracker
