import Yolov5Rknn.BYTETracker
import Mathlib.Data.List.Perm.Subperm

/-! The list operations of `BYTETracker` and the matching they are used around:
what `joint_stracks`, `sub_stracks` and `remove_duplicate_stracks` keep, and how a
round of matching splits its tracks and detections. -/

namespace Yolov5Rknn.BYTETracker
open Matching Pointers

section joint

variable {α κ : Type} [DecidableEq κ] {key : α → κ} {a b : List α}

theorem jointStracks_cons (item : α) : jointStracks key a (item :: b) =
    jointStracks key (if key item ∈ a.map key then a else a ++ [item]) b := rfl

theorem mem_of_mem_jointStracks {item : α} (member : item ∈ jointStracks key a b) : item ∈ a ∨ item ∈ b := by
  induction b generalizing a with
  | nil => exact .inl member
  | cons next b ih =>
    rw [jointStracks_cons] at member
    obtain first | later := ih member
    · split at first
      · exact .inl first
      · obtain old | new := List.mem_append.mp first
        · exact .inl old
        · exact .inr (List.mem_cons.mpr (.inl (List.mem_singleton.mp new)))
    · exact .inr (List.mem_cons_of_mem _ later)

theorem jointStracks_sublist : a.Sublist (jointStracks key a b) := by
  induction b generalizing a with
  | nil => exact .refl _
  | cons next b ih =>
    rw [jointStracks_cons]
    refine List.Sublist.trans ?_ ih
    split
    · exact .refl _
    · exact List.sublist_append_left _ _

theorem jointStracks_nodup (distinct : (a.map key).Nodup) : ((jointStracks key a b).map key).Nodup := by
  induction b generalizing a with
  | nil => exact distinct
  | cons next b ih =>
    rw [jointStracks_cons]
    apply ih
    split
    · exact distinct
    next fresh =>
      rw [List.map_append, List.map_singleton, ← List.concat_eq_append]
      exact distinct.concat fresh

/-- The second list is represented in the result. -/
theorem key_mem_jointStracks {item : α} (member : item ∈ b) : key item ∈ (jointStracks key a b).map key := by
  induction b generalizing a with
  | nil => cases member
  | cons next b ih =>
    rw [jointStracks_cons]
    obtain rfl | later := List.mem_cons.mp member
    · apply (jointStracks_sublist.map key).subset
      split
      next known => exact known
      next => simp
    · exact ih later

/-- Lists without a common key are appended. -/
theorem jointStracks_append (distinct : ((a ++ b).map key).Nodup) : jointStracks key a b = a ++ b := by
  induction b generalizing a with
  | nil => exact (List.append_nil a).symm
  | cons next b ih =>
    have fresh : key next ∉ a.map key := by
      intro known
      rw [List.map_append, List.map_cons] at distinct
      exact (List.nodup_append.mp distinct).2.2 _ known _ (List.mem_cons_self ..) rfl
    rw [jointStracks_cons, if_neg fresh, ih]
    · simp
    · simpa using distinct

end joint

section lists

variable {F : Type} {a b : List (STrack F)} {track : STrack F}

theorem subStracks_sublist : (subStracks a b).Sublist a := List.filter_sublist

theorem mem_subStracks : track ∈ subStracks a b ↔ track ∈ a ∧ track.trackId ∉ ids b := by
  simp [subStracks]

theorem mem_ids (member : track ∈ a) : track.trackId ∈ ids a := List.mem_map_of_mem member

theorem ids_sublist (part : a.Sublist b) : (ids a).Sublist (ids b) := part.map _

@[simp] theorem ids_append : ids (a ++ b) = ids a ++ ids b := List.map_append

variable {store : Vectors (STrack F)} {rows : List Pointer}

theorem dropPositions_sublist {α : Type} (dup : List Nat) (items : List α) :
    (dropPositions dup items).Sublist items := by
  have selected := (List.filter_sublist (p := fun item : α × Nat => item.2 ∉ dup) (l := items.zipIdx)).map Prod.fst
  rwa [List.zipIdx_map_fst] at selected

theorem deref_length (there : ∀ pointer ∈ rows, (store.get? pointer).isSome) :
    (deref store rows).length = rows.length := by
  induction rows with
  | nil => rfl
  | cons pointer rows ih =>
    obtain ⟨track, found⟩ := Option.isSome_iff_exists.mp (there pointer List.mem_cons_self)
    have rest := ih fun other member => there other (List.mem_cons_of_mem _ member)
    simpa [deref, found] using rest

end lists

section rounds

variable {F : Type} [Arithmetic F]

theorem removeDuplicateStracks_sublist (a b : List (STrack F)) :
    (removeDuplicateStracks a b).1.Sublist a ∧ (removeDuplicateStracks a b).2.Sublist b :=
  ⟨dropPositions_sublist _ _, dropPositions_sublist _ _⟩

/-- The matrices `linear_assignment` is called on: one row a track, one column a
detection, or no matrix if there is none of one of them. -/
def Shaped (dists : List (List F)) (rows cols : Nat) : Prop :=
  dists = [] ∧ (rows = 0 ∨ cols = 0) ∨ dists.length = rows ∧ ∀ row ∈ dists, row.length = cols

/-- `linear_assignment` returns a partial matching and its complement. -/
def Partitions (calls : Calls F) : Prop :=
  ∀ dists rows cols thresh, Shaped dists rows cols →
    IsPartition rows cols (calls.linearAssignment dists rows cols thresh)

theorem iouDistance_shaped (a b : List (STrack F)) : Shaped (iouDistance a b) a.length b.length := by
  unfold iouDistance ious
  split
  next none =>
    left
    refine ⟨rfl, ?_⟩
    simpa using none
  next => exact .inr ⟨by simp, by simp⟩

variable {calls : Calls F} {store : Vectors (STrack F)} {rows : List Pointer}

/-- A round of matching splits the tracks and the detections it is given. -/
theorem associate_perm (partitions : Partitions calls) (thresh : F) (detections : List (Detection F))
    (there : ∀ pointer ∈ rows, (store.get? pointer).isSome) :
    let round := associate calls thresh store rows detections
    (round.matched.map Prod.fst ++ round.uTrack).Perm rows ∧
      (round.matched.map Prod.snd ++ round.uDetection).Perm detections := by
  have shaped := iouDistance_shaped (deref store rows) (detections.map Detection.strack)
  rw [deref_length there, List.length_map] at shaped
  have partition := partitions _ _ _ thresh shaped
  exact ⟨partition.perm_rows, partition.perm_cols⟩

end rounds

end Yolov5Rknn.BYTETracker
