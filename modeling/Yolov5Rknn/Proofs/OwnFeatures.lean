import Yolov5Rknn.FeatureTensor
import Yolov5Rknn.Logic.Positions
import Mathlib.Data.Fin.VecNotation

/-! Which feature a detection receives. The images are indexed by their position
among the crops that were kept, so one empty crop shifts every later feature of
its half and leaves the last detection of the half without one. -/

namespace Yolov5Rknn.DeepSort
open Positions

variable {Pixel F : Type} {tensor : FeatureTensor Pixel F} {img : Mat Pixel}
  {det found : List (DetectionRow F)}

/-- The integer box of a detection is not empty and lies in the frame. -/
structure Rect.Inside (cols rows : Int) (rect : Rect) : Prop where
  left : 0 ≤ rect.x
  top : 0 ≤ rect.y
  width : 0 < rect.width
  height : 0 < rect.height
  right : rect.x + rect.width ≤ cols
  bottom : rect.y + rect.height ≤ rows

/-! ### The crop -/

/-- What is below a multiple of the divisor stays below it. -/
private theorem tdiv_lt {a n : Int} (less : a < 4 * n) (positive : 0 < n) : a.tdiv 4 < n := by
  rcases le_or_gt 0 a with nonneg | neg
  · rw [Int.tdiv_eq_ediv_of_nonneg nonneg]
    omega
  · have opposite := Int.neg_tdiv a 4
    have nonneg : 0 ≤ (-a).tdiv 4 := Int.tdiv_nonneg (by omega) (by omega)
    omega

/-- Clamping leaves the upright box of a detection empty exactly when the box is
one pixel high: its width is half of that. -/
theorem clamp_empty_iff {cols rows : Int} {rect : Rect} (inside : rect.Inside cols rows) :
    ((rect.upright.clamp cols rows).width ≤ 0 ∨ (rect.upright.clamp cols rows).height ≤ 0) ↔
      rect.height < 2 := by
  obtain ⟨left, top, width, height, right, bottom⟩ := inside
  have start : (4 * rect.x - (rect.height - 2 * rect.width)).tdiv 4 < cols := tdiv_lt (by omega) (by omega)
  have half : rect.height.tdiv 2 = rect.height / 2 := Int.tdiv_eq_ediv_of_nonneg height.le
  simp only [Rect.upright, Rect.clamp, half, if_pos top, if_pos bottom]
  split <;> split <;> omega

/-- The clamps keep every box, wherever it lies, from reaching out of the image,
so that a box not skipped is a valid region. -/
theorem clamp_inside (cols rows : Int) (rect : Rect) :
    0 ≤ (rect.clamp cols rows).x ∧ (rect.clamp cols rows).x + (rect.clamp cols rows).width ≤ cols ∧
      0 ≤ (rect.clamp cols rows).y ∧ (rect.clamp cols rows).y + (rect.clamp cols rows).height ≤ rows := by
  simp only [Rect.clamp]
  refine ⟨?_, ?_, ?_, ?_⟩ <;> grind

namespace FeatureTensor

/-- The image a detection is to be recognised by. -/
def ownImage (tensor : FeatureTensor Pixel F) (img : Mat Pixel) (dbox : DetectionRow F) : Mat Pixel :=
  tensor.resize (crop tensor.toInt img dbox) tensor.imgShape

theorem image_cases (tensor : FeatureTensor Pixel F) {dbox : DetectionRow F}
    (inside : (dbox.rect tensor.toInt).Inside img.cols img.rows) :
    tensor.image img dbox =
      if (dbox.rect tensor.toInt).height < 2 then none else some (tensor.ownImage img dbox) := by
  have emptied : (crop tensor.toInt img dbox).empty = decide ((dbox.rect tensor.toInt).height < 2) :=
    decide_eq_decide.mpr (clamp_empty_iff inside)
  unfold image
  dsimp only
  split
  next negative =>
    have low := (clamp_empty_iff inside).mp (negative.imp le_of_lt le_of_lt)
    rw [if_pos low]
  next =>
    simp only [emptied, decide_eq_true_eq]
    rfl

/-- One detection after `doInference`. -/
theorem doInference_get {imgMats : List (Mat Pixel)} (inferred : tensor.doInference imgMats det = some found)
    (k : Nat) :
    found[k]? = det[k]?.map fun row => imgMats[k]?.elim row fun mat =>
      { row with feature := tensor.writeFeature (tensor.inference mat) row.feature } := by
  let write := fun (mat : Mat Pixel) (row : DetectionRow F) =>
    { row with feature := tensor.writeFeature (tensor.inference mat) row.feature }
  have loop : found = modifyAll (imgMats.zipIdx.map fun mat => (mat.2, write mat.1)) det := by
    unfold doInference at inferred
    split at inferred
    · cases inferred
      rw [modifyAll, List.foldl_map]
    · cases inferred
  have positions : (imgMats.zipIdx.map fun mat => (mat.2, write mat.1)).map Prod.fst = List.range imgMats.length := by
    rw [List.map_map, List.range_eq_range', ← List.zipIdx_map_snd 0 imgMats]
    rfl
  rw [loop]
  cases image : imgMats[k]? with
  | none =>
    rw [modifyAll_other]
    · simp
    · rw [positions, List.mem_range, not_lt]
      exact List.getElem?_eq_none_iff.mp image
  | some mat =>
    have member : (k, write mat) ∈ imgMats.zipIdx.map fun mat => (mat.2, write mat.1) := by
      apply List.mem_map.mpr ⟨(mat, k), List.mem_zipIdx_iff_getElem?.mpr image, rfl⟩
    exact modifyAll_changed (by rw [positions]; exact List.nodup_range) member

/-! ### One extractor -/

/-- A detection with the output of the network for its own crop. -/
def own (tensor : FeatureTensor Pixel F) (img : Mat Pixel) (dbox : DetectionRow F) : DetectionRow F :=
  { dbox with feature := tensor.inference (tensor.ownImage img dbox) }

/-- The whole feature is written, and no box is so low that its crop is empty. -/
def Complete (tensor : FeatureTensor Pixel F) (det : List (DetectionRow F)) : Prop :=
  tensor.featureDim = 512 ∧ ∀ row ∈ det, 2 ≤ (row.rect tensor.toInt).height

/-- The integer boxes are not empty and lie in the frame. -/
def Bounded (tensor : FeatureTensor Pixel F) (img : Mat Pixel) (det : List (DetectionRow F)) : Prop :=
  ∀ row ∈ det, (row.rect tensor.toInt).Inside img.cols img.rows

theorem images_complete (bounded : tensor.Bounded img det)
    (high : ∀ row ∈ det, 2 ≤ (row.rect tensor.toInt).height) :
    det.filterMap (tensor.image img) = det.map (tensor.ownImage img) := by
  rw [← List.filterMap_eq_map]
  apply List.filterMap_congr
  intro row member
  have := high row member
  rw [image_cases tensor (bounded row member), if_neg (by omega)]
  rfl

theorem writeFeature_full (full : tensor.featureDim = 512) (output feature : Feature F) :
    tensor.writeFeature output feature = output := by
  funext j
  exact if_pos (by rw [full]; exact j.isLt)

theorem getRectsFeature_own (bounded : tensor.Bounded img det) (complete : tensor.Complete det) :
    tensor.getRectsFeature img det = some (det.map (tensor.own img)) := by
  have images := images_complete bounded complete.2
  obtain ⟨found, inferred⟩ : ∃ found, tensor.getRectsFeature img det = some found :=
    ⟨_, if_pos (Or.inr complete.1.le)⟩
  rw [inferred, Option.some.injEq]
  apply List.ext_getElem?
  intro k
  rw [doInference_get inferred k, images, List.getElem?_map, List.getElem?_map]
  cases det[k]? with
  | none => rfl
  | some row =>
    simp only [Option.map_some, Option.elim_some, writeFeature_full complete.1]
    rfl

/-- Otherwise some entry of some feature is never written, whatever the network. -/
theorem getRectsFeature_stale (bounded : tensor.Bounded img det) (nonempty : det ≠ [])
    (incomplete : ¬ tensor.Complete det) :
    ∃ (k : Nat) (row : DetectionRow F) (j : Fin 512), det[k]? = some row ∧
      ∀ inference found, FeatureTensor.getRectsFeature { tensor with inference } img det = some found →
        ∃ other, found[k]? = some other ∧ other.feature j = row.feature j := by
  have last : det[det.length - 1]? = some (det.getLast nonempty) := by
    rw [← List.getLast?_eq_getElem?, List.getLast?_eq_some_getLast nonempty]
  refine ⟨det.length - 1, det.getLast nonempty, 511, last, ?_⟩
  intro inference found inferred
  have entry := doInference_get inferred (det.length - 1)
  rw [last, Option.map_some] at entry
  refine ⟨_, entry, ?_⟩
  by_cases high : ∀ row ∈ det, 2 ≤ (row.rect tensor.toInt).height
  · have narrow : tensor.featureDim < 512 := by
      have images := images_complete bounded high
      have written : det.filterMap (tensor.image img) = [] ∨ tensor.featureDim ≤ 512 := by
        by_contra overflow
        have fails : FeatureTensor.getRectsFeature { tensor with inference } img det = none := if_neg overflow
        rw [fails] at inferred
        cases inferred
      rw [images, List.map_eq_nil_iff] at written
      exact lt_of_le_of_ne (written.resolve_left nonempty) fun full => incomplete ⟨full, high⟩
    have unwritten : ¬ ((511 : Fin 512) : Nat) < tensor.featureDim := not_lt.mpr (Nat.le_of_lt_succ narrow)
    cases image : (det.filterMap (FeatureTensor.image { tensor with inference } img))[det.length - 1]? with
    | none => rfl
    | some mat => exact if_neg unwritten
  · simp only [not_forall, not_le] at high
    obtain ⟨low, member, height⟩ := high
    have skipped : tensor.image img low = none := by
      rw [image_cases tensor (bounded low member), if_pos height]
    have short : (det.filterMap (tensor.image img)).length < det.length :=
      List.length_filterMap_lt_length_iff_exists.mpr ⟨low, member, skipped⟩
    have image : (det.filterMap (FeatureTensor.image { tensor with inference } img))[det.length - 1]? = none :=
      List.getElem?_eq_none (Nat.le_sub_one_of_lt short)
    rw [image]
    rfl

end FeatureTensor

/-! ### Both extractors -/

section Both

open FeatureTensor

variable {rows : List (DetectionRow F)}

/-- The recombined list, position by position. -/
theorem extractFeatures_get (several : ¬ rows.length < 2)
    (extracted : extractFeatures tensor tensor img rows = some found) :
    ∃ part1 part2, tensor.getRectsFeature img (rows.take (rows.length / 2)) = some part1 ∧
      tensor.getRectsFeature img (rows.drop (rows.length / 2)) = some part2 ∧
      ∀ idx, found[idx]? = rows[idx]?.map fun detection =>
        (if idx < rows.length / 2 then part1[idx]? else part2[idx - rows.length / 2]?).elim detection
          fun part => { detection with feature := part.feature } := by
  simp only [extractFeatures, if_neg several, Option.bind_eq_bind, Option.bind_eq_some_iff] at extracted
  obtain ⟨part1, first, part2, second, same⟩ := extracted
  cases same
  refine ⟨part1, part2, first, second, ?_⟩
  intro idx
  rw [List.getElem?_map, List.getElem?_zipIdx, Option.map_map, Nat.zero_add]
  rfl

theorem extractFeatures_own (bounded : tensor.Bounded img rows) (complete : tensor.Complete rows) :
    extractFeatures tensor tensor img rows = some (rows.map (tensor.own img)) := by
  by_cases several : rows.length < 2
  · rw [extractFeatures, if_pos several]
    exact getRectsFeature_own bounded complete
  · have first : tensor.getRectsFeature img (rows.take (rows.length / 2)) =
        some ((rows.take (rows.length / 2)).map (tensor.own img)) :=
      getRectsFeature_own (fun row member => bounded row (List.mem_of_mem_take member))
        ⟨complete.1, fun row member => complete.2 row (List.mem_of_mem_take member)⟩
    have second : tensor.getRectsFeature img (rows.drop (rows.length / 2)) =
        some ((rows.drop (rows.length / 2)).map (tensor.own img)) :=
      getRectsFeature_own (fun row member => bounded row (List.mem_of_mem_drop member))
        ⟨complete.1, fun row member => complete.2 row (List.mem_of_mem_drop member)⟩
    obtain ⟨found, extracted⟩ : ∃ found, extractFeatures tensor tensor img rows = some found := by
      simp only [extractFeatures, if_neg several, first, second, Option.bind_eq_bind, Option.bind_some]
      exact ⟨_, rfl⟩
    obtain ⟨part1, part2, same1, same2, entries⟩ := extractFeatures_get several extracted
    cases first.symm.trans same1
    cases second.symm.trans same2
    rw [extracted, Option.some.injEq]
    apply List.ext_getElem?
    intro idx
    simp only [entries idx, List.getElem?_map]
    cases row : rows[idx]? with
    | none => rfl
    | some row =>
      by_cases early : idx < rows.length / 2
      · simp only [Option.map_some, if_pos early, List.getElem?_take_of_lt early, row]
        rfl
      · have same : rows.length / 2 + (idx - rows.length / 2) = idx := by omega
        simp only [Option.map_some, if_neg early, List.getElem?_drop, same, row]
        rfl

theorem extractFeatures_stale (bounded : tensor.Bounded img rows) (nonempty : rows ≠ [])
    (incomplete : ¬ tensor.Complete rows) :
    ∃ (k : Nat) (row : DetectionRow F) (j : Fin 512), rows[k]? = some row ∧
      ∀ inference found, extractFeatures { tensor with inference } { tensor with inference } img rows =
        some found → ∃ other, found[k]? = some other ∧ other.feature j = row.feature j := by
  by_cases several : rows.length < 2
  · simp only [extractFeatures, if_pos several]
    exact getRectsFeature_stale bounded nonempty incomplete
  · by_cases half : tensor.Complete (rows.take (rows.length / 2))
    · have other : ¬ tensor.Complete (rows.drop (rows.length / 2)) := by
        intro rest
        apply incomplete
        refine ⟨half.1, fun row member => ?_⟩
        rw [← List.take_append_drop (rows.length / 2) rows, List.mem_append] at member
        exact member.elim (half.2 row) (rest.2 row)
      have present : rows.drop (rows.length / 2) ≠ [] := by
        rw [ne_eq, List.drop_eq_nil_iff]
        omega
      obtain ⟨k, row, j, entry, stale⟩ := getRectsFeature_stale
        (fun row member => bounded row (List.mem_of_mem_drop member)) present other
      rw [List.getElem?_drop] at entry
      refine ⟨rows.length / 2 + k, row, j, entry, ?_⟩
      intro inference found extracted
      obtain ⟨part1, part2, _, second, entries⟩ := extractFeatures_get several extracted
      obtain ⟨late, position, same⟩ := stale inference part2 second
      refine ⟨{ row with feature := late.feature }, ?_, same⟩
      rw [entries, entry, Option.map_some, if_neg (by omega), Nat.add_sub_cancel_left, position]
      rfl
    · have present : rows.take (rows.length / 2) ≠ [] := by
        rw [ne_eq, List.take_eq_nil_iff, not_or]
        exact ⟨by omega, nonempty⟩
      obtain ⟨k, row, j, entry, stale⟩ := getRectsFeature_stale
        (fun row member => bounded row (List.mem_of_mem_take member)) present half
      have early : k < rows.length / 2 := by
        have inside := (List.getElem?_eq_some_iff.mp entry).1
        rw [List.length_take] at inside
        omega
      rw [List.getElem?_take_of_lt early] at entry
      refine ⟨k, row, j, entry, ?_⟩
      intro inference found extracted
      obtain ⟨part1, part2, first, _, entries⟩ := extractFeatures_get several extracted
      obtain ⟨late, position, same⟩ := stale inference part1 first
      refine ⟨{ row with feature := late.feature }, ?_, same⟩
      rw [entries, entry, Option.map_some, if_pos early, position]
      rfl

/-- In every frame each detection gets the feature of its own crop, whatever the
network, exactly when the whole feature is written and every box is at least two
pixels high. -/
theorem own_features_iff [Nontrivial F] (tensor : FeatureTensor Pixel F) (frame : Mat Pixel)
    {rows : List (DetectionRow F)} (bounded : tensor.Bounded frame rows) :
    (∀ inference, extractFeatures { tensor with inference } { tensor with inference } frame rows =
      some (rows.map (FeatureTensor.own { tensor with inference } frame))) ↔
    rows = [] ∨ tensor.Complete rows := by
  constructor
  · intro gets
    by_contra neither
    rw [not_or] at neither
    obtain ⟨k, row, j, entry, stale⟩ := extractFeatures_stale bounded neither.1 neither.2
    obtain ⟨value, different⟩ := exists_ne (row.feature j)
    obtain ⟨other, position, same⟩ := stale (fun _ _ => value) _ (gets fun _ _ => value)
    rw [List.getElem?_map, entry, Option.map_some, Option.some.injEq] at position
    subst position
    exact different same
  · rintro (rfl | complete) inference
    · rfl
    · exact extractFeatures_own bounded complete

end Both

/-- Every entry of a feature is the upper left pixel of the crop. -/
def sampleTensor : FeatureTensor Int Int where
  imgShape := (128, 256)
  featureDim := 512
  toInt := id
  resize mat _ := mat
  inference mat := fun _ => mat.pixel 0 0

def sampleFrame : Mat Int where
  cols := 20
  rows := 20
  pixel row col := 100 * row + col

/-- A detection with a feature that holds -1 before any is written. -/
def sampleRow (x y width height : Int) : DetectionRow Int where
  tlwh := ![x, y, width, height]
  confidence := 1
  feature := fun _ => -1

theorem sampleRows_bounded {rows : List (DetectionRow Int)}
    (inside : ∀ row ∈ rows, 0 ≤ row.tlwh 0 ∧ 0 ≤ row.tlwh 1 ∧ 0 < row.tlwh 2 ∧ 0 < row.tlwh 3 ∧
      row.tlwh 0 + row.tlwh 2 ≤ 20 ∧ row.tlwh 1 + row.tlwh 3 ≤ 20) :
    sampleTensor.Bounded sampleFrame rows := by
  intro row member
  obtain ⟨left, top, width, height, right, bottom⟩ := inside row member
  exact ⟨left, top, width, height, right, bottom⟩

theorem own_features_iff_sample :
    extractFeatures sampleTensor sampleTensor sampleFrame [sampleRow 2 3 4 8, sampleRow 10 5 2 6] =
      some ([sampleRow 2 3 4 8, sampleRow 10 5 2 6].map (sampleTensor.own sampleFrame)) :=
  (own_features_iff sampleTensor sampleFrame (sampleRows_bounded (by decide))).mpr (Or.inr ⟨rfl, by decide⟩)
    sampleTensor.inference

/-- A box one pixel high leads its half: it takes the feature of the detection
after it, which is left without one. -/
theorem low_box_shifts :
    sampleTensor.Bounded sampleFrame
        [sampleRow 4 0 4 1, sampleRow 2 3 4 8, sampleRow 2 3 4 8, sampleRow 10 5 2 6] ∧
      extractFeatures sampleTensor sampleTensor sampleFrame
          [sampleRow 4 0 4 1, sampleRow 2 3 4 8, sampleRow 2 3 4 8, sampleRow 10 5 2 6] ≠
        some ([sampleRow 4 0 4 1, sampleRow 2 3 4 8, sampleRow 2 3 4 8, sampleRow 10 5 2 6].map
          (sampleTensor.own sampleFrame)) := by
  refine ⟨sampleRows_bounded (by decide), fun same => ?_⟩
  have features := congrArg (Option.map (List.map fun row => row.feature 0)) same
  revert features
  decide

end Yolov5Rknn.DeepSort
