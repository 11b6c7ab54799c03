import Yolov5Rknn.BYTETracker
import Yolov5Rknn.Logic.Overlap
import Yolov5Rknn.Logic.WithNaN

/-! The entries of `ious` are proportions for all boxes, inverted ones too. A division by
zero would show in a run on numbers of `WithNaN`. -/

namespace Yolov5Rknn.BYTETracker

attribute [local instance] Arithmetic.ofField

variable {K : Type} [Field K] [LinearOrder K]

theorem least_eq_min (a b : K) : least a b = min a b := by
  unfold least
  split
  · next less => exact (min_eq_right less.le).symm
  · next less => exact (min_eq_left (not_lt.mp less)).symm

theorem greatest_eq_max (a b : K) : greatest a b = max a b := by
  unfold greatest
  split
  · next less => exact (max_eq_right less.le).symm
  · next less => exact (max_eq_left (not_lt.mp less)).symm

/-- The `iw` or `ih` of two sides. -/
def pixels (start stop first last : K) : K := min stop last - max start first + 1

theorem pixels_symm (start stop first last : K) : pixels start stop first last = pixels first last start stop := by
  unfold pixels
  rw [min_comm, max_comm]

theorem iou_pixels (a b : Fin 4 → K) :
    iou a b =
      if 0 < pixels (a 0) (a 2) (b 0) (b 2) then
        if 0 < pixels (a 1) (a 3) (b 1) (b 3) then
          pixels (a 0) (a 2) (b 0) (b 2) * pixels (a 1) (a 3) (b 1) (b 3) /
            ((a 2 - a 0 + 1) * (a 3 - a 1 + 1) + (b 2 - b 0 + 1) * (b 3 - b 1 + 1) -
              pixels (a 0) (a 2) (b 0) (b 2) * pixels (a 1) (a 3) (b 1) (b 3))
        else 0
      else 0 := by
  simp only [iou, least_eq_min, greatest_eq_max]
  rfl

/-- Neither box comes first. -/
theorem iou_symm (a b : Fin 4 → K) : iou a b = iou b a := by
  rw [iou_pixels, iou_pixels, pixels_symm (a 0), pixels_symm (a 1), add_comm ((a 2 - a 0 + 1) * _)]

/-- The entry of a matrix, if it has one there. -/
def entry {α : Type} (matrix : List (List α)) (n k : Nat) : Option α := matrix[n]?.bind (·[k]?)

theorem entry_ious (atlbrs btlbrs : List (Fin 4 → K)) (n k : Nat) :
    entry (ious atlbrs btlbrs) n k = atlbrs[n]?.bind fun a => btlbrs[k]?.map fun b => iou a b := by
  unfold ious entry
  split
  · next none =>
    rw [Bool.or_eq_true, List.isEmpty_iff, List.isEmpty_iff] at none
    obtain rfl | rfl := none
    · rfl
    · cases atlbrs[n]? <;> rfl
  · rw [List.getElem?_map]
    cases atlbrs[n]? with
    | none => rfl
    | some a => exact List.getElem?_map ..

theorem mem_ious {atlbrs btlbrs : List (Fin 4 → K)} {row : List K} (mem : row ∈ ious atlbrs btlbrs)
    {value : K} (inside : value ∈ row) : ∃ a b, value = iou a b := by
  unfold ious at mem
  split at mem
  · exact absurd mem List.not_mem_nil
  · obtain ⟨a, _, rfl⟩ := List.mem_map.mp mem
    obtain ⟨b, _, rfl⟩ := List.mem_map.mp inside
    exact ⟨a, b, rfl⟩

variable [IsStrictOrderedRing K]

theorem pixels_le (start stop first last : K) :
    pixels start stop first last ≤ stop - start + 1 ∧ pixels start stop first last ≤ last - first + 1 := by
  unfold pixels
  exact ⟨add_le_add_left (sub_le_sub (min_le_left ..) (le_max_left ..)) 1,
    add_le_add_left (sub_le_sub (min_le_right ..) (le_max_right ..)) 1⟩

/-- Sides that share all their pixels are one. -/
theorem sides_eq {start stop first last : K} (one : pixels start stop first last = stop - start + 1)
    (two : pixels start stop first last = last - first + 1) : start = first ∧ stop = last := by
  unfold pixels at one two
  have far := min_le_left stop last
  have far' := min_le_right stop last
  have near := le_max_left start first
  have near' := le_max_right start first
  constructor <;> linarith

/-- The boxes that reach the division. -/
def shared (a b : Fin 4 → K) (across : 0 < pixels (a 0) (a 2) (b 0) (b 2))
    (down : 0 < pixels (a 1) (a 3) (b 1) (b 3)) : Overlap K where
  wide := pixels (a 0) (a 2) (b 0) (b 2)
  high := pixels (a 1) (a 3) (b 1) (b 3)
  first := (a 2 - a 0 + 1, a 3 - a 1 + 1)
  second := (b 2 - b 0 + 1, b 3 - b 1 + 1)
  wide_pos := across
  high_pos := down
  wide_le := pixels_le ..
  high_le := pixels_le ..

/-- The branches of the two guards. -/
theorem iou_cases (a b : Fin 4 → K) :
    (∃ across down, iou a b = (shared a b across down).proportion) ∨ iou a b = 0 := by
  rw [iou_pixels]
  split
  · next across =>
    split
    · next down => exact .inl ⟨across, down, rfl⟩
    · exact .inr rfl
  · exact .inr rfl

theorem iou_bounds (a b : Fin 4 → K) : 0 ≤ iou a b ∧ iou a b ≤ 1 := by
  obtain ⟨across, down, same⟩ | same := iou_cases a b
  · rw [same]
    exact (shared a b across down).proportion_bounds
  · rw [same]
    exact ⟨le_rfl, zero_le_one⟩

theorem eq_of_iou {a b : Fin 4 → K} (whole : iou a b = 1) : a = b := by
  obtain ⟨across, down, same⟩ | same := iou_cases a b
  · obtain ⟨first, second⟩ := (shared a b across down).sides_of_whole (same.symm.trans whole)
    have horizontal := sides_eq (congrArg Prod.fst first) (congrArg Prod.fst second)
    have vertical := sides_eq (congrArg Prod.snd first) (congrArg Prod.snd second)
    funext side
    fin_cases side
    · exact horizontal.1
    · exact vertical.1
    · exact horizontal.2
    · exact vertical.2
  · exact absurd (same.symm.trans whole) zero_ne_one

/-- A box as the values of a run that shows divisions by zero. -/
def exactly (box : Fin 4 → K) : Fin 4 → WithNaN K := fun side => .number (box side)

theorem iou_exactly (a b : Fin 4 → K) : iou (exactly a) (exactly b) = .number (iou a b) := by
  have least_number (x y : K) : least (WithNaN.number x) (.number y) = .number (least x y) :=
    WithNaN.number_ite ..
  have greatest_number (x y : K) : greatest (WithNaN.number x) (.number y) = .number (greatest x y) :=
    WithNaN.number_ite ..
  have one : (1 : WithNaN K) = .number 1 := rfl
  have zero : (0 : WithNaN K) = .number 0 := rfl
  simp only [iou, exactly, least_number, greatest_number, one, zero, WithNaN.number_sub, WithNaN.number_add,
    WithNaN.number_mul, WithNaN.number_lt]
  split
  · next across =>
    split
    · next down =>
      simp only [least_eq_min, greatest_eq_max] at across down ⊢
      exact WithNaN.number_div (shared a b across down).union_pos.ne'
    · rfl
  · rfl

theorem ious_exactly (atlbrs btlbrs : List (Fin 4 → K)) :
    ious (atlbrs.map exactly) (btlbrs.map exactly) = (ious atlbrs btlbrs).map (List.map .number) := by
  unfold ious
  rw [List.isEmpty_map, List.isEmpty_map]
  split
  · rfl
  · simp only [List.map_map]
    refine List.map_congr_left fun a _ => ?_
    simp only [Function.comp_apply, List.map_map]
    exact List.map_congr_left fun b _ => iou_exactly a b

theorem iouDistance_bounds {atracks btracks : List (STrack K)} {row : List K}
    (mem : row ∈ iouDistance atracks btracks) {dist : K} (inside : dist ∈ row) : 0 ≤ dist ∧ dist ≤ 1 := by
  obtain ⟨scores, scored, rfl⟩ := List.mem_map.mp mem
  obtain ⟨score, within, rfl⟩ := List.mem_map.mp inside
  obtain ⟨a, b, rfl⟩ := mem_ious scored within
  have bounds := iou_bounds a b
  exact ⟨sub_nonneg.mpr bounds.2, sub_le_self 1 bounds.1⟩

/-- Whatever the boxes are, `ious` divides by no zero and gives proportions that do not
depend on the order of its arguments, with 1 for equal boxes only; so the distances are
proportions. -/
theorem ious_well_defined (atlbrs btlbrs : List (Fin 4 → K)) :
    ious (atlbrs.map exactly) (btlbrs.map exactly) = (ious atlbrs btlbrs).map (List.map .number) ∧
    (∀ row ∈ ious atlbrs btlbrs, ∀ value ∈ row, 0 ≤ value ∧ value ≤ 1) ∧
    (∀ n k, entry (ious atlbrs btlbrs) n k = entry (ious btlbrs atlbrs) k n) ∧
    (∀ n k, entry (ious atlbrs btlbrs) n k = some 1 → ∃ box, atlbrs[n]? = some box ∧ btlbrs[k]? = some box) ∧
    ∀ atracks btracks : List (STrack K), ∀ row ∈ iouDistance atracks btracks,
      ∀ dist ∈ row, 0 ≤ dist ∧ dist ≤ 1 := by
  refine ⟨ious_exactly .., fun row mem value inside => ?_, fun n k => ?_, fun n k whole => ?_,
    fun atracks btracks row mem dist inside => iouDistance_bounds mem inside⟩
  · obtain ⟨a, b, rfl⟩ := mem_ious mem inside
    exact iou_bounds a b
  · rw [entry_ious, entry_ious]
    cases atlbrs[n]? <;> cases btlbrs[k]? <;> simp [iou_symm]
  · rw [entry_ious] at whole
    obtain ⟨a, first, rest⟩ := Option.bind_eq_some_iff.mp whole
    obtain ⟨b, second, same⟩ := Option.map_eq_some_iff.mp rest
    obtain rfl := eq_of_iou same
    exact ⟨a, first, second⟩

def upright : Fin 4 → ℚ := ![0, 0, 9, 9]

def inverted : Fin 4 → ℚ := ![5, 5, 3, 3]

theorem ious_well_defined_inverted :
    ious ([upright].map exactly) ([inverted].map exactly) = (ious [upright] [inverted]).map (List.map .number) ∧
      entry (ious [upright] [inverted]) 0 0 = entry (ious [inverted] [upright]) 0 0 :=
  have defined := ious_well_defined [upright] [inverted]
  ⟨defined.1, defined.2.2.1 0 0⟩

end Yolov5Rknn.BYTETracker
