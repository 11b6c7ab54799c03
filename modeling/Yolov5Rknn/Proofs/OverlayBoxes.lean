import Yolov5Rknn.RkYolo
import Mathlib.Data.Set.Basic

/-! The boxes of the overlay are the boxes of the group inside the frame, unless a box
lies beyond the right or the bottom edge: such a box shows as a line on the edge. -/

namespace Yolov5Rknn.RkYolo
open ByteTrackerWrapper

/-- The pixels of a box. -/
def pixels (box : BoxRect) : Set (Int × Int) :=
  { pixel | (box.left ≤ pixel.1 ∧ pixel.1 < box.right) ∧ box.top ≤ pixel.2 ∧ pixel.2 < box.bottom }

theorem mem_pixels {box : BoxRect} {pixel : Int × Int} : pixel ∈ pixels box ↔
    (box.left ≤ pixel.1 ∧ pixel.1 < box.right) ∧ box.top ≤ pixel.2 ∧ pixel.2 < box.bottom := Iff.rfl

def framePixels (frameWidth frameHeight : Int) : Set (Int × Int) := pixels ⟨0, frameWidth, 0, frameHeight⟩

section side

/-- One side of a box has pixels in the frame. -/
def Meets (size start stop : Int) : Prop := start < stop ∧ start < size ∧ 0 < stop

/-- It lies behind the frame. -/
def Past (size start stop : Int) : Prop := size ≤ start ∧ size ≤ stop

instance (size start stop : Int) : Decidable (Meets size start stop) := inferInstanceAs (Decidable (_ ∧ _))

instance (size start stop : Int) : Decidable (Past size start stop) := inferInstanceAs (Decidable (_ ∧ _))

variable {size start stop : Int}

theorem Meets.not_past (meets : Meets size start stop) : ¬Past size start stop :=
  fun past => absurd meets.2.1 (not_lt.mpr past.1)

/-- The clamps of one side leave something in two cases. -/
theorem clamped_iff (positive : 1 ≤ size) (start stop : Int) :
    max 0 (min (size - 1) start) < max 0 (min size stop) ↔ Meets size start stop ∨ Past size start stop := by
  unfold Meets Past
  omega

theorem Meets.clamped (meets : Meets size start stop) (positive : 1 ≤ size) :
    max 0 (min (size - 1) start) = max start 0 ∧ max 0 (min size stop) = min stop size := by
  unfold Meets at meets
  omega

end side

variable {F : Type} {frameWidth frameHeight : Int}

/-- A box has pixels in the frame. -/
def Visible (frameWidth frameHeight : Int) (box : BoxRect) : Prop :=
  Meets frameWidth box.left box.right ∧ Meets frameHeight box.top box.bottom

/-- It lies beyond the right or the bottom edge and not clear of the frame on the other axis. -/
def Beyond (frameWidth frameHeight : Int) (box : BoxRect) : Prop :=
  Past frameWidth box.left box.right ∧
      (Meets frameHeight box.top box.bottom ∨ Past frameHeight box.top box.bottom) ∨
    Meets frameWidth box.left box.right ∧ Past frameHeight box.top box.bottom

instance (box : BoxRect) : Decidable (Visible frameWidth frameHeight box) := inferInstanceAs (Decidable (_ ∧ _))

instance (box : BoxRect) : Decidable (Beyond frameWidth frameHeight box) := inferInstanceAs (Decidable (_ ∨ _))

theorem pixels_inter (box : BoxRect) :
    pixels box ∩ framePixels frameWidth frameHeight =
      pixels ⟨max box.left 0, min box.right frameWidth, max box.top 0, min box.bottom frameHeight⟩ := by
  ext pixel
  simp only [Set.mem_inter_iff, framePixels, mem_pixels]
  omega

theorem visible_iff (positive : 1 ≤ frameWidth ∧ 1 ≤ frameHeight) (box : BoxRect) :
    Visible frameWidth frameHeight box ↔ (pixels box ∩ framePixels frameWidth frameHeight).Nonempty := by
  rw [pixels_inter]
  unfold Visible Meets
  constructor
  · intro visible
    refine ⟨(max box.left 0, max box.top 0), ?_⟩
    simp only [mem_pixels]
    omega
  · rintro ⟨pixel, inside⟩
    simp only [mem_pixels] at inside
    omega

theorem Visible.not_beyond {box : BoxRect} (visible : Visible frameWidth frameHeight box) :
    ¬Beyond frameWidth frameHeight box := by
  rintro (⟨past, _⟩ | ⟨_, past⟩)
  · exact visible.1.not_past past
  · exact visible.2.not_past past

/-- What `BuildOverlayGroup` keeps. -/
theorem overlayBox_isSome (positive : 1 ≤ frameWidth ∧ 1 ≤ frameHeight) (box : BoxRect) :
    (overlayBox frameWidth frameHeight box).isSome ↔
      Visible frameWidth frameHeight box ∨ Beyond frameWidth frameHeight box := by
  have across := clamped_iff positive.1 box.left box.right
  have down := clamped_iff positive.2 box.top box.bottom
  unfold overlayBox Visible Beyond
  dsimp only
  split
  · next empty =>
    rw [← not_lt, ← not_lt, across, down] at empty
    simp only [Option.isSome_none, Bool.false_eq_true, false_iff]
    tauto
  · next full =>
    rw [not_or, not_le, not_le, across, down] at full
    simp only [Option.isSome_some, true_iff]
    tauto

theorem Visible.overlayBox {box : BoxRect} (visible : Visible frameWidth frameHeight box)
    (positive : 1 ≤ frameWidth ∧ 1 ≤ frameHeight) :
    overlayBox frameWidth frameHeight box =
      some ⟨max box.left 0, min box.right frameWidth, max box.top 0, min box.bottom frameHeight⟩ := by
  have across := (clamped_iff positive.1 _ _).mpr (.inl visible.1)
  have down := (clamped_iff positive.2 _ _).mpr (.inl visible.2)
  have horizontal := visible.1.clamped positive.1
  have vertical := visible.2.clamped positive.2
  unfold RkYolo.overlayBox
  dsimp only
  rw [if_neg (not_or.mpr ⟨not_le.mpr across, not_le.mpr down⟩), horizontal.1, horizontal.2, vertical.1, vertical.2]

/-- The intersection with the frame is kept of a box, and everything else of a result. -/
structure Clipped (frameWidth frameHeight : Int) (det kept : DetectResult F) : Prop where
  box : pixels kept.box = pixels det.box ∩ framePixels frameWidth frameHeight
  others : kept = { det with box := kept.box }

open Classical in
/-- A group holds exactly the results of another one that have pixels in the frame, in order
and clipped. -/
structure Clips (frameWidth frameHeight : Int) (src dst : DetectResultGroup F) : Prop where
  id : dst.id = src.id
  results : List.Forall₂ (Clipped frameWidth frameHeight)
    (src.results.filter fun det => (pixels det.box ∩ framePixels frameWidth frameHeight).Nonempty) dst.results

theorem clips_iff (positive : 1 ≤ frameWidth ∧ 1 ≤ frameHeight) {src dst : DetectResultGroup F} :
    Clips frameWidth frameHeight src dst ↔ dst.id = src.id ∧
      List.Forall₂ (Clipped frameWidth frameHeight)
        (src.results.filter fun det => Visible frameWidth frameHeight det.box) dst.results := by
  have same : (src.results.filter fun det => Visible frameWidth frameHeight det.box) =
      src.results.filter fun det => @decide _ (Classical.propDecidable
        (pixels det.box ∩ framePixels frameWidth frameHeight).Nonempty) := by
    refine List.filter_congr fun det _ => ?_
    rw [decide_eq_decide]
    exact visible_iff positive det.box
  rw [same]
  exact ⟨fun clips => ⟨clips.id, clips.results⟩, fun ⟨id, results⟩ => ⟨id, results⟩⟩

/-- The result `BuildOverlayGroup` writes for one of the source. -/
def overlay (frameWidth frameHeight : Int) (det : DetectResult F) : Option (DetectResult F) :=
  (overlayBox frameWidth frameHeight det.box).map fun box => { det with box }

theorem overlay_clipped (positive : 1 ≤ frameWidth ∧ 1 ≤ frameHeight) {det : DetectResult F}
    (visible : Visible frameWidth frameHeight det.box) :
    ∃ kept, overlay frameWidth frameHeight det = some kept ∧ Clipped frameWidth frameHeight det kept := by
  refine ⟨_, congrArg _ (visible.overlayBox positive), ?_, rfl⟩
  exact (pixels_inter det.box).symm

theorem overlay_isSome (positive : 1 ≤ frameWidth ∧ 1 ≤ frameHeight) (det : DetectResult F) :
    (overlay frameWidth frameHeight det).isSome ↔
      Visible frameWidth frameHeight det.box ∨ Beyond frameWidth frameHeight det.box := by
  unfold overlay
  rw [Option.isSome_map]
  exact overlayBox_isSome positive det.box

theorem buildOverlayGroup_results {src : DetectResultGroup F} (count : src.results.length ≤ objNumbMaxSize) :
    (buildOverlayGroup src frameWidth frameHeight).results =
      src.results.filterMap (overlay frameWidth frameHeight) :=
  List.take_of_length_le ((List.length_filterMap_le ..).trans count)

/-- No box of the group lies beyond the frame exactly when the overlay consists of the
clipped boxes. -/
theorem overlay_clips_iff (src : DetectResultGroup F) (count : src.results.length ≤ objNumbMaxSize)
    (positive : 1 ≤ frameWidth ∧ 1 ≤ frameHeight) :
    Clips frameWidth frameHeight src (buildOverlayGroup src frameWidth frameHeight) ↔
      ∀ det ∈ src.results, ¬Beyond frameWidth frameHeight det.box := by
  have kept := overlay_isSome (F := F) positive
  rw [clips_iff positive, buildOverlayGroup_results count]
  constructor
  · rintro ⟨_, results⟩ det mem beyond
    have short : (src.results.filter fun det => Visible frameWidth frameHeight det.box).length <
        (src.results.filterMap (overlay frameWidth frameHeight)).length := by
      have among : (src.results.filter fun det => Visible frameWidth frameHeight det.box) =
          (src.results.filter fun det => (overlay frameWidth frameHeight det).isSome).filter
            fun det => Visible frameWidth frameHeight det.box := by
        rw [List.filter_filter]
        refine List.filter_congr fun other _ => ?_
        by_cases visible : Visible frameWidth frameHeight other.box
        · simp [visible, (kept other).mpr (.inl visible)]
        · simp [visible]
      rw [among, List.length_filterMap_eq_countP, List.countP_eq_length_filter]
      refine List.length_filter_lt_length_iff_exists.mpr ⟨det, List.mem_filter.mpr ⟨mem, ?_⟩, ?_⟩
      · exact (kept det).mpr (.inr beyond)
      · simpa using fun visible : Visible frameWidth frameHeight det.box => visible.not_beyond beyond
    exact absurd results.length_eq short.ne
  · intro inside
    refine ⟨rfl, ?_⟩
    generalize src.results = results at inside
    induction results with
    | nil => exact .nil
    | cons det rest ih =>
      have later := ih fun other mem => inside other (List.mem_cons_of_mem _ mem)
      by_cases visible : Visible frameWidth frameHeight det.box
      · obtain ⟨last, made, clipped⟩ := overlay_clipped positive visible
        rw [List.filter_cons_of_pos (by simpa using visible), List.filterMap_cons_some made]
        exact .cons clipped later
      · have dropped : overlay frameWidth frameHeight det = none := by
          rw [← Option.not_isSome_iff_eq_none, kept, not_or]
          exact ⟨visible, inside det List.mem_cons_self⟩
        rw [List.filter_cons_of_neg (by simpa using visible), List.filterMap_cons_none dropped]
        exact later

/-- A box to the right of a frame of 10 by 10 pixels. -/
def beside : DetectResultGroup ℚ := ⟨0, [⟨[], 0, -1, [], ⟨12, 15, 0, 5⟩, 0⟩]⟩

theorem overlay_clips_iff_beside :
    Clips 10 10 beside (buildOverlayGroup beside 10 10) ↔ ∀ det ∈ beside.results, ¬Beyond 10 10 det.box :=
  overlay_clips_iff beside (by decide) (by decide)

/-- It shows as a line on the right edge. -/
theorem overlay_shows_beside : ¬Clips 10 10 beside (buildOverlayGroup beside 10 10) := by
  rw [clips_iff (by decide)]
  rintro ⟨_, results⟩
  exact absurd results.length_eq (by decide)

end Yolov5Rknn.RkYolo
