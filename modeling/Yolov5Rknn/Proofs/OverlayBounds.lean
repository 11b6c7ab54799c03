import Yolov5Rknn.RkYolo
import Mathlib.Algebra.Order.Ring.Int
import Mathlib.Tactic.Linarith

/-! Everything the overlay draws stays in the frame and in its plane. -/

namespace Yolov5Rknn.RkYolo
open ByteTrackerWrapper

/-- `output_frame_size_`, the size of an output buffer in `TransCoder::init`. -/
def outputFrameSize (width height : Int) : Int := (width * height * 3).tdiv 2

/-- The bytes of a plane in the output buffer: where they start and how many there are. -/
def Plane.start (frameWidth frameHeight : Int) : Plane → Int
  | .y => 0
  | .u => uPtr frameWidth frameHeight
  | .v => vPtr frameWidth frameHeight

def Plane.size (frameWidth frameHeight : Int) : Plane → Int
  | .y => frameWidth * frameHeight
  | .u | .v => frameWidth.tdiv 2 * frameHeight.tdiv 2

/-- A rectangle that is not empty and lies inside the frame. -/
structure Rect.Inside (frameWidth frameHeight : Int) (rect : Rect) : Prop where
  wide : 0 < rect.width
  high : 0 < rect.height
  left : 0 ≤ rect.x
  top : 0 ≤ rect.y
  right : rect.x + rect.width ≤ frameWidth
  bottom : rect.y + rect.height ≤ frameHeight

/-- The bytes written are those of a plane. -/
structure Memset.Inside (start size : Int) (memset : Memset) : Prop where
  some : 0 < memset.length
  first : start ≤ memset.start
  last : memset.start + memset.length ≤ start + size

def Draw.Safe (frameWidth frameHeight : Int) : Draw → Prop
  | .imfill _ rect _ | .rectangle rect _ => rect.Inside frameWidth frameHeight
  | .memset plane written =>
    written.Inside (plane.start frameWidth frameHeight) (plane.size frameWidth frameHeight) ∧
      written.Inside 0 (outputFrameSize frameWidth frameHeight)
  | .dmaBufSync _ | .line .. | .circle .. | .putText .. => True

/-- A box that is not empty and lies inside the frame. -/
structure Framed (frameWidth frameHeight : Int) (box : BoxRect) : Prop where
  left : 0 ≤ box.left
  wide : box.left < box.right
  right : box.right ≤ frameWidth
  top : 0 ≤ box.top
  high : box.top < box.bottom
  bottom : box.bottom ≤ frameHeight

variable {F : Type} {frameWidth frameHeight : Int}

theorem overlayBox_framed {box kept : BoxRect} (made : overlayBox frameWidth frameHeight box = some kept) :
    Framed frameWidth frameHeight kept := by
  unfold overlayBox at made
  dsimp only at made
  split at made
  · cases made
  · next full =>
    cases made
    rw [not_or] at full
    constructor <;> dsimp only <;> omega

/-- What the drawing functions rely on. -/
theorem buildOverlayGroup_framed {src : DetectResultGroup F} {det : DetectResult F}
    (mem : det ∈ (buildOverlayGroup src frameWidth frameHeight).results) :
    Framed frameWidth frameHeight det.box := by
  obtain ⟨other, _, made⟩ := List.mem_filterMap.mp (List.mem_of_mem_take mem)
  obtain ⟨box, kept, rfl⟩ := Option.map_eq_some_iff.mp made
  exact overlayBox_framed kept

section rectangles

variable {box : BoxRect}

theorem borders_inside (framed : Framed frameWidth frameHeight box) {rect : Rect} (mem : rect ∈ borders box) :
    rect.Inside frameWidth frameHeight := by
  obtain ⟨left, wide, right, top, high, bottom⟩ := framed
  unfold borders at mem
  dsimp only at mem
  split at mem
  · cases mem
  · have line := List.mem_of_mem_filter mem
    simp only [List.mem_cons, List.not_mem_nil, or_false] at line
    rcases line with rfl | rfl | rfl | rfl <;> constructor <;> dsimp only <;> omega

theorem bgRect_inside (framed : Framed frameWidth frameHeight box) (size : TextSize)
    (wide : 0 < (bgRect size box frameWidth frameHeight).width)
    (high : 0 < (bgRect size box frameWidth frameHeight).height) :
    (bgRect size box frameWidth frameHeight).Inside frameWidth frameHeight := by
  have left := framed.left
  refine ⟨wide, high, ?_, ?_, ?_, ?_⟩ <;> dsimp only [bgRect, textOrigin]
  · split <;> omega
  · exact le_max_left ..
  · exact (add_le_add_right (min_le_left ..) _).trans (by omega)
  · exact (add_le_add_right (min_le_left ..) _).trans (by omega)

end rectangles

section planes

variable {plane stride planeWidth planeHeight : Int} {rect : Rect} {value : UInt8} {memset : Memset}

/-- `fillPlaneRect` writes one line for each row of the rectangle in the plane. -/
theorem mem_fillPlaneRect :
    memset ∈ fillPlaneRect plane stride planeWidth planeHeight rect value ↔
      0 < stride ∧ max 0 rect.x < min planeWidth (rect.x + rect.width) ∧
        ∃ row, max 0 rect.y ≤ row ∧ row < min planeHeight (rect.y + rect.height) ∧
          memset = ⟨plane + row * stride + max 0 rect.x, value,
            min planeWidth (rect.x + rect.width) - max 0 rect.x⟩ := by
  unfold fillPlaneRect
  dsimp only
  split
  · next none =>
    refine iff_of_false List.not_mem_nil ?_
    rintro ⟨positive, across, row, first, last, _⟩
    omega
  · next some =>
    split
    · next empty =>
      refine iff_of_false List.not_mem_nil ?_
      rintro ⟨_, across, row, first, last, _⟩
      omega
    · next full =>
      rw [List.mem_map]
      constructor
      · rintro ⟨k, below, rfl⟩
        have below := List.mem_range.mp below
        exact ⟨by omega, by omega, max 0 rect.y + k, by omega, by omega, rfl⟩
      · rintro ⟨_, _, row, first, last, rfl⟩
        refine ⟨(row - max 0 rect.y).toNat, List.mem_range.mpr (by omega), ?_⟩
        have same : max 0 rect.y + ((row - max 0 rect.y).toNat : Int) = row := by omega
        rw [same]

theorem fillPlaneRect_inside (mem : memset ∈ fillPlaneRect plane planeWidth planeWidth planeHeight rect value) :
    memset.Inside plane (planeWidth * planeHeight) := by
  obtain ⟨positive, across, row, first, last, rfl⟩ := mem_fillPlaneRect.mp mem
  have above : 0 ≤ row := (le_max_left 0 rect.y).trans first
  have start : 0 ≤ row * planeWidth := mul_nonneg above positive.le
  have below : (row + 1) * planeWidth ≤ planeHeight * planeWidth :=
    mul_le_mul_of_nonneg_right (last.trans_le (min_le_left ..)) positive.le
  rw [add_mul, one_mul, mul_comm planeHeight] at below
  constructor <;> dsimp only <;> omega

theorem half_mul_two_le {size : Int} (nonneg : 0 ≤ size) : size.tdiv 2 * 2 ≤ size := by
  rw [Int.tdiv_eq_ediv_of_nonneg nonneg]
  omega

/-- The three planes fill at most the output buffer. -/
theorem planes_fit (wide : 0 < frameWidth) (high : 0 < frameHeight) (plane : Plane) :
    0 ≤ plane.start frameWidth frameHeight ∧
      plane.start frameWidth frameHeight + plane.size frameWidth frameHeight ≤
        outputFrameSize frameWidth frameHeight := by
  have area : 0 < frameWidth * frameHeight := mul_pos wide high
  have halves : frameWidth.tdiv 2 * 2 ≤ frameWidth ∧ frameHeight.tdiv 2 * 2 ≤ frameHeight :=
    ⟨half_mul_two_le wide.le, half_mul_two_le high.le⟩
  have quarter : 0 ≤ frameWidth.tdiv 2 * frameHeight.tdiv 2 :=
    mul_nonneg (Int.tdiv_nonneg wide.le (by omega)) (Int.tdiv_nonneg high.le (by omega))
  have four : frameWidth.tdiv 2 * 2 * (frameHeight.tdiv 2 * 2) ≤ frameWidth * frameHeight :=
    mul_le_mul halves.1 halves.2 (mul_nonneg (Int.tdiv_nonneg high.le (by omega)) (by omega)) wide.le
  rw [mul_mul_mul_comm] at four
  unfold outputFrameSize
  rw [Int.tdiv_eq_ediv_of_nonneg (by omega)]
  cases plane <;> dsimp only [Plane.start, Plane.size, vPtr, uPtr] <;> omega

theorem fillChroma_safe (wide : 0 < frameWidth) (high : 0 < frameHeight) (plane : Plane) (chroma : plane ≠ .y)
    {bg : Rect} (mem : memset ∈ fillChroma (plane.start frameWidth frameHeight) bg frameWidth frameHeight) :
    Draw.Safe frameWidth frameHeight (.memset plane memset) := by
  have size : plane.size frameWidth frameHeight = frameWidth.tdiv 2 * frameHeight.tdiv 2 := by
    cases plane with
    | y => exact absurd rfl chroma
    | u | v => rfl
  have inside : memset.Inside (plane.start frameWidth frameHeight) (plane.size frameWidth frameHeight) :=
    size ▸ fillPlaneRect_inside mem
  have fits := planes_fit wide high plane
  refine ⟨inside, inside.some, fits.1.trans inside.first, inside.last.trans ?_⟩
  rw [zero_add]
  exact fits.2

end planes

theorem drawLabel_safe (wide : 0 < frameWidth) (high : 0 < frameHeight) {box : BoxRect}
    (framed : Framed frameWidth frameHeight box) (text : List UInt8) (size : TextSize) {draw : Draw}
    (mem : draw ∈ drawLabel text size box frameWidth frameHeight) : draw.Safe frameWidth frameHeight := by
  unfold drawLabel at mem
  dsimp only at mem
  split at mem
  · cases mem
  · next shown =>
    rw [not_or, not_le, not_le] at shown
    rcases List.mem_cons.mp mem with rfl | later
    · exact bgRect_inside framed size shown.1 shown.2
    · simp only [List.mem_append, List.mem_map, List.mem_singleton] at later
      rcases later with (⟨line, filled, rfl⟩ | ⟨line, filled, rfl⟩) | rfl
      · exact fillChroma_safe wide high .u (by decide) filled
      · exact fillChroma_safe wide high .v (by decide) filled
      · trivial

theorem drawBoxesWithRga_safe {output : Output} {group : DetectResultGroup F}
    (framed : ∀ det ∈ group.results, Framed frameWidth frameHeight det.box) {draw : Draw}
    (mem : draw ∈ (drawBoxesWithRga output group frameWidth frameHeight).2) :
    draw.Safe frameWidth frameHeight := by
  unfold drawBoxesWithRga at mem
  split at mem
  · cases mem
  · obtain ⟨det, among, filled⟩ := List.mem_flatMap.mp mem
    obtain ⟨rect, line, rfl⟩ := List.mem_map.mp filled
    exact borders_inside (framed det among) line

theorem drawTrajectory_safe {det : DetectResult F} {draw : Draw} (mem : draw ∈ drawTrajectory det) :
    draw.Safe frameWidth frameHeight := by
  unfold drawTrajectory at mem
  split at mem
  · simp only [List.mem_append, List.mem_flatMap, List.mem_cons, List.not_mem_nil, or_false] at mem
    rcases mem with ⟨_, _, rfl | rfl | rfl⟩ | ⟨_, _, rfl | rfl | rfl⟩ <;> trivial
  · cases mem

variable [Arithmetic F] {calls : Calls F}

theorem drawTextWithOpenCv_safe {output : Output} {group : DetectResultGroup F}
    (framed : ∀ det ∈ group.results, Framed frameWidth frameHeight det.box) {draw : Draw}
    (mem : draw ∈ (drawTextWithOpenCv calls output group frameWidth frameHeight).2) :
    draw.Safe frameWidth frameHeight := by
  have synced {start : Bool} (mem : draw ∈ if output.outfd > 0 then [Draw.dmaBufSync start] else []) :
      draw.Safe frameWidth frameHeight := by
    split at mem
    · rw [List.mem_singleton.mp mem]
      trivial
    · cases mem
  unfold drawTextWithOpenCv at mem
  split at mem
  · cases mem
  · next guard =>
    rw [not_or, not_or, not_le, not_le] at guard
    split at mem
    · cases mem
    · simp only [List.mem_append] at mem
      rcases mem with (first | labels) | last
      · exact synced first
      · obtain ⟨det, among, drawn⟩ := List.mem_flatMap.mp labels
        rcases List.mem_append.mp drawn with trajectory | label
        · exact drawTrajectory_safe trajectory
        · exact drawLabel_safe guard.2.1 guard.2.2 (framed det among) _ _ label
      · exact synced last

/-- Whatever the group and the sizes of the texts are, the overlay fills rectangles of the
frame and writes bytes of the plane it is writing to. -/
theorem renderOverlay_safe (calls : Calls F) (output : Output) (group : DetectResultGroup F)
    (frameWidth frameHeight : Int) :
    ∀ draw ∈ (renderOverlay calls output group frameWidth frameHeight).2, draw.Safe frameWidth frameHeight := by
  intro draw mem
  have framed (det) (among : det ∈ (buildOverlayGroup group frameWidth frameHeight).results) :
      Framed frameWidth frameHeight det.box := buildOverlayGroup_framed among
  have boxes (mem : draw ∈ (drawBoxesWithRga output (buildOverlayGroup group frameWidth frameHeight)
      frameWidth frameHeight).2) : draw.Safe frameWidth frameHeight := drawBoxesWithRga_safe framed mem
  have both (mem : draw ∈ (drawBoxesWithRga output (buildOverlayGroup group frameWidth frameHeight)
        frameWidth frameHeight).2 ++
      (drawTextWithOpenCv calls output (buildOverlayGroup group frameWidth frameHeight)
        frameWidth frameHeight).2) : draw.Safe frameWidth frameHeight :=
    (List.mem_append.mp mem).elim boxes (drawTextWithOpenCv_safe framed)
  unfold renderOverlay at mem
  dsimp only at mem
  split at mem
  · exact boxes mem
  · split at mem <;> exact both mem

/-- One box whose label starts in an odd column. -/
def labelled : DetectResultGroup ℚ := ⟨0, [⟨[], 0, -1, [], ⟨1, 20, 40, 60⟩, 0⟩]⟩

/-- Texts of one size. -/
def sized : Calls ℚ := ⟨fun _ name _ => name, fun name _ => name, fun _ => ⟨10, 10, 3⟩⟩

/-- The first line of its background on the U plane. -/
theorem renderOverlay_safe_labelled : Draw.Safe 64 64 (.memset .u ⟨4096 + 8 * 32, 128, 7⟩) :=
  renderOverlay_safe sized ⟨true, 5⟩ labelled 64 64 _ (List.mem_of_getElem? (i := 6) rfl)

end Yolov5Rknn.RkYolo
