import Yolov5Rknn.Proofs.OverlayBounds

/-! Which chroma samples of a label's background are neutral. Origin and size of the chroma
rectangle are halved apart, so the last column is missed when the background starts in an
odd column and has an even width; the rows are alike. -/

namespace Yolov5Rknn.RkYolo
open ByteTrackerWrapper

def Memset.Covers (memset : Memset) (byte : Int) : Prop :=
  memset.start ≤ byte ∧ byte < memset.start + memset.length

instance (memset : Memset) (byte : Int) : Decidable (memset.Covers byte) := inferInstanceAs (Decidable (_ ∧ _))

/-- The buffer after some calls of `memset`. -/
def filled (memsets : List Memset) (buffer : Int → UInt8) : Int → UInt8 :=
  memsets.foldl (fun buffer memset byte => if memset.Covers byte then memset.value else buffer byte) buffer

/-- The lines that the calls of `fillPlaneRect` for a label write. -/
def memsets (draws : List Draw) : List Memset :=
  draws.filterMap fun
    | .memset _ written => some written
    | _ => none

/-- Where a sample of a chroma plane is in the output buffer. -/
def Plane.sample (frameWidth frameHeight : Int) (plane : Plane) (x y : Int) : Int :=
  plane.start frameWidth frameHeight + y * frameWidth.tdiv 2 + x

/-- The samples of both chroma planes at the pixels of a label's background are 128 after the
calls of `fillPlaneRect`, whatever they were before. -/
def Neutral (text : List UInt8) (size : TextSize) (box : BoxRect) (frameWidth frameHeight : Int) : Prop :=
  ∀ bg value, .rectangle bg value ∈ drawLabel text size box frameWidth frameHeight →
    ∀ px py, bg.x ≤ px → px < bg.x + bg.width → bg.y ≤ py → py < bg.y + bg.height →
      ∀ plane : Plane, plane ≠ .y → ∀ buffer,
        filled (memsets (drawLabel text size box frameWidth frameHeight)) buffer
          (plane.sample frameWidth frameHeight (px / 2) (py / 2)) = 128

/-- A text with a background, whose size is halved one column short: the background of an even
width starts in an odd column. -/
def MissesColumn (size : TextSize) (box : BoxRect) (frameWidth : Int) : Prop :=
  box.left % 2 = 1 ∧ size.width % 2 = 0 ∧ box.left + size.width + 4 ≤ frameWidth

/-- The background of an even height starts in an odd row. -/
def MissesRow (size : TextSize) (box : BoxRect) : Prop :=
  box.top % 2 = 1 ∧ (size.height + size.baseline) % 2 = 0 ∧ size.height + size.baseline + 10 < box.top

/-- A text so small that its background is empty. -/
def Blank (size : TextSize) : Prop := size.width + 4 ≤ 0 ∨ size.height + size.baseline + 6 ≤ 0

section fills

variable {fills : List Memset} {value : UInt8} {buffer : Int → UInt8} {byte : Int}

theorem filled_cons (memset : Memset) (rest : List Memset) :
    filled (memset :: rest) buffer =
      filled rest fun byte => if memset.Covers byte then memset.value else buffer byte := rfl

theorem filled_other (buffer : Int → UInt8) (apart : ∀ memset ∈ fills, ¬memset.Covers byte) :
    filled fills buffer byte = buffer byte := by
  induction fills generalizing buffer with
  | nil => rfl
  | cons memset rest ih =>
    rw [filled_cons, ih _ fun other mem => apart other (List.mem_cons_of_mem _ mem)]
    exact if_neg (apart memset List.mem_cons_self)

/-- Once filled with the value, a byte keeps it. -/
theorem filled_keeps (same : ∀ memset ∈ fills, memset.value = value) (set : buffer byte = value) :
    filled fills buffer byte = value := by
  induction fills generalizing buffer with
  | nil => exact set
  | cons memset rest ih =>
    rw [filled_cons]
    refine ih (fun other mem => same other (List.mem_cons_of_mem _ mem)) ?_
    split
    · exact same memset List.mem_cons_self
    · exact set

theorem filled_covered (same : ∀ memset ∈ fills, memset.value = value)
    (covered : ∃ memset ∈ fills, memset.Covers byte) : filled fills buffer byte = value := by
  induction fills generalizing buffer with
  | nil =>
    obtain ⟨_, mem, _⟩ := covered
    cases mem
  | cons memset rest ih =>
    have later : ∀ other ∈ rest, other.value = value := fun other mem => same other (List.mem_cons_of_mem _ mem)
    rw [filled_cons]
    by_cases now : memset.Covers byte
    · refine filled_keeps later ?_
      exact (if_pos now).trans (same memset List.mem_cons_self)
    · obtain ⟨other, mem, covers⟩ := covered
      refine ih later ⟨other, (List.mem_cons.mp mem).resolve_left ?_, covers⟩
      rintro rfl
      exact now covers

end fills

section plane

variable {planeWidth planeHeight x y : Int} {rect : Rect} {plane : Int} {value : UInt8}

/-- Bytes of different rows differ. -/
theorem row_unique {row start stop : Int} (within : 0 ≤ start ∧ stop ≤ planeWidth) (inside : 0 ≤ x ∧ x < planeWidth)
    (first : row * planeWidth + start ≤ y * planeWidth + x) (last : y * planeWidth + x < row * planeWidth + stop) :
    row = y := by
  obtain less | same | greater := lt_trichotomy row y
  · have next : (row + 1) * planeWidth ≤ y * planeWidth :=
      mul_le_mul_of_nonneg_right less (by omega)
    rw [add_mul, one_mul] at next
    omega
  · exact same
  · have next : (y + 1) * planeWidth ≤ row * planeWidth :=
      mul_le_mul_of_nonneg_right greater (by omega)
    rw [add_mul, one_mul] at next
    omega

/-- `fillPlaneRect` covers the samples of the plane in the rectangle and no others. -/
theorem fillPlaneRect_covers (plane : Int) (value : UInt8) (inside : 0 ≤ x ∧ x < planeWidth) :
    (∃ memset ∈ fillPlaneRect plane planeWidth planeWidth planeHeight rect value,
        memset.Covers (plane + y * planeWidth + x)) ↔
      (max 0 rect.x ≤ x ∧ x < min planeWidth (rect.x + rect.width)) ∧
        max 0 rect.y ≤ y ∧ y < min planeHeight (rect.y + rect.height) := by
  constructor
  · rintro ⟨memset, mem, first, last⟩
    obtain ⟨positive, across, row, above, below, rfl⟩ := mem_fillPlaneRect.mp mem
    dsimp only at first last
    obtain rfl : row = y :=
      row_unique ⟨le_max_left 0 rect.x, min_le_left planeWidth (rect.x + rect.width)⟩ inside (by omega) (by omega)
    exact ⟨⟨by omega, by omega⟩, above, below⟩
  · rintro ⟨⟨left, right⟩, above, below⟩
    refine ⟨_, mem_fillPlaneRect.mpr ⟨by omega, by omega, y, above, below, rfl⟩, ?_⟩
    constructor <;> dsimp only <;> omega

end plane

section label

variable {frameWidth frameHeight : Int} {bg : Rect} {x y : Int}

theorem fillChroma_covered {start byte : Int} {memset : Memset}
    (mem : memset ∈ fillChroma start bg frameWidth frameHeight) (covers : memset.Covers byte) :
    start ≤ byte ∧ byte < start + frameWidth.tdiv 2 * frameHeight.tdiv 2 := by
  have inside := fillPlaneRect_inside mem
  exact ⟨inside.first.trans covers.1, covers.2.trans_le inside.last⟩

/-- The two chroma planes do not meet, so a sample is covered by the call for its plane. -/
theorem sample_covered (bg : Rect) {plane : Plane} (chroma : plane ≠ .y) (across : 0 ≤ x ∧ x < frameWidth.tdiv 2)
    (down : 0 ≤ y ∧ y < frameHeight.tdiv 2) :
    (∃ memset ∈ fillChroma (uPtr frameWidth frameHeight) bg frameWidth frameHeight ++
          fillChroma (vPtr frameWidth frameHeight) bg frameWidth frameHeight,
        memset.Covers (plane.sample frameWidth frameHeight x y)) ↔
      (max 0 (uvRect bg).x ≤ x ∧ x < min (frameWidth.tdiv 2) ((uvRect bg).x + (uvRect bg).width)) ∧
        max 0 (uvRect bg).y ≤ y ∧ y < min (frameHeight.tdiv 2) ((uvRect bg).y + (uvRect bg).height) := by
  have row : 0 ≤ y * frameWidth.tdiv 2 := mul_nonneg down.1 (by omega)
  have below : (y + 1) * frameWidth.tdiv 2 ≤ frameHeight.tdiv 2 * frameWidth.tdiv 2 :=
    mul_le_mul_of_nonneg_right down.2 (by omega)
  rw [add_mul, one_mul, mul_comm (frameHeight.tdiv 2)] at below
  have starts : vPtr frameWidth frameHeight =
      uPtr frameWidth frameHeight + frameWidth.tdiv 2 * frameHeight.tdiv 2 := rfl
  cases plane with
  | y => exact absurd rfl chroma
  | u =>
    refine Iff.trans ?_ (fillPlaneRect_covers (uPtr frameWidth frameHeight) 128 across)
    constructor
    · rintro ⟨memset, mem, covers⟩
      refine (List.mem_append.mp mem).elim (fun own => ⟨memset, own, covers⟩) fun other => ?_
      have past : vPtr frameWidth frameHeight ≤ uPtr frameWidth frameHeight + y * frameWidth.tdiv 2 + x :=
        (fillChroma_covered other covers).1
      omega
    · rintro ⟨memset, own, covers⟩
      exact ⟨memset, List.mem_append_left _ own, covers⟩
  | v =>
    refine Iff.trans ?_ (fillPlaneRect_covers (vPtr frameWidth frameHeight) 128 across)
    constructor
    · rintro ⟨memset, mem, covers⟩
      refine (List.mem_append.mp mem).elim (fun other => ?_) fun own => ⟨memset, own, covers⟩
      have before : vPtr frameWidth frameHeight + y * frameWidth.tdiv 2 + x < _ :=
        (fillChroma_covered other covers).2
      omega
    · rintro ⟨memset, own, covers⟩
      exact ⟨memset, List.mem_append_right _ own, covers⟩

theorem memsets_label {text : List UInt8} {size : TextSize} {box : BoxRect}
    (shown : 0 < (bgRect size box frameWidth frameHeight).width ∧
      0 < (bgRect size box frameWidth frameHeight).height) :
    memsets (drawLabel text size box frameWidth frameHeight) =
      fillChroma (uPtr frameWidth frameHeight) (bgRect size box frameWidth frameHeight) frameWidth frameHeight ++
        fillChroma (vPtr frameWidth frameHeight) (bgRect size box frameWidth frameHeight)
          frameWidth frameHeight := by
  have written (plane : Plane) (lines : List Memset) : memsets (lines.map (.memset plane)) = lines := by
    unfold memsets
    rw [List.filterMap_map]
    exact List.filterMap_some
  unfold drawLabel
  dsimp only
  rw [if_neg (not_or.mpr ⟨not_le.mpr shown.1, not_le.mpr shown.2⟩)]
  refine (List.filterMap_append ..).trans ?_
  rw [List.filterMap_append]
  exact (List.append_nil _).trans (congrArg₂ _ (written .u _) (written .v _))

/-- One axis: a range of pixels is halved into the samples that its halved origin and size give
unless it starts at an odd pixel and has an even size. -/
theorem halves_iff {start extent : Int} (size : Int) (nonneg : 0 ≤ start) (some : 0 < extent)
    (inside : start + extent ≤ 2 * size) :
    (∀ p, start ≤ p → p < start + extent →
        max 0 (start.tdiv 2) ≤ p / 2 ∧ p / 2 < min size (start.tdiv 2 + (extent + 1).tdiv 2)) ↔
      ¬(start % 2 = 1 ∧ extent % 2 = 0) := by
  rw [Int.tdiv_eq_ediv_of_nonneg nonneg, Int.tdiv_eq_ediv_of_nonneg (show 0 ≤ extent + 1 by omega)]
  constructor
  · intro all odd
    have last := all (start + extent - 1) (by omega) (by omega)
    omega
  · intro parity p first last
    omega

/-- A background is neutral when neither axis loses its last samples. -/
theorem neutral_iff (even : frameWidth % 2 = 0 ∧ frameHeight % 2 = 0) (text : List UInt8) (size : TextSize)
    {box : BoxRect} (framed : Framed frameWidth frameHeight box)
    (shown : 0 < (bgRect size box frameWidth frameHeight).width ∧
      0 < (bgRect size box frameWidth frameHeight).height) :
    Neutral text size box frameWidth frameHeight ↔
      ¬((bgRect size box frameWidth frameHeight).x % 2 = 1 ∧
          (bgRect size box frameWidth frameHeight).width % 2 = 0) ∧
        ¬((bgRect size box frameWidth frameHeight).y % 2 = 1 ∧
          (bgRect size box frameWidth frameHeight).height % 2 = 0) := by
  have drawn {bg : Rect} {value : UInt8} :
      .rectangle bg value ∈ drawLabel text size box frameWidth frameHeight ↔
        bg = bgRect size box frameWidth frameHeight ∧ value = 20 := by
    unfold drawLabel
    dsimp only
    rw [if_neg (not_or.mpr ⟨not_le.mpr shown.1, not_le.mpr shown.2⟩)]
    simp
  have inside := bgRect_inside framed size shown.1 shown.2
  unfold Neutral
  rw [memsets_label shown]
  generalize bgRect size box frameWidth frameHeight = bg at shown drawn inside ⊢
  have widths : frameWidth.tdiv 2 = frameWidth / 2 ∧ frameHeight.tdiv 2 = frameHeight / 2 := by
    have := inside.right
    have := inside.bottom
    have := inside.left
    have := inside.top
    exact ⟨Int.tdiv_eq_ediv_of_nonneg (by omega), Int.tdiv_eq_ediv_of_nonneg (by omega)⟩
  have columns := halves_iff (frameWidth.tdiv 2) inside.left inside.wide (by have := inside.right; omega)
  have rows := halves_iff (frameHeight.tdiv 2) inside.top inside.high (by have := inside.bottom; omega)
  have values : ∀ memset ∈ fillChroma (uPtr frameWidth frameHeight) bg frameWidth frameHeight ++
      fillChroma (vPtr frameWidth frameHeight) bg frameWidth frameHeight, memset.value = 128 := by
    intro memset mem
    rcases List.mem_append.mp mem with mem | mem <;>
      obtain ⟨_, _, _, _, _, rfl⟩ := mem_fillPlaneRect.mp mem <;> rfl
  have within {px py : Int} (left : bg.x ≤ px) (right : px < bg.x + bg.width) (top : bg.y ≤ py)
      (bottom : py < bg.y + bg.height) : (0 ≤ px / 2 ∧ px / 2 < frameWidth.tdiv 2) ∧
        0 ≤ py / 2 ∧ py / 2 < frameHeight.tdiv 2 := by
    obtain ⟨_, _, left', top', right', bottom'⟩ := inside
    omega
  rw [← columns, ← rows]
  constructor
  · intro neutral
    have covered (px py) (left : bg.x ≤ px) (right : px < bg.x + bg.width) (top : bg.y ≤ py)
        (bottom : py < bg.y + bg.height) := by
      have sample := within left right top bottom
      refine (sample_covered bg (show Plane.u ≠ .y by decide) sample.1 sample.2).mp ?_
      by_contra missed
      have kept := filled_other (fun _ => 0) fun memset mem covers => missed ⟨memset, mem, covers⟩
      have set := neutral bg 20 (drawn.mpr ⟨rfl, rfl⟩) px py left right top bottom .u (by decide) fun _ => 0
      exact absurd (kept.symm.trans set) (by decide)
    have wide := inside.wide
    have high := inside.high
    exact ⟨fun px left right => (covered px bg.y left right le_rfl (by omega)).1,
      fun py top bottom => (covered bg.x py le_rfl (by omega) top bottom).2⟩
  · rintro ⟨across, down⟩ other value mem px py left right top bottom plane chroma buffer
    obtain ⟨rfl, rfl⟩ := drawn.mp mem
    have sample := within left right top bottom
    exact filled_covered values ((sample_covered _ chroma sample.1 sample.2).mpr
      ⟨across px left right, down py top bottom⟩)

/-- Where the background of an overlay box starts and what sizes it has. -/
theorem bgRect_parity (even : frameWidth % 2 = 0) (size : TextSize) {box : BoxRect}
    (framed : Framed frameWidth frameHeight box) :
    ((bgRect size box frameWidth frameHeight).x % 2 = 1 ∧
        (bgRect size box frameWidth frameHeight).width % 2 = 0 ↔ MissesColumn size box frameWidth) ∧
      ((bgRect size box frameWidth frameHeight).y % 2 = 1 ∧
        (bgRect size box frameWidth frameHeight).height % 2 = 0 ↔ MissesRow size box) := by
  obtain ⟨left, wide, right, top, high, bottom⟩ := framed
  dsimp only [bgRect, textOrigin, MissesColumn, MissesRow]
  constructor
  · split <;> omega
  · omega

theorem shown_iff (size : TextSize) {box : BoxRect} (framed : Framed frameWidth frameHeight box) :
    0 < (bgRect size box frameWidth frameHeight).width ∧ 0 < (bgRect size box frameWidth frameHeight).height ↔
      ¬Blank size := by
  obtain ⟨left, wide, right, top, high, bottom⟩ := framed
  dsimp only [bgRect, textOrigin, Blank]
  split <;> omega

/-- The background of a label is neutral unless one of the two sizes is halved short. -/
theorem label_neutral_iff {F : Type} (src : DetectResultGroup F) (even : frameWidth % 2 = 0 ∧ frameHeight % 2 = 0)
    (text : List UInt8) (size : TextSize) {det : DetectResult F}
    (mem : det ∈ (buildOverlayGroup src frameWidth frameHeight).results) :
    Neutral text size det.box frameWidth frameHeight ↔
      Blank size ∨ ¬MissesColumn size det.box frameWidth ∧ ¬MissesRow size det.box := by
  have framed := buildOverlayGroup_framed mem
  by_cases blank : Blank size
  · refine iff_of_true (fun bg value drawn => ?_) (.inl blank)
    have hidden := mt (shown_iff size framed).mp (not_not_intro blank)
    unfold drawLabel at drawn
    dsimp only at drawn
    rw [if_pos (by omega)] at drawn
    cases drawn
  · have shown := (shown_iff size framed).mpr blank
    obtain ⟨columns, rows⟩ := bgRect_parity even.1 size framed
    rw [neutral_iff even text size framed shown, columns, rows]
    simp [blank]

end label

theorem label_neutral_iff_labelled :
    Neutral [] ⟨10, 10, 3⟩ ⟨1, 20, 40, 60⟩ 64 64 ↔
      Blank ⟨10, 10, 3⟩ ∨ ¬MissesColumn ⟨10, 10, 3⟩ ⟨1, 20, 40, 60⟩ 64 ∧ ¬MissesRow ⟨10, 10, 3⟩ ⟨1, 20, 40, 60⟩ :=
  @label_neutral_iff 64 64 ℚ labelled (by decide) [] ⟨10, 10, 3⟩ ⟨[], 0, -1, [], ⟨1, 20, 40, 60⟩, 0⟩ List.mem_cons_self

/-- Its last column keeps the colour of the picture. -/
theorem label_chroma_missed :
    ¬∀ det ∈ (buildOverlayGroup labelled 64 64).results, Neutral [] ⟨10, 10, 3⟩ det.box 64 64 := by
  intro all
  have neutral := all ⟨[], 0, -1, [], ⟨1, 20, 40, 60⟩, 0⟩ List.mem_cons_self
  have framed : Framed 64 64 ⟨1, 20, 40, 60⟩ := by constructor <;> decide
  have columns := ((neutral_iff (by decide) [] ⟨10, 10, 3⟩ framed (by decide)).mp neutral).1
  exact columns (by decide)

end Yolov5Rknn.RkYolo
