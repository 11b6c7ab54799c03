import Yolov5Rknn.ByteTrackerWrapper

/-! The overlay of a worker (RkYolo.cc): the calls `RenderOverlay` makes that write to
the output buffer, in their order. The buffer is `m_outbuf` and holds the Y plane,
the U plane and the V plane. -/

namespace Yolov5Rknn.RkYolo
open ByteTrackerWrapper (BoxRect TrackPoint DetectResult DetectResultGroup objNumbMaxSize)

/-- `im_rect` and `cv::Rect`. -/
structure Rect where
  x : Int
  y : Int
  width : Int
  height : Int
  deriving DecidableEq

/-- What `cv::getTextSize` gives. -/
structure TextSize where
  width : Int
  height : Int
  baseline : Int
  deriving DecidableEq

/-- The two members that say where the overlay goes; `outbuf` is false for a null pointer. -/
structure Output where
  outbuf : Bool
  outfd : Int
  deriving DecidableEq

/-- `wrapbuffer_fd` or `wrapbuffer_virtualaddr`. -/
structure RgaBuffer where
  fd : Option Int
  width : Int
  height : Int
  deriving DecidableEq

inductive Plane where
  | y
  | u
  | v
  deriving DecidableEq

/-- A call of `memset`; `start` counts from `m_outbuf`. -/
structure Memset where
  start : Int
  value : UInt8
  length : Int
  deriving DecidableEq

inductive Draw where
  | imfill (dst : RgaBuffer) (rect : Rect) (color : Int)
  | dmaBufSync (start : Bool)
  | line (plane : Plane) (p0 p1 : TrackPoint) (value : UInt8) (thickness : Int)
  | circle (plane : Plane) (center : TrackPoint) (radius : Int) (value : UInt8)
  /-- A filled `cv::rectangle` on the Y plane. -/
  | rectangle (rect : Rect) (value : UInt8)
  /-- A line of `fillPlaneRect`, called for the plane. -/
  | memset (plane : Plane) (memset : Memset)
  /-- `cv::putText` on the Y plane. -/
  | putText (text : List UInt8) (org : TrackPoint) (value : UInt8)

/-- `snprintf` with its two formats, and `cv::getTextSize`. -/
structure Calls (F : Type) where
  trackedText : Int → List UInt8 → F → List UInt8
  plainText : List UInt8 → F → List UInt8
  getTextSize : List UInt8 → TextSize

section boxes

/-- The box `BuildOverlayGroup` writes, or none for one it passes over. -/
def overlayBox (frameWidth frameHeight : Int) (box : BoxRect) : Option BoxRect :=
  let x1 := max 0 (min (frameWidth - 1) box.left)
  let y1 := max 0 (min (frameHeight - 1) box.top)
  let x2 := max 0 (min frameWidth box.right)
  let y2 := max 0 (min frameHeight box.bottom)
  if x2 ≤ x1 ∨ y2 ≤ y1 then none else some { left := x1, right := x2, top := y1, bottom := y2 }

variable {F : Type}

/-- The loop ends when the group is full. -/
def buildOverlayGroup (src : DetectResultGroup F) (frameWidth frameHeight : Int) : DetectResultGroup F where
  id := src.id
  results := (src.results.filterMap fun det =>
    (overlayBox frameWidth frameHeight det.box).map fun box => { det with box }).take objNumbMaxSize

/-- The lines of a box in `DrawBoxesWithRga`: top, bottom, left and right. -/
def borders (box : BoxRect) : List Rect :=
  let thickness := 2
  let x1 := box.left
  let y1 := box.top
  let x2 := box.right
  let y2 := box.bottom
  if x2 ≤ x1 ∨ y2 ≤ y1 then []
  else
    [ { x := x1, y := y1, width := x2 - x1, height := min thickness (y2 - y1) },
      { x := x1, y := max y1 (y2 - thickness), width := x2 - x1, height := min thickness (y2 - y1) },
      { x := x1, y := y1, width := min thickness (x2 - x1), height := y2 - y1 },
      { x := max x1 (x2 - thickness), y := y1, width := min thickness (x2 - x1), height := y2 - y1 } ].filter
      fun rect => 0 < rect.width ∧ 0 < rect.height

def drawBoxesWithRga (output : Output) (group : DetectResultGroup F) (frameWidth frameHeight : Int) :
    Int × List Draw :=
  if output.outbuf = false ∨ frameWidth ≤ 0 ∨ frameHeight ≤ 0 then (-1, [])
  else
    let dst := ⟨if output.outfd > 0 then some output.outfd else none, frameWidth, frameHeight⟩
    (0, group.results.flatMap fun det => (borders det.box).map fun rect => .imfill dst rect 0x00FF00)

end boxes

/-- `fillPlaneRect` for a plane that starts at `plane`. -/
def fillPlaneRect (plane stride planeWidth planeHeight : Int) (rect : Rect) (value : UInt8) : List Memset :=
  if stride ≤ 0 ∨ planeWidth ≤ 0 ∨ planeHeight ≤ 0 then []
  else
    let x0 := max 0 rect.x
    let y0 := max 0 rect.y
    let x1 := min planeWidth (rect.x + rect.width)
    let y1 := min planeHeight (rect.y + rect.height)
    if x1 ≤ x0 ∨ y1 ≤ y0 then []
    else (List.range (y1 - y0).toNat).map fun (row : Nat) =>
      { start := plane + (y0 + row) * stride + x0, value, length := x1 - x0 }

/-- `u_ptr` and `v_ptr`, counted from `m_outbuf`. -/
def uPtr (frameWidth frameHeight : Int) : Int := frameWidth * frameHeight

def vPtr (frameWidth frameHeight : Int) : Int :=
  uPtr frameWidth frameHeight + frameWidth.tdiv 2 * frameHeight.tdiv 2

/-- The `x` and `y` of a label. -/
def textOrigin (size : TextSize) (box : BoxRect) (frameWidth : Int) : TrackPoint :=
  let baseline := size.baseline + 2
  { x := if box.left + size.width + 4 > frameWidth then max 0 (frameWidth - size.width - 4) else box.left
    y := max (size.height + baseline + 2) (box.top - 6) }

def bgRect (size : TextSize) (box : BoxRect) (frameWidth frameHeight : Int) : Rect :=
  let baseline := size.baseline + 2
  let origin := textOrigin size box frameWidth
  { x := origin.x
    y := max 0 (origin.y - size.height - baseline - 2)
    width := min (frameWidth - origin.x) (size.width + 4)
    height := min (frameHeight - max 0 (origin.y - size.height - baseline - 2)) (size.height + baseline + 4) }

def uvRect (bgRect : Rect) : Rect where
  x := bgRect.x.tdiv 2
  y := bgRect.y.tdiv 2
  width := (bgRect.width + 1).tdiv 2
  height := (bgRect.height + 1).tdiv 2

/-- The calls of `fillPlaneRect` for a background. -/
def fillChroma (plane : Int) (bgRect : Rect) (frameWidth frameHeight : Int) : List Memset :=
  fillPlaneRect plane (frameWidth.tdiv 2) (frameWidth.tdiv 2) (frameHeight.tdiv 2) (uvRect bgRect) 128

/-- The background and the text of a label. -/
def drawLabel (text : List UInt8) (size : TextSize) (box : BoxRect) (frameWidth frameHeight : Int) : List Draw :=
  let origin := textOrigin size box frameWidth
  let bg := bgRect size box frameWidth frameHeight
  if bg.width ≤ 0 ∨ bg.height ≤ 0 then []
  else
    .rectangle bg 20 ::
      ((fillChroma (uPtr frameWidth frameHeight) bg frameWidth frameHeight).map (.memset .u) ++
        (fillChroma (vPtr frameWidth frameHeight) bg frameWidth frameHeight).map (.memset .v) ++
        [.putText text { x := origin.x + 2, y := origin.y - 2 } 235])

/-- A point of the luma plane on the chroma planes. -/
def halved (point : TrackPoint) : TrackPoint := { x := point.x.tdiv 2, y := point.y.tdiv 2 }

variable {F : Type} [Arithmetic F] (calls : Calls F)

def drawTrajectory (det : DetectResult F) : List Draw :=
  if 0 ≤ det.trackId ∧ 1 < det.trajectory.length then
    ((det.trajectory.zip det.trajectory.tail).flatMap fun (p0, p1) =>
      [.line .y p0 p1 150 2, .line .u (halved p0) (halved p1) 44 1, .line .v (halved p0) (halved p1) 21 1]) ++
    (det.trajectory.getLast?.toList.flatMap fun lastPoint =>
      [.circle .y lastPoint 3 150, .circle .u (halved lastPoint) 2 44, .circle .v (halved lastPoint) 2 21])
  else []

def text (det : DetectResult F) : List UInt8 :=
  if 0 ≤ det.trackId then calls.trackedText det.trackId det.name (det.prop * 100)
  else calls.plainText det.name (det.prop * 100)

def drawTextWithOpenCv (output : Output) (group : DetectResultGroup F) (frameWidth frameHeight : Int) :
    Int × List Draw :=
  if output.outbuf = false ∨ frameWidth ≤ 0 ∨ frameHeight ≤ 0 then (-1, [])
  else if group.results.length ≤ 0 then (0, [])
  else
    let sync start := if output.outfd > 0 then [Draw.dmaBufSync start] else []
    let labels := group.results.flatMap fun det =>
      drawTrajectory det ++
        drawLabel (text calls det) (calls.getTextSize (text calls det)) det.box frameWidth frameHeight
    (0, sync true ++ labels ++ sync false)

/-- What `RenderOverlay` returns and what it draws. -/
def renderOverlay (output : Output) (group : DetectResultGroup F) (frameWidth frameHeight : Int) :
    Int × List Draw :=
  let overlayGroup := buildOverlayGroup group frameWidth frameHeight
  let (ret, boxes) := drawBoxesWithRga output overlayGroup frameWidth frameHeight
  if ret < 0 then (ret, boxes)
  else
    let (ret, labels) := drawTextWithOpenCv calls output overlayGroup frameWidth frameHeight
    if ret < 0 then (ret, boxes ++ labels) else (0, boxes ++ labels)

end Yolov5Rknn.RkYolo
