import Yolov5Rknn.STrack
import Yolov5Rknn.Logic.Pointers
import Yolov5Rknn.Logic.Transition

/-! `BYTETracker` (BYTETracker.h, BYTETracker.cpp). A pointer to a track is a
position in `tracked_stracks` or in `lost_stracks`, which keep their size while
pointers exist. -/

namespace Yolov5Rknn.BYTETracker
open Matching Pointers Transition

structure Object (F : Type) where
  x : F
  y : F
  width : F
  height : F
  label : Int
  prob : F
  name : List UInt8

/-- An element of `detections`, with the position of its object for the proofs. -/
structure Detection (F : Type) where
  object : Nat
  strack : STrack F

structure Tracker (F : Type) where
  trackThresh : F
  highThresh : F
  matchThresh : F
  frameId : Int
  maxTimeLost : Int
  trackedStracks : List (STrack F)
  lostStracks : List (STrack F)
  removedStracks : List (STrack F)

/-- A `push_back` on one of the local vectors `activated_stracks`, `refind_stracks`,
`lost_stracks` and `removed_stracks`; `object` is the object the track was matched
with. -/
inductive Pushed (F : Type) where
  | activated (track : STrack F) (object : Nat)
  | refind (track : STrack F) (object : Nat)
  | lost (track : STrack F)
  | removed (track : STrack F)

namespace Pushed

variable {F : Type}

def activatedStracks (pushed : List (Pushed F)) : List (STrack F) :=
  pushed.filterMap fun
    | .activated track _ => some track
    | _ => none

def refindStracks (pushed : List (Pushed F)) : List (STrack F) :=
  pushed.filterMap fun
    | .refind track _ => some track
    | _ => none

def lostStracks (pushed : List (Pushed F)) : List (STrack F) :=
  pushed.filterMap fun
    | .lost track => some track
    | _ => none

def removedStracks (pushed : List (Pushed F)) : List (STrack F) :=
  pushed.filterMap fun
    | .removed track => some track
    | _ => none

/-- The ids of the tracks matched by the loops, each with its object. -/
def used (pushed : List (Pushed F)) : List (Int × Nat) :=
  pushed.filterMap fun
    | .activated track object | .refind track object => some (track.trackId, object)
    | _ => none

end Pushed

/-- Both overloads of `joint_stracks`; the keys of `res` are the ids in `exists`. -/
def jointStracks {α κ : Type} [DecidableEq κ] (trackId : α → κ) (tlista tlistb : List α) : List α :=
  tlistb.foldl (fun res track => if trackId track ∈ res.map trackId then res else res ++ [track]) tlista

def ids {F : Type} (stracks : List (STrack F)) : List Int := stracks.map STrack.trackId

def subStracks {F : Type} (tlista tlistb : List (STrack F)) : List (STrack F) :=
  tlista.filter fun track => track.trackId ∉ ids tlistb

variable {F : Type} [Arithmetic F]

/-- The constructor. -/
def create (calls : Calls F) (frameRate trackBuffer : Int) (trackThresh highThresh matchThresh : F) :
    Tracker F where
  trackThresh
  highThresh
  matchThresh
  frameId := 0
  maxTimeLost := calls.toInt ((frameRate : F) / 30 * (trackBuffer : F))
  trackedStracks := []
  lostStracks := []
  removedStracks := []

/-- The track built from an object. -/
def Object.toSTrack (object : Object F) : STrack F :=
  let tlbr := ![object.x, object.y, object.x + object.width, object.y + object.height]
  STrack.create (STrack.tlbrToTlwh tlbr) object.prob object.name object.label

def detect (objects : List (Object F)) : List (Detection F) :=
  objects.zipIdx.map fun (object, position) => ⟨position, object.toSTrack⟩

/-- `std::min` and `std::max`. -/
def least (a b : F) : F := if b < a then b else a

def greatest (a b : F) : F := if a < b then b else a

/-- The entry of `ious` for one box of each list. -/
def iou (a b : Fin 4 → F) : F :=
  let boxArea := (b 2 - b 0 + 1) * (b 3 - b 1 + 1)
  let iw := least (a 2) (b 2) - greatest (a 0) (b 0) + 1
  if 0 < iw then
    let ih := least (a 3) (b 3) - greatest (a 1) (b 1) + 1
    if 0 < ih then
      let ua := (a 2 - a 0 + 1) * (a 3 - a 1 + 1) + boxArea - iw * ih
      iw * ih / ua
    else 0
  else 0

def ious (atlbrs btlbrs : List (Fin 4 → F)) : List (List F) :=
  if atlbrs.isEmpty || btlbrs.isEmpty then [] else atlbrs.map fun a => btlbrs.map fun b => iou a b

/-- Both overloads of `iou_distance`. -/
def iouDistance (atracks btracks : List (STrack F)) : List (List F) :=
  (ious (atracks.map STrack.tlbr) (btracks.map STrack.tlbr)).map fun row => row.map (1 - ·)

/-- `pairs` of `remove_duplicate_stracks`. -/
def duplicatePairs (stracksa stracksb : List (STrack F)) : List (Nat × Nat) :=
  (iouDistance stracksa stracksb).zipIdx.flatMap fun (row, i) =>
    row.zipIdx.filterMap fun (dist, j) => if dist < 15 / 100 then some (i, j) else none

/-- `timep > timeq` for one of the pairs. -/
def outlives (stracksa stracksb : List (STrack F)) (pair : Nat × Nat) : Bool :=
  match stracksa[pair.1]?, stracksb[pair.2]? with
  | some p, some q => p.frameId - p.startFrame > q.frameId - q.startFrame
  | _, _ => false

/-- The elements whose position is not in `dup`. -/
def dropPositions {α : Type} (dup : List Nat) (items : List α) : List α :=
  (items.zipIdx.filter fun item => item.2 ∉ dup).map Prod.fst

def removeDuplicateStracks (stracksa stracksb : List (STrack F)) : List (STrack F) × List (STrack F) :=
  let pairs := duplicatePairs stracksa stracksb
  let dupb := (pairs.filter fun pair => outlives stracksa stracksb pair).map Prod.snd
  let dupa := (pairs.filter fun pair => !outlives stracksa stracksb pair).map Prod.fst
  (dropPositions dupa stracksa, dropPositions dupb stracksb)

/-- The tracks behind pointers. -/
def deref (store : Vectors (STrack F)) (pointers : List Pointer) : List (STrack F) :=
  pointers.filterMap store.get?

/-- The outcome of one round of matching. -/
structure Association (F : Type) where
  matched : List (Pointer × Detection F)
  uTrack : List Pointer
  uDetection : List (Detection F)

/-- `iou_distance` and `linear_assignment` on the tracks behind `rows`. -/
def associate (calls : Calls F) (thresh : F) (store : Vectors (STrack F)) (rows : List Pointer)
    (detections : List (Detection F)) : Association F :=
  let dists := iouDistance (deref store rows) (detections.map Detection.strack)
  let assignment := calls.linearAssignment dists rows.length detections.length thresh
  { matched := pairs rows detections assignment.matched
    uTrack := pick rows assignment.unmatchedRows
    uDetection := pick detections assignment.unmatchedCols }

/-- `multi_predict` on one pointer of the pool. -/
def predictTurn (pointer : Pointer) : Visit (STrack F) (Pushed F) :=
  ⟨pointer, fun track => (track.predict, [])⟩

/-- The body of the loops over `matches` in the first two rounds. -/
def matchTurn (calls : Calls F) (frameId : Int) (pair : Pointer × Detection F) :
    Visit (STrack F) (Pushed F) :=
  ⟨pair.1, fun track =>
    if track.state = .tracked then
      let track := track.update calls pair.2.strack frameId
      (track, [.activated track pair.2.object])
    else
      let track := track.reActivate calls pair.2.strack frameId
      (track, [.refind track pair.2.object])⟩

/-- The body of the loop over `u_track` after the second round. -/
def lostTurn (pointer : Pointer) : Visit (STrack F) (Pushed F) :=
  ⟨pointer, fun track =>
    if track.state ≠ .lost then (track.markLost, [.lost track.markLost]) else (track, [])⟩

/-- The bodies of the two loops over `unconfirmed`. -/
def confirmTurn (calls : Calls F) (frameId : Int) (pair : Pointer × Detection F) :
    Visit (STrack F) (Pushed F) :=
  ⟨pair.1, fun track =>
    let track := track.update calls pair.2.strack frameId
    (track, [.activated track pair.2.object])⟩

def removeTurn (pointer : Pointer) : Visit (STrack F) (Pushed F) :=
  ⟨pointer, fun track => (track.markRemoved, [.removed track.markRemoved])⟩

abbrev Work (F : Type) := Vectors (STrack F) × List (Pushed F)

def Tracker.store (tracker : Tracker F) : Vectors (STrack F) :=
  ⟨tracker.trackedStracks, tracker.lostStracks⟩

/-- `tracked_stracks_ptr`, or `unconfirmed` for the tracks not activated. -/
def Tracker.pointers (tracker : Tracker F) (activated : Bool) : List Pointer :=
  (lefts tracker.trackedStracks.length).filter fun pointer =>
    (tracker.store.get? pointer).any fun track => track.isActivated == activated

/-- `strack_pool`. -/
def Tracker.pool (tracker : Tracker F) : List Pointer :=
  jointStracks (fun pointer => (tracker.store.get? pointer).map STrack.trackId)
    (tracker.pointers true) (rights tracker.lostStracks.length)

def Tracker.predicted (tracker : Tracker F) : Vectors (STrack F) :=
  (visitAll (tracker.pool.map (predictTurn : _ → Visit (STrack F) (Pushed F))) (tracker.store, [])).1

section rounds

variable (calls : Calls F) (objects : List (Object F)) (tracker : Tracker F)

/-- `frame_id` after the increment. -/
def Tracker.now : Int := tracker.frameId + 1

def firstRound : Association F :=
  associate calls tracker.matchThresh tracker.predicted tracker.pool
    ((detect objects).filter fun detection => tracker.trackThresh ≤ detection.strack.score)

def afterFirst : Work F :=
  visitAll ((firstRound calls objects tracker).matched.map (matchTurn calls tracker.now))
    (tracker.predicted, [])

def rTrackedStracks : List Pointer :=
  (firstRound calls objects tracker).uTrack.filter fun pointer =>
    ((afterFirst calls objects tracker).1.get? pointer).any fun track => track.state = .tracked

def secondRound : Association F :=
  associate calls (1 / 2) (afterFirst calls objects tracker).1 (rTrackedStracks calls objects tracker)
    ((detect objects).filter fun detection => ¬tracker.trackThresh ≤ detection.strack.score)

def afterSecond : Work F :=
  visitAll ((secondRound calls objects tracker).uTrack.map lostTurn)
    (visitAll ((secondRound calls objects tracker).matched.map (matchTurn calls tracker.now))
      (afterFirst calls objects tracker))

def thirdRound : Association F :=
  associate calls (7 / 10) (afterSecond calls objects tracker).1 (tracker.pointers false)
    (firstRound calls objects tracker).uDetection

def afterThird : Work F :=
  visitAll ((thirdRound calls objects tracker).uTrack.map removeTurn)
    (visitAll ((thirdRound calls objects tracker).matched.map (confirmTurn calls tracker.now))
      (afterSecond calls objects tracker))

end rounds

/-- The loop that activates the detections left over, each with its object. `count`
is `_count` of `next_id`. -/
def newTracks (highThresh : F) (frameId : Int) : List (Detection F) → Int → List (STrack F × Nat) × Int
  | [], count => ([], count)
  | detection :: rest, count =>
    if detection.strack.score < highThresh then newTracks highThresh frameId rest count
    else
      let (created, final) := newTracks highThresh frameId rest (count + 1)
      ((detection.strack.activate frameId (count + 1), detection.object) :: created, final)

/-- The test of the expiry scan. -/
def Tracker.overdue (tracker : Tracker F) (track : STrack F) : Bool :=
  tracker.now - track.endFrame > tracker.maxTimeLost

def center (calls : Calls F) (tlwh : Fin 4 → F) : CenterXY where
  x := calls.toInt (tlwh 0 + tlwh 2 / 2)
  y := calls.toInt (tlwh 1 + 2 * tlwh 3 / 3)

/-- The output loop on the first frame. -/
def startCenter (calls : Calls F) (numFrames : Int) (track : STrack F) : STrack F :=
  if numFrames = 1 then { track with lastCenter := center calls track.tlwh } else track

/-- The output loop once in `fps` frames. -/
def measure (calls : Calls F) (fps : Int) (track : STrack F) : STrack F :=
  let nowCenter := center calls track.tlwh
  let speedX : F := (|nowCenter.x - track.lastCenter.x| : Int)
  let speedY : F := (|nowCenter.y - track.lastCenter.y| : Int)
  let speed1s := calls.sqrt (speedX * speedX + speedY * speedY)
  let speed1m := (track.speedAll + speed1s) / (fps : F)
  let speed1m := if speed1m < 1 / 2 then 0 else speed1m
  let liveness := 4 / 5 * track.liveness +
    (1 - 4 / 5) * (2 / 5 * (track.label : F) + 3 / 5 * speed1m / 2)
  { track with
    nowCenter
    lastCenter := nowCenter
    speed1s
    speed1m
    speedAll := 0
    liveness := if 1 < liveness then 1 else liveness }

/-- An activated track in the output loop. -/
def refresh (calls : Calls F) (fps numFrames : Int) (track : STrack F) : STrack F :=
  if numFrames.tmod fps = 0 then measure calls fps (startCenter calls numFrames track)
  else startCenter calls numFrames track

/-- What one call of `update` does. `jointed` and `subtracted` are `tracked_stracks`
and `lost_stracks` before `remove_duplicate_stracks`, `expired` the tracks marked
by the expiry scan. -/
structure Call (F : Type) where
  pool : List (STrack F)
  pushed : List (Pushed F)
  created : List (STrack F × Nat)
  expired : List (STrack F)
  jointed : List (STrack F)
  subtracted : List (STrack F)
  tracker : Tracker F
  count : Int
  output : List (STrack F)

/-- The tracks the call marks removed, in the order of `removed_stracks`. -/
def Call.removedStracks (call : Call F) : List (STrack F) :=
  Pushed.removedStracks call.pushed ++ call.expired

/-- The uses of objects in the call: the id of the track and the object. -/
def Call.used (call : Call F) : List (Int × Nat) :=
  Pushed.used call.pushed ++ call.created.map fun new => (new.1.trackId, new.2)

def update (calls : Calls F) (objects : List (Object F)) (fps numFrames : Int) (count : Int)
    (tracker : Tracker F) : Call F :=
  let work := afterThird calls objects tracker
  let (created, count) :=
    newTracks tracker.highThresh tracker.now (thirdRound calls objects tracker).uDetection count
  let expired := (work.1.right.filter tracker.overdue).map STrack.markRemoved
  let lost := work.1.right.map fun track => if tracker.overdue track then track.markRemoved else track
  let swap := work.1.left.filter fun track => track.state = .tracked
  let activated := Pushed.activatedStracks work.2 ++ created.map Prod.fst
  let jointed := jointStracks STrack.trackId swap activated
  let jointed := jointStracks STrack.trackId jointed (Pushed.refindStracks work.2)
  let subtracted := subStracks lost jointed ++ Pushed.lostStracks work.2
  let subtracted := subStracks subtracted tracker.removedStracks
  let (resa, resb) := removeDuplicateStracks jointed subtracted
  let trackedStracks := resa.map fun track =>
    if track.isActivated then refresh calls fps numFrames track else track
  { pool := deref tracker.predicted tracker.pool
    pushed := work.2
    created
    expired
    jointed
    subtracted
    tracker := { tracker with
      frameId := tracker.now
      trackedStracks
      lostStracks := resb
      removedStracks := tracker.removedStracks ++ (Pushed.removedStracks work.2 ++ expired) }
    count
    output := trackedStracks.filter STrack.isActivated }

/-- A tracker of the process with the counter of `next_id`, which it shares with all
others; `issued` records the ids that `next_id` has returned. -/
structure Process (F : Type) where
  tracker : Tracker F
  count : Int
  issued : List Int

/-- A call of `update`, or another tracker takes an id. -/
inductive Event (F : Type) where
  | update (objects : List (Object F)) (fps numFrames : Int)
  | nextId

def step (calls : Calls F) : Step (Event F) (Process F)
  | .update objects fps numFrames, process =>
    let call := update calls objects fps numFrames process.count process.tracker
    some ⟨call.tracker, call.count, process.issued ++ ids (call.created.map Prod.fst)⟩
  | .nextId, process =>
    some { process with
      count := process.count + 1
      issued := process.issued ++ [process.count + 1] }

/-- A tracker no call has been made on. -/
structure Fresh (process : Process F) : Prop where
  frameId : process.tracker.frameId = 0
  trackedStracks : process.tracker.trackedStracks = []
  lostStracks : process.tracker.lostStracks = []
  removedStracks : process.tracker.removedStracks = []
  issued : process.issued = []

end Yolov5Rknn.BYTETracker
