import Yolov5Rknn.Logic.Transition
import Mathlib.Data.List.Basic

/-! `CamFramedSource` (CamFramedSource.cc). The encoder thread calls
`onEncodedData`; the live555 event loop runs everything else. Either thread can
be interrupted between any two accesses to what they share. -/

namespace Yolov5Rknn.CamFramedSource
open Transition

/-- Where the NAL unit starting at `i` has its header byte; `data.length` if no
start code stands there. -/
def nalPos (data : List UInt8) (i : Nat) : Nat :=
  if data[i]? = some 0 ∧ data[i + 1]? = some 0 ∧ data[i + 2]? = some 1 then i + 3
  else if i + 4 < data.length ∧ data[i]? = some 0 ∧ data[i + 1]? = some 0 ∧
      data[i + 2]? = some 0 ∧ data[i + 3]? = some 1 then i + 4
  else data.length

def hasNaluType (data : List UInt8) (targetType : UInt8) : Bool :=
  match data with
  | [] => false
  | first :: _ =>
    (first &&& 0x1f) == targetType ||
      (List.range (data.length - 3)).any fun i =>
        (data[nalPos data i]?).any fun byte => (byte &&& 0x1f) == targetType

/-- An encoded frame; `number` is its position in the encoder's output. -/
structure Frame where
  number : Nat
  data : List UInt8
  deriving DecidableEq

/-- Type 5 is an IDR slice. -/
def Frame.IsIdr (frame : Frame) : Prop := hasNaluType frame.data 5 = true

instance (frame : Frame) : Decidable frame.IsIdr := inferInstanceAs (Decidable (_ = true))

/-- Where the encoder thread stands in `onEncodedData`. -/
inductive Encoder where
  | idle
  /-- About to set `waitForIdr_`, as nobody was awaiting data. -/
  | discarding (frame : Frame)
  | checkingIdr (frame : Frame)
  /-- About to clear `waitForIdr_`. -/
  | clearing (frame : Frame)
  | pushing (frame : Frame)
  | triggering
  deriving DecidableEq

/-- Where the event loop stands. `consumer` is code of the client, which runs as a
loop handler or under `afterGetting`; `delivering` is the entry of `deliverData`,
`popping` its critical section and `copying` what follows. -/
inductive Server where
  | idle
  | consumer
  | stopping
  | checkingEmpty
  | delivering
  | popping
  | copying (encodedData : Frame)
  /-- `front()` was called on an empty vector. -/
  | undefined
  deriving DecidableEq

/-- What the consumer sees. -/
inductive Entry where
  | constructed
  | delivered (frame : Frame)
  | stopped
  deriving DecidableEq

/-- The members of the source and of its base class, the pending flag of
`eventTriggerId` and both threads. `encoded`, `accepted`, `discarded` and `log`
record the past for the proofs. -/
structure State where
  isCurrentlyAwaitingData : Bool
  waitForIdr : Bool
  encodedDataBuffer : List Frame
  triggered : Bool
  maxNaluSizeBytes : Nat
  fMaxSize : Nat
  fFrameSize : Nat
  fNumTruncatedBytes : Nat
  fTo : List UInt8
  encoder : Encoder
  server : Server
  encoded : Nat
  accepted : List Frame
  discarded : List Nat
  log : List Entry
  deriving DecidableEq

/-- The state `createNew` leaves. -/
def createNew : State where
  isCurrentlyAwaitingData := false
  waitForIdr := true
  encodedDataBuffer := []
  triggered := false
  maxNaluSizeBytes := 0
  fMaxSize := 0
  fFrameSize := 0
  fNumTruncatedBytes := 0
  fTo := []
  encoder := .idle
  server := .idle
  encoded := 0
  accepted := []
  discarded := []
  log := [.constructed]

/-- `onEncodedData` up to its check of `isCurrentlyAwaitingData`. -/
def onEncodedData (data : List UInt8) (state : State) : State :=
  let frame := ⟨state.encoded, data⟩
  { state with
    encoded := state.encoded + 1
    encoder := if state.isCurrentlyAwaitingData then .checkingIdr frame else .discarding frame }

/-- The rest of `onEncodedData`, one access at a time. -/
def encoderStep (state : State) : Option State :=
  match state.encoder with
  | .idle => none
  | .discarding frame => some { state with
      waitForIdr := true
      discarded := state.discarded ++ [frame.number]
      encoder := .idle }
  | .checkingIdr frame =>
    if state.waitForIdr then
      if frame.IsIdr then some { state with encoder := .clearing frame }
      else some { state with discarded := state.discarded ++ [frame.number], encoder := .idle }
    else some { state with encoder := .pushing frame }
  | .clearing frame => some { state with waitForIdr := false, encoder := .pushing frame }
  | .pushing frame => some { state with
      encodedDataBuffer := state.encodedDataBuffer ++ [frame]
      accepted := state.accepted ++ [frame]
      encoder := .triggering }
  | .triggering => some { state with triggered := true, encoder := .idle }

/-- The end of `deliverData`: the copy to `fTo` and `afterGetting`, which clears
`isCurrentlyAwaitingData` and calls the consumer. -/
def deliver (encodedData : Frame) (state : State) : State :=
  let size := encodedData.data.length
  let exceeded := size > state.fMaxSize
  let fFrameSize := if exceeded then state.fMaxSize else size
  { state with
    maxNaluSizeBytes := max state.maxNaluSizeBytes size
    fFrameSize
    fNumTruncatedBytes :=
      if exceeded then (size - state.fMaxSize) % 4294967296 else state.fNumTruncatedBytes
    fTo := encodedData.data.take fFrameSize
    isCurrentlyAwaitingData := false
    server := .consumer
    log := state.log ++ [.delivered encodedData] }

/-- `doGetNextFrame`, `deliverData` and `doStopGettingFrames`, one access at a time. -/
def serverStep (state : State) : Option State :=
  match state.server with
  | .checkingEmpty =>
    if state.encodedDataBuffer = [] then some { state with fFrameSize := 0, server := .idle }
    else some { state with server := .delivering }
  | .delivering =>
    if state.isCurrentlyAwaitingData then some { state with server := .popping }
    else some { state with server := .idle }
  | .popping =>
    match state.encodedDataBuffer with
    | frame :: rest => some { state with encodedDataBuffer := rest, server := .copying frame }
    | [] => some { state with server := .undefined }
  | .copying encodedData => some (deliver encodedData state)
  | .stopping => some { state with
      waitForIdr := true
      log := state.log ++ [.stopped]
      server := .consumer }
  | .idle | .consumer | .undefined => none

/-- A frame leaves the encoder, or the encoder thread moves on (`encoder`); the
loop serves the pending trigger (`deliverFrame0`), runs client code (`enter`,
`leave`) or moves on (`server`); client code asks for a frame or stops. -/
inductive Event where
  | onEncodedData (data : List UInt8)
  | encoder
  | deliverFrame0
  | enter
  | leave
  | getNextFrame (maxSize : Nat)
  | stopGettingFrames
  | server
  deriving DecidableEq

/-- `getNextFrame` refuses a second request while one is open and else calls
`doGetNextFrame`; `stopGettingFrames` calls `doStopGettingFrames`; the loop clears
a trigger before it calls `deliverFrame0`. -/
def step : Step Event State
  | .onEncodedData data, state =>
    if state.encoder = .idle then some (onEncodedData data state) else none
  | .encoder, state => encoderStep state
  | .deliverFrame0, state =>
    if state.server = .idle ∧ state.triggered then
      some { state with triggered := false, server := .delivering }
    else none
  | .enter, state => if state.server = .idle then some { state with server := .consumer } else none
  | .leave, state => if state.server = .consumer then some { state with server := .idle } else none
  | .getNextFrame maxSize, state =>
    if state.server = .consumer ∧ ¬state.isCurrentlyAwaitingData then
      some { state with isCurrentlyAwaitingData := true, fMaxSize := maxSize, server := .checkingEmpty }
    else none
  | .stopGettingFrames, state =>
    if state.server = .consumer then
      some { state with isCurrentlyAwaitingData := false, server := .stopping }
    else none
  | .server, state => serverStep state

/-- The frames handed downstream, in order. -/
def delivered (log : List Entry) : List Frame :=
  log.filterMap fun
    | .delivered frame => some frame
    | _ => none

@[simp] theorem delivered_append (first last : List Entry) :
    delivered (first ++ last) = delivered first ++ delivered last :=
  List.filterMap_append

@[simp] theorem delivered_frame (frame : Frame) : delivered [.delivered frame] = [frame] := rfl

@[simp] theorem delivered_stopped : delivered [.stopped] = [] := rfl

/-- The frame `deliverData` holds between the pop and `afterGetting`. -/
def State.held (state : State) : List Frame :=
  match state.server with
  | .copying encodedData => [encodedData]
  | _ => []

end Yolov5Rknn.CamFramedSource
