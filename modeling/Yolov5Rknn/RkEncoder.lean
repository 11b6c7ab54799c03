import Yolov5Rknn.Logic.Ledger
import Yolov5Rknn.Logic.Transition

/-! What `RkEncoder` (RkEncoder.cc) takes from the MPP library and gives back. A frame,
a packet or a buffer is a resource of the ledger, and a null handle is none. -/

namespace Yolov5Rknn.RkEncoder
open Transition

inductive Kind where
  | frame
  | packet
  | buffer
  deriving DecidableEq

/-- How the MPP calls made inside one call end. A packet that is not there is `some false`. -/
structure Outcomes where
  bufferCommit : Bool
  bufferGet : Bool
  frameInit : Bool
  encodePutFrame : Bool
  encodeGetPacket : Option Bool
  headerBufferGet : Bool
  packetInitWithBuffer : Bool
  getHdrSync : Bool
  lenExtraInfo : Nat
  lenVideoData : Nat
  deriving DecidableEq

/-- The members with handles; `dmaGroup` lists the descriptors committed to the external group. -/
structure Encoder where
  frame : Option (Resource Kind)
  packet : Option (Resource Kind)
  dmaGroup : Option (List Int)
  ledger : Ledger Kind
  deriving DecidableEq

/-- The state that `init` leaves; `dmaGroup` is false where there is no external group. -/
def create (dmaGroup : Bool) : Encoder where
  frame := none
  packet := none
  dmaGroup := if dmaGroup then some [] else none
  ledger := ⟨0, []⟩

namespace Encoder

/-- `mpp_frame_init(&m_frame)` that succeeds. -/
def initFrame (encoder : Encoder) : Encoder :=
  { encoder with
    frame := some (encoder.ledger.fresh .frame)
    ledger := encoder.ledger.acquire .frame }

/-- `mpp_frame_deinit(&m_frame)`. -/
def deinitFrame (encoder : Encoder) : Encoder :=
  { encoder with frame := none, ledger := encoder.ledger.releaseHandle encoder.frame }

/-- `encode_get_packet(m_contex, &m_packet)` that succeeds. -/
def getPacket (given : Bool) (encoder : Encoder) : Encoder :=
  { encoder with
    packet := (encoder.ledger.request .packet given).1
    ledger := (encoder.ledger.request .packet given).2 }

/-- `mpp_packet_deinit(&m_packet)`. -/
def deinitPacket (encoder : Encoder) : Encoder :=
  { encoder with packet := none, ledger := encoder.ledger.releaseHandle encoder.packet }

/-- `mpp_buffer_group_clear(m_dma_group)`. -/
def clearGroup (encoder : Encoder) : Encoder := { encoder with dmaGroup := encoder.dmaGroup.map fun _ => [] }

end Encoder

/-- `outbuf` is false for a null pointer. -/
def copyPacketToBuffer (calls : Outcomes) (outbuf : Bool) (encoder : Encoder) : Int × Encoder :=
  if encoder.packet = none ∨ outbuf = false then (-1, encoder)
  else
    let (buffer, ledger) := encoder.ledger.request .buffer calls.headerBufferGet
    let (extraInfo, ledger) := ledger.request .packet calls.packetInitWithBuffer
    if calls.getHdrSync = false then
      (-1, { encoder with ledger := (ledger.releaseHandle extraInfo).releaseHandle buffer })
    else
      let encoder := { encoder with ledger := (ledger.releaseHandle extraInfo).releaseHandle buffer }
      ((calls.lenExtraInfo + calls.lenVideoData : Nat), encoder.deinitPacket)

def encode (calls : Outcomes) (outbuf : Bool) (encoder : Encoder) : Int × Encoder :=
  if calls.frameInit = false then (-1, encoder)
  else
    let encoder := encoder.initFrame
    if calls.encodePutFrame = false then (-1, encoder)
    else
      match calls.encodeGetPacket with
      | none => (-1, encoder.deinitFrame)
      | some given =>
        let (ret, encoder) := copyPacketToBuffer calls outbuf (encoder.getPacket given)
        (ret, encoder.deinitFrame)

/-- `encode_dmabuf`, after its check of the arguments and of the group. -/
def encodeCommitted (calls : Outcomes) (dmaFd : Int) (encoder : Encoder) : Int × Encoder :=
  if calls.bufferCommit = false then (-1, encoder)
  else
    let encoder := { encoder with dmaGroup := encoder.dmaGroup.map fun committed => committed ++ [dmaFd] }
    let (extBuffer, ledger) := encoder.ledger.request .buffer calls.bufferGet
    let encoder := { encoder with ledger }
    -- the end of every path that has the buffer
    let putBuffer (encoder : Encoder) : Encoder :=
      { encoder with ledger := encoder.ledger.releaseHandle extBuffer }.clearGroup
    if calls.bufferGet = false then (-1, encoder.clearGroup)
    else if calls.frameInit = false then (-1, putBuffer encoder)
    else
      let encoder := encoder.initFrame
      if calls.encodePutFrame = false then (-1, putBuffer encoder.deinitFrame)
      else
        match calls.encodeGetPacket with
        | none => (-1, putBuffer encoder.deinitFrame)
        | some given =>
          let (len, encoder) := copyPacketToBuffer calls true (encoder.getPacket given)
          (len, putBuffer encoder.deinitFrame)

/-- `dmaPtr` and `outbuf` are false for null pointers. -/
def encodeDmabuf (calls : Outcomes) (dmaFd : Int) (dmaPtr outbuf : Bool) (encoder : Encoder) : Int × Encoder :=
  if dmaFd < 0 ∨ dmaPtr = false ∨ outbuf = false ∨ encoder.dmaGroup = none then (-1, encoder)
  else encodeCommitted calls dmaFd encoder

inductive Call where
  | encode (calls : Outcomes) (outbuf : Bool)
  | encodeDmabuf (calls : Outcomes) (dmaFd : Int) (dmaPtr outbuf : Bool)
  deriving DecidableEq

def step : Step Call Encoder
  | .encode calls outbuf, encoder => some (encode calls outbuf encoder).2
  | .encodeDmabuf calls dmaFd dmaPtr outbuf, encoder => some (encodeDmabuf calls dmaFd dmaPtr outbuf encoder).2

end Yolov5Rknn.RkEncoder
