import Yolov5Rknn.Logic.Ledger

/-! The camera's capture buffers (transcoder.cc): `v4l2_dmabuf_open`, `v4l2_dmabuf_close`
and the parts of `TransCoder::init` and `~TransCoder` that acquire and release them. Descriptors and
mappings are resources of the ledger; -1, a null pointer and `MAP_FAILED` are none. -/

namespace Yolov5Rknn.V4l2Dmabuf

inductive Kind where
  | descriptor
  | mapping
  deriving DecidableEq

/-- What `VIDIOC_QUERYCAP` and `VIDIOC_S_FMT` fill in. -/
structure Capability where
  capabilities : UInt32
  deviceCaps : UInt32

structure Format where
  width : UInt32
  height : UInt32
  pixelformat : UInt32
  sizeimage : UInt32
  numPlanes : UInt32

/-- How the system calls of one `dma_buf_alloc` end. -/
structure Allocation where
  openHeap : Bool
  heapAlloc : Bool
  mmap : Bool

/-- How the system calls of one `v4l2_dmabuf_open` end; those of the loop by its counter. -/
structure Answers where
  openDevice : Bool
  queryCap : Option Capability
  sFmt : Option Format
  reqBufs : Option UInt32
  allocation : Nat → Allocation
  qbuf : Nat → Bool
  streamOn : Bool

/-- The resources of the process, and the requests `VIDIOC_QBUF` that were granted: the device,
the index and the descriptor of the buffer. -/
structure System where
  ledger : Ledger Kind
  queued : List (Option (Resource Kind) × Int × Option (Resource Kind))

structure DmaBuffer where
  fd : Option (Resource Kind) := none
  va : Option (Resource Kind) := none
  size : Nat := 0

structure Capture where
  fd : Option (Resource Kind) := none
  streaming : Bool := false
  width : Int := 0
  height : Int := 0
  pixfmt : UInt32 := 0
  bufType : Int := 0
  mplane : Bool := false
  numPlanes : Int := 0
  plane0Size : Nat := 0
  buffers : List DmaBuffer := []

/-- `dma_buf_alloc`: the descriptor and the mapping of a buffer. -/
def dmaBufAlloc (calls : Allocation) (ledger : Ledger Kind) :
    Option (Resource Kind × Resource Kind) × Ledger Kind :=
  if calls.openHeap = false then (none, ledger)
  else
    let heapFd := ledger.fresh .descriptor
    let ledger := ledger.acquire .descriptor
    if calls.heapAlloc = false then (none, ledger.release heapFd)
    else
      let fd := ledger.fresh .descriptor
      let ledger := (ledger.acquire .descriptor).release heapFd
      if calls.mmap = false then (none, ledger.release fd)
      else (some (fd, ledger.fresh .mapping), ledger.acquire .mapping)

/-- `dma_buf_free`. -/
def dmaBufFree (ledger : Ledger Kind) (buffer : DmaBuffer) : Ledger Kind :=
  (ledger.releaseHandle buffer.va).releaseHandle buffer.fd

def v4l2DmabufClose (cap : Capture) (system : System) : Capture × System :=
  ({ cap with fd := none, streaming := false, buffers := [] },
    { system with ledger := cap.buffers.foldl dmaBufFree (system.ledger.releaseHandle cap.fd) })

/-- The conversion of an unsigned number to `int`. -/
def toInt (n : Nat) : Int := (n : Int).bmod 4294967296

/-- `v4l2_dmabuf_qbuf` returns 0. -/
def v4l2DmabufQbuf (granted : Bool) (cap : Capture) (index : Int) (system : System) : Bool × System :=
  if cap.fd = none ∨ index < 0 ∨ toInt cap.buffers.length ≤ index ∨ granted = false then (false, system)
  else
    (true, { system with
      queued := system.queued ++ [(cap.fd, index, cap.buffers[index.toNat]?.bind DmaBuffer.fd)] })

/-- The loop over the buffers from `i` on. -/
def openBuffers (answers : Answers) : Nat → Nat → Capture → System → Except String Unit × Capture × System
  | 0, _, out, system => (.ok (), out, system)
  | more + 1, i, out, system =>
    let (allocated, ledger) := dmaBufAlloc (answers.allocation i) system.ledger
    let system := { system with ledger }
    match allocated with
    | none =>
      let out := { out with buffers := out.buffers.set i { size := out.plane0Size } }
      (.error "dma_buf_alloc failed", v4l2DmabufClose out system)
    | some (fd, va) =>
      let out := { out with buffers := out.buffers.set i { fd, va, size := out.plane0Size } }
      let (queued, system) := v4l2DmabufQbuf (answers.qbuf i) out (toInt i) system
      if queued = false then (.error "VIDIOC_QBUF failed", v4l2DmabufClose out system)
      else openBuffers answers more (i + 1) out system

/-- The type of buffers and whether it has planes. -/
def bufType (caps : UInt32) : Option (Int × Bool) :=
  if caps &&& 0x1000 ≠ 0 then some (9, true)
  else if caps &&& 0x1 ≠ 0 then some (1, false)
  else none

/-- `V4L2_PIX_FMT_YUYV`. -/
def yuyv : UInt32 := 0x56595559

def fourccToString (v : UInt32) : String :=
  String.ofList ([0, 8, 16, 24].map fun shift => Char.ofNat (v.toNat / 2 ^ shift % 256))

/-- The checks of the device before it is asked for buffers; `VIDIOC_S_PARM` may fail. -/
def negotiate (answers : Answers) : Except String (Int × Bool × Format) :=
  match answers.queryCap with
  | none => .error "VIDIOC_QUERYCAP failed"
  | some cap =>
    let caps := if cap.capabilities &&& 0x80000000 ≠ 0 then cap.deviceCaps else cap.capabilities
    if caps &&& 0x04000000 = 0 then .error "device does not support streaming"
    else
      match bufType caps, answers.sFmt with
      | none, _ => .error "device has no VIDEO_CAPTURE capability"
      | some _, none => .error "VIDIOC_S_FMT failed"
      | some (bufType, mplane), some fmt =>
        if fmt.pixelformat ≠ yuyv then
          .error ("camera returned unsupported pixfmt=" ++ fourccToString fmt.pixelformat)
        else .ok (bufType, mplane, fmt)

/-- What is stored before the loop. -/
def prepared (fd : Resource Kind) (bufType : Int) (mplane : Bool) (fmt : Format) (count : UInt32) : Capture where
  fd := some fd
  bufType
  mplane
  width := toInt fmt.width.toNat
  height := toInt fmt.height.toNat
  pixfmt := fmt.pixelformat
  numPlanes := if mplane then toInt fmt.numPlanes.toNat else 1
  plane0Size := (max fmt.sizeimage (fmt.width * fmt.height * 2)).toNat
  buffers := List.replicate count.toNat {}

/-- The end of `v4l2_dmabuf_open`, with the buffers granted. -/
def startCapture (answers : Answers) (out : Capture) (system : System) : Except String Unit × Capture × System :=
  match openBuffers answers out.buffers.length 0 out system with
  | (.error err, out, system) => (.error err, out, system)
  | (.ok (), out, system) =>
    if answers.streamOn = false then (.error "VIDIOC_STREAMON failed", v4l2DmabufClose out system)
    else (.ok (), { out with streaming := true }, system)

/-- The error, `*out` and the system after a call; an error is the text written to `*err`. -/
def v4l2DmabufOpen (answers : Answers) (system : System) : Except String Unit × Capture × System :=
  if answers.openDevice = false then (.error "open failed", {}, system)
  else
    let fd := system.ledger.fresh .descriptor
    let system := { system with ledger := system.ledger.acquire .descriptor }
    let failed err := (.error err, {}, { system with ledger := system.ledger.release fd })
    match negotiate answers, answers.reqBufs with
    | .error err, _ => failed err
    | .ok _, none => failed "VIDIOC_REQBUFS failed"
    | .ok (bufType, mplane, fmt), some count =>
      if count < 2 then failed "VIDIOC_REQBUFS failed"
      else startCapture answers (prepared fd bufType mplane fmt count) system

/-! ### The transcoder -/

/-- How the steps of `init` after the capture end; those of a loop by its counter. -/
structure Setup where
  encodeData : Bool
  output : Nat → Allocation
  encoder : Bool
  pool : Bool
  worker : Nat → Bool

structure TransCoder where
  dmabufCapture : Capture
  outputDmaBuffers : List DmaBuffer

/-- The loop over the output buffers from `i` on, whether it ended and what it stored. -/
def allocateOutputs (output : Nat → Allocation) (size : Nat) :
    Nat → Nat → List DmaBuffer → Ledger Kind → Bool × List DmaBuffer × Ledger Kind
  | 0, _, buffers, ledger => (true, buffers, ledger)
  | more + 1, i, buffers, ledger =>
    match dmaBufAlloc (output i) ledger with
    | (none, ledger) => (false, buffers.set i { size }, ledger)
    | (some (fd, va), ledger) => allocateOutputs output size more (i + 1) (buffers.set i { fd, va, size }) ledger

/-- `init` with the configured size and number of threads. A capture that it closes stays in
the transcoder, for the destructor to close again. -/
def init (answers : Answers) (setup : Setup) (width height : Int) (rknnThread : Nat) (system : System) :
    TransCoder × System :=
  let closed (buffers : List DmaBuffer) (cap : Capture) (system : System) : TransCoder × System :=
    let (cap, system) := v4l2DmabufClose cap system
    (⟨cap, buffers⟩, system)
  match v4l2DmabufOpen answers system with
  | (.error _, cap, system) => closed [] cap system
  | (.ok (), cap, system) =>
    if cap.width ≠ width ∨ cap.height ≠ height then closed [] cap system
    else if setup.encodeData = false then closed [] cap system
    else
      let outputFrameSize := (width * height * 3).tdiv 2
      let (allocated, buffers, ledger) :=
        allocateOutputs setup.output outputFrameSize.toNat rknnThread 0 (List.replicate rknnThread {}) system.ledger
      let system := { system with ledger }
      if allocated = false then (⟨cap, buffers⟩, system)
      else if setup.encoder = false then closed buffers cap system
      else if setup.pool = false then closed buffers cap system
      else if (List.range rknnThread).all setup.worker = false then closed buffers cap system
      else (⟨cap, buffers⟩, system)

/-- What `~TransCoder` closes and frees. -/
def destroy (coder : TransCoder) (system : System) : System :=
  let (_, system) := v4l2DmabufClose coder.dmabufCapture system
  { system with ledger := coder.outputDmaBuffers.foldl dmaBufFree system.ledger }

end Yolov5Rknn.V4l2Dmabuf
