import Yolov5Rknn.TransCoderConfig
import Yolov5Rknn.V4l2Dmabuf

/-! What starting a transcoder takes and gives back: `TransCoder::init` and `~TransCoder`
(transcoder.cc), `RkEncoder::init` (RkEncoder.cc), `RkYolo::Init` and `RkYolo::Destroy`
(RkYolo.cc), the constructors and destructors behind `DeepSortWrapper` (DeepSortWrapper.cpp,
deepsort.cpp, tracker.cpp, rknn_fp.cpp), and the loop of `main` over the configurations.
Descriptors and mappings are those of the system, all else is counted in a second ledger. -/

namespace Yolov5Rknn.TransCoderInit
open TransCoderConfig (Config)
open V4l2Dmabuf (Answers Allocation Capture DmaBuffer System)

inductive Kind where
  /-- A block of `malloc`. -/
  | block
  /-- An object or an array of `new`. -/
  | object
  | file
  | rknnContext
  | rknnMem
  | mppContext
  | mppEncCfg
  | mppBuffer
  | mppBufferGroup
  deriving DecidableEq

/-! ### `RkEncoder` -/

/-- How the calls of one `RkEncoder::init` end. `decCfgDeinit` says whether `mpp_dec_cfg_deinit`
frees the configuration of an encoder, which it is given. -/
structure EncoderCalls where
  mppCreate : Bool
  mppInit : Bool
  cfgInit : Bool
  bufferGet : Bool
  groupGet : Bool
  setCfg : Bool
  decCfgDeinit : Bool

structure RkEncoder where
  self : Resource Kind
  contex : Option (Resource Kind) := none
  buffer : Option (Resource Kind) := none
  dmaGroup : Option (Resource Kind) := none

def RkEncoder.init (calls : EncoderCalls) (encoder : RkEncoder) (ledger : Ledger Kind) :
    Int × RkEncoder × Ledger Kind :=
  let (contex, ledger) := ledger.request .mppContext calls.mppCreate
  let encoder := { encoder with contex }
  if calls.mppCreate = false ∨ calls.mppInit = false then (-1, encoder, ledger)
  else
    let (cfg, ledger) := ledger.request .mppEncCfg calls.cfgInit
    if calls.cfgInit = false then (-1, encoder, ledger)
    else
      let (buffer, ledger) := ledger.request .mppBuffer calls.bufferGet
      let (dmaGroup, ledger) := ledger.request .mppBufferGroup calls.groupGet
      let encoder := { encoder with buffer, dmaGroup }
      if calls.setCfg = false then (-1, encoder, ledger.releaseHandle cfg)
      -- here the source calls `mpp_dec_cfg_deinit`
      else (0, encoder, if calls.decCfgDeinit then ledger.releaseHandle cfg else ledger)

/-- The destructor, and the object itself. -/
def RkEncoder.delete (ledger : Ledger Kind) (encoder : RkEncoder) : Ledger Kind :=
  (((ledger.releaseHandle encoder.dmaGroup).releaseHandle encoder.buffer).releaseHandle encoder.contex).release
    encoder.self

/-! ### `RkYolo` -/

/-- How the calls of one `RkYolo::Init` end, and the numbers of tensors; those of a loop by its
counter. -/
structure WorkerCalls where
  fopen : Bool
  malloc : Bool
  fseek : Int
  fread : Int
  rknnInit : Bool
  setCoreMask : Int
  queryVersion : Int
  queryIoNum : Int
  nInput : Nat
  nOutput : Nat
  queryInputAttr : Nat → Int
  queryOutputAttr : Nat → Int
  createInputMem : Bool
  setInputMem : Int
  createOutputMem : Nat → Bool
  setOutputMem : Nat → Int

structure RkYolo where
  self : Resource Kind
  modelData : Option (Resource Kind) := none
  rknnCtx : Option (Resource Kind) := none
  inputAttrs : Option (Resource Kind) := none
  outputAttrs : Option (Resource Kind) := none
  inputMem : Option (Resource Kind) := none
  outputMems : List (Option (Resource Kind)) := []

/-- `Init` up to `fclose`, and whether it goes on. -/
def RkYolo.loadModel (calls : WorkerCalls) (yolo : RkYolo) (ledger : Ledger Kind) : Bool × RkYolo × Ledger Kind :=
  if calls.fopen = false then (false, yolo, ledger)
  else
    let fp := ledger.fresh .file
    let ledger := ledger.acquire .file
    let (modelData, ledger) := ledger.request .block calls.malloc
    let yolo := { yolo with modelData }
    -- these two exits leave the file open
    if calls.malloc = false ∨ calls.fseek < 0 then (false, yolo, ledger)
    else if calls.fread < 0 then (false, yolo, ledger.release fp)
    else (true, yolo, ledger.release fp)

/-- The loop over the output memories from `i` on; `ret` is that of the last call. -/
def RkYolo.createOutputs (calls : WorkerCalls) : Nat → Nat → Int → RkYolo → Ledger Kind → Int × RkYolo × Ledger Kind
  | 0, _, ret, yolo, ledger => (ret, yolo, ledger)
  | more + 1, i, _, yolo, ledger =>
    let (mem, ledger) := ledger.request .rknnMem (calls.createOutputMem i)
    let yolo := { yolo with outputMems := yolo.outputMems.set i mem }
    if calls.createOutputMem i = false ∨ calls.setOutputMem i < 0 then (-1, yolo, ledger)
    else createOutputs calls more (i + 1) (calls.setOutputMem i) yolo ledger

/-- `Init` from the two arrays of attributes on. -/
def RkYolo.createMems (calls : WorkerCalls) (yolo : RkYolo) (ledger : Ledger Kind) : Int × RkYolo × Ledger Kind :=
  let yolo := { yolo with inputAttrs := some (ledger.fresh .object) }
  let ledger := ledger.acquire .object
  if (List.range calls.nInput).any (calls.queryInputAttr · < 0) then (-1, yolo, ledger)
  else
    let yolo := { yolo with outputAttrs := some (ledger.fresh .object) }
    let ledger := ledger.acquire .object
    if (List.range calls.nOutput).any (calls.queryOutputAttr · < 0) then (-1, yolo, ledger)
    else
      let (inputMem, ledger) := ledger.request .rknnMem calls.createInputMem
      let yolo := { yolo with inputMem }
      if calls.createInputMem = false ∨ calls.setInputMem < 0 then (-1, yolo, ledger)
      else
        createOutputs calls calls.nOutput 0 calls.setInputMem
          { yolo with outputMems := List.replicate calls.nOutput none } ledger

def RkYolo.init (calls : WorkerCalls) (yolo : RkYolo) (ledger : Ledger Kind) : Int × RkYolo × Ledger Kind :=
  match loadModel calls yolo ledger with
  | (false, yolo, ledger) => (-1, yolo, ledger)
  | (true, yolo, ledger) =>
    let (rknnCtx, ledger) := ledger.request .rknnContext calls.rknnInit
    let yolo := { yolo with rknnCtx }
    if calls.rknnInit = false ∨ calls.setCoreMask < 0 ∨ calls.queryVersion < 0 ∨ calls.queryIoNum < 0 then
      (-1, yolo, ledger)
    else createMems calls yolo ledger

/-- `rknn_destroy_mem`, called with a context only. -/
def RkYolo.destroyMem (yolo : RkYolo) (ledger : Ledger Kind) (mem : Option (Resource Kind)) : Ledger Kind :=
  if yolo.rknnCtx.isSome then ledger.releaseHandle mem else ledger

/-- The destructor, which is `Destroy`, and the object itself. -/
def RkYolo.delete (ledger : Ledger Kind) (yolo : RkYolo) : Ledger Kind :=
  let ledger := yolo.destroyMem ledger yolo.inputMem
  let ledger := yolo.outputMems.foldl yolo.destroyMem ledger
  ((((ledger.releaseHandle yolo.rknnCtx).releaseHandle yolo.inputAttrs).releaseHandle yolo.outputAttrs).releaseHandle
    yolo.modelData).release yolo.self

/-! ### `DeepSortWrapper` -/

/-- Whether the memories of one `rknn_fp` are made. Where another call of its constructor fails it
ends the process and does not return. -/
structure ExtractorCalls where
  createInputMem : Bool
  createOutputMem : Bool

/-- A `FeatureTensor`, which is an `rknn_fp` of one input and one output. -/
structure FeatureTensor where
  self : Resource Kind
  ctx : Resource Kind
  inputMem : Option (Resource Kind)
  outputMem : Option (Resource Kind)

/-- The constructor; the block it reads the model into is kept in no member. -/
def FeatureTensor.create (calls : ExtractorCalls) (ledger : Ledger Kind) : FeatureTensor × Ledger Kind :=
  let self := ledger.fresh .object
  let ledger := ledger.acquire .object
  let fp := ledger.fresh .file
  let ledger := ledger.acquire .file
  let ledger := ledger.acquire .block
  let ledger := ledger.release fp
  let ctx := ledger.fresh .rknnContext
  let ledger := ledger.acquire .rknnContext
  let (inputMem, ledger) := ledger.request .rknnMem calls.createInputMem
  let (outputMem, ledger) := ledger.request .rknnMem calls.createOutputMem
  (⟨self, ctx, inputMem, outputMem⟩, ledger)

def FeatureTensor.delete (ledger : Ledger Kind) (extractor : FeatureTensor) : Ledger Kind :=
  (((ledger.releaseHandle extractor.inputMem).releaseHandle extractor.outputMem).release extractor.ctx).release
    extractor.self

structure DeepSortWrapper where
  self : Resource Kind
  objTracker : Resource Kind
  featureExtractor1 : FeatureTensor
  featureExtractor2 : FeatureTensor

/-- The constructor. The `metric` and the `kf` of the tracker are objects too, and `tracker` has no
destructor that deletes them. -/
def DeepSortWrapper.create (calls1 calls2 : ExtractorCalls) (ledger : Ledger Kind) : DeepSortWrapper × Ledger Kind :=
  let self := ledger.fresh .object
  let ledger := ledger.acquire .object
  let objTracker := ledger.fresh .object
  let ledger := ((ledger.acquire .object).acquire .object).acquire .object
  let (featureExtractor1, ledger) := FeatureTensor.create calls1 ledger
  let (featureExtractor2, ledger) := FeatureTensor.create calls2 ledger
  (⟨self, objTracker, featureExtractor1, featureExtractor2⟩, ledger)

def DeepSortWrapper.delete (ledger : Ledger Kind) (wrapper : DeepSortWrapper) : Ledger Kind :=
  let ledger := FeatureTensor.delete (FeatureTensor.delete ledger wrapper.featureExtractor1) wrapper.featureExtractor2
  (ledger.release wrapper.objTracker).release wrapper.self

/-! ### `TransCoder` -/

/-- How the calls of one `TransCoder::init` end; those of its loops by their counters. -/
structure Outcomes where
  capture : Answers
  encodeData : Bool
  output : Nat → Allocation
  encoder : EncoderCalls
  pool : Bool
  worker : Nat → WorkerCalls
  reidModel : Bool
  featureExtractor1 : ExtractorCalls
  featureExtractor2 : ExtractorCalls

structure World where
  system : System
  objects : Ledger Kind

/-- The members that hold something, and `ready_`. -/
structure TransCoder where
  dmabufCapture : Capture := {}
  encodeData : Option (Resource Kind) := none
  outputDmaBuffers : List DmaBuffer := []
  rkEncoder : Option RkEncoder := none
  pool : Option (Resource Kind) := none
  rkyoloList : List RkYolo := []
  byteTracker : Option (Resource Kind) := none
  deepSortTracker : Option DeepSortWrapper := none
  ready : Bool := false

/-- `return` behind `v4l2_dmabuf_close`. -/
def TransCoder.giveUp (coder : TransCoder) (world : World) : TransCoder × World :=
  let (dmabufCapture, system) := V4l2Dmabuf.v4l2DmabufClose coder.dmabufCapture world.system
  ({ coder with dmabufCapture }, { world with system })

/-- The loop over the workers from `i` on, and whether it ended. -/
def initWorkers (worker : Nat → WorkerCalls) : Nat → Nat → List RkYolo → Ledger Kind → Bool × List RkYolo × Ledger Kind
  | 0, _, rkyoloList, objects => (true, rkyoloList, objects)
  | more + 1, i, rkyoloList, objects =>
    let (ret, rkyolo, objects) := RkYolo.init (worker i) { self := objects.fresh .object } (objects.acquire .object)
    if ret ≠ 0 then (false, rkyoloList, rkyolo.delete objects)
    else initWorkers worker more (i + 1) (rkyoloList ++ [rkyolo]) objects

/-- `init` from the choice of the tracker on. The model file of the third is opened and closed. -/
def TransCoder.initTracker (tracker : TransCoderConfig.TrackerType) (outcomes : Outcomes) (coder : TransCoder)
    (objects : Ledger Kind) : TransCoder × Ledger Kind :=
  match tracker with
  | .bytetrack =>
    ({ coder with byteTracker := some (objects.fresh .object), ready := true }, objects.acquire .object)
  | .deepsort =>
    if outcomes.reidModel = false then (coder, objects)
    else
      let objects := (objects.acquire .file).release (objects.fresh .file)
      let (deepSortTracker, objects) :=
        DeepSortWrapper.create outcomes.featureExtractor1 outcomes.featureExtractor2 objects
      ({ coder with deepSortTracker := some deepSortTracker, ready := true }, objects)
  | .none => ({ coder with ready := true }, objects)

variable {Float : Type}

/-- `init` from the encoder on. -/
def TransCoder.initWorking (outcomes : Outcomes) (config : Config Float) (coder : TransCoder) (world : World) :
    TransCoder × World :=
  let (ret, rkEncoder, objects) := RkEncoder.init outcomes.encoder { self := world.objects.fresh .object }
    (world.objects.acquire .object)
  let coder := { coder with rkEncoder := some rkEncoder }
  if ret ≠ 0 then coder.giveUp { world with objects }
  else
    let (pool, objects) := objects.request .object outcomes.pool
    let coder := { coder with pool }
    if outcomes.pool = false then coder.giveUp { world with objects }
    else
      let (all, rkyoloList, objects) := initWorkers outcomes.worker config.rknnThread.toNat 0 [] objects
      let coder := { coder with rkyoloList }
      if all = false then coder.giveUp { world with objects }
      else
        let (coder, objects) := coder.initTracker config.tracker outcomes objects
        (coder, { world with objects })

/-- `init`, for a configuration as it settles it. -/
def TransCoder.init (outcomes : Outcomes) (config : Config Float) (world : World) : TransCoder × World :=
  let config := config.settle
  match V4l2Dmabuf.v4l2DmabufOpen outcomes.capture world.system with
  | (.error _, dmabufCapture, system) =>
    TransCoder.giveUp { dmabufCapture } { world with system }
  | (.ok (), dmabufCapture, system) =>
    let coder : TransCoder := { dmabufCapture }
    let world := { world with system }
    if dmabufCapture.width ≠ config.width ∨ dmabufCapture.height ≠ config.height then coder.giveUp world
    else
      let (encodeData, objects) := world.objects.request .block outcomes.encodeData
      let coder := { coder with encodeData }
      if outcomes.encodeData = false then coder.giveUp { world with objects }
      else
        let outputFrameSize := (config.width * config.height * 3).tdiv 2
        let (all, outputDmaBuffers, ledger) := V4l2Dmabuf.allocateOutputs outcomes.output outputFrameSize.toNat
          config.rknnThread.toNat 0 (List.replicate config.rknnThread.toNat {}) world.system.ledger
        let coder := { coder with outputDmaBuffers }
        let world : World := ⟨{ world.system with ledger }, objects⟩
        if all = false then (coder, world)
        else coder.initWorking outcomes config world

/-- `~TransCoder`. -/
def TransCoder.delete (coder : TransCoder) (world : World) : World :=
  let (_, system) := V4l2Dmabuf.v4l2DmabufClose coder.dmabufCapture world.system
  let ledger := coder.outputDmaBuffers.foldl V4l2Dmabuf.dmaBufFree system.ledger
  let objects := coder.rkEncoder.elim world.objects (RkEncoder.delete world.objects)
  let objects := objects.releaseHandle coder.byteTracker
  let objects := coder.deepSortTracker.elim objects (DeepSortWrapper.delete objects)
  let objects := coder.rkyoloList.foldl RkYolo.delete objects
  let objects := (objects.releaseHandle coder.pool).releaseHandle coder.encodeData
  ⟨{ system with ledger }, objects⟩

/-- The loop of `main`: a transcoder that is not ready is destroyed at once. -/
def startAll : List (Outcomes × Config Float) → World → List TransCoder × World
  | [], world => ([], world)
  | (outcomes, config) :: rest, world =>
    let (coder, world) := TransCoder.init outcomes config world
    if coder.ready = false then startAll rest (coder.delete world)
    else
      let (coders, world) := startAll rest world
      (coder :: coders, world)

end Yolov5Rknn.TransCoderInit
