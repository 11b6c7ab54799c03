import Yolov5Rknn.INIReader
import Yolov5Rknn.TransCoder

/-! `TransCoder::LoadConfigs` (transcoder.cc) and what `TransCoder::init` does with a
configuration before it opens the camera. -/

namespace Yolov5Rknn.TransCoderConfig

/-- `strtod`, the conversions between `float` and `double`, and the three literals. -/
structure Floats (Double Float : Type) where
  strtod : List UInt8 → Option Double
  narrow : Double → Float
  widen : Float → Double
  trackThresh : Double
  highThresh : Double
  matchThresh : Double

/-- `Config_t`. -/
structure Config (Float : Type) where
  width : Int
  height : Int
  fps : Int
  fixQp : Int
  rknnThread : Int
  dmaBuffers : Int
  trackerEnable : Bool
  trackerType : List UInt8
  trackBuffer : Int
  trackThresh : Float
  highThresh : Float
  matchThresh : Float
  reidModelPath : List UInt8
  reidFeatureDim : Int
  reidInterval : Int
  reidCpuId : Int
  reidNpuCore : Int
  deviceName : List UInt8
  streamName : List UInt8
  sectionName : List UInt8
  dmaHeap : List UInt8
  deriving DecidableEq

variable {Double Float : Type} (floats : Floats Double Float) (configs : INIReader)

/-- The conversion of `long` to `int`. -/
def toInt (n : Int) : Int := n.bmod 4294967296

def getInt (sectionName : List UInt8) (name : String) (defaultValue : Int) : Int :=
  toInt (configs.getInteger sectionName (bytes name) defaultValue)

def getFloat (sectionName : List UInt8) (name : String) (defaultValue : Double) : Float :=
  floats.narrow (configs.getReal floats.strtod sectionName (bytes name) defaultValue)

/-- The locals named `default_..`. The section is that of the last branch. -/
def defaults : Config Float where
  width := getInt configs (bytes "video") "width" 640
  height := getInt configs (bytes "video") "height" 480
  fps := getInt configs (bytes "video") "fps" 30
  fixQp := getInt configs (bytes "video") "fix_qp" 23
  dmaBuffers := getInt configs (bytes "video") "dma_buffers" 4
  deviceName := configs.get (bytes "video") (bytes "device") (bytes "/dev/video0")
  dmaHeap := configs.get (bytes "video") (bytes "dma_heap") (bytes "/dev/dma_heap/system")
  rknnThread := getInt configs (bytes "rknn") "rknn_thread" 3
  streamName := configs.get (bytes "server") (bytes "stream_name") (bytes "unicast")
  trackerEnable := configs.getBoolean (bytes "tracker") (bytes "enable") true
  trackerType := configs.get (bytes "tracker") (bytes "type") (bytes "bytetrack")
  trackBuffer := getInt configs (bytes "tracker") "track_buffer" 30
  trackThresh := getFloat floats configs (bytes "tracker") "track_thresh" floats.trackThresh
  highThresh := getFloat floats configs (bytes "tracker") "high_thresh" floats.highThresh
  matchThresh := getFloat floats configs (bytes "tracker") "match_thresh" floats.matchThresh
  reidModelPath := configs.get (bytes "tracker") (bytes "reid_model_path") (bytes "model/osnet_x0_25_market.rknn")
  reidFeatureDim := getInt configs (bytes "tracker") "reid_feature_dim" 512
  reidInterval := getInt configs (bytes "tracker") "reid_interval" 1
  reidCpuId := getInt configs (bytes "tracker") "reid_cpu_id" 6
  reidNpuCore := getInt configs (bytes "tracker") "reid_npu_core" 2
  sectionName := bytes "video"

/-- What both branches read in the same way, from `tracker_enable` to `reid_npu_core`. -/
def readTracker (sectionName : List UInt8) (cfg : Config Float) : Config Float :=
  { cfg with
    trackerEnable := configs.getBoolean sectionName (bytes "tracker_enable") cfg.trackerEnable
    trackerType := configs.get sectionName (bytes "tracker_type") cfg.trackerType
    trackBuffer := max 1 (getInt configs sectionName "track_buffer" cfg.trackBuffer)
    trackThresh := getFloat floats configs sectionName "track_thresh" (floats.widen cfg.trackThresh)
    highThresh := getFloat floats configs sectionName "high_thresh" (floats.widen cfg.highThresh)
    matchThresh := getFloat floats configs sectionName "match_thresh" (floats.widen cfg.matchThresh)
    reidModelPath := configs.get sectionName (bytes "reid_model_path") cfg.reidModelPath
    reidFeatureDim := max 1 (getInt configs sectionName "reid_feature_dim" cfg.reidFeatureDim)
    reidInterval := max 1 (getInt configs sectionName "reid_interval" cfg.reidInterval)
    reidCpuId := getInt configs sectionName "reid_cpu_id" cfg.reidCpuId
    reidNpuCore := getInt configs sectionName "reid_npu_core" cfg.reidNpuCore }

/-- `"video" << i`. -/
def videoSection (i : Fin 8) : List UInt8 := bytes "video" ++ [48 + UInt8.ofNat i.val]

/-- The body of the second loop; none where it continues. -/
def videoConfig (i : Fin 8) : Option (Config Float) :=
  let sec := videoSection i
  if configs.hasSection sec = false then none
  else
    let cfg := defaults floats configs
    let rknnThread := getInt configs sec "rknn_thread" cfg.rknnThread
    let cfg := readTracker floats configs sec
      { cfg with
        sectionName := sec
        width := getInt configs sec "width" cfg.width
        height := getInt configs sec "height" cfg.height
        fps := getInt configs sec "fps" cfg.fps
        fixQp := getInt configs sec "fix_qp" cfg.fixQp
        dmaBuffers := max 2 (getInt configs sec "dma_buffers" cfg.dmaBuffers)
        rknnThread := if rknnThread > 6 then 6 else rknnThread }
    let deviceName := configs.get sec (bytes "device") []
    if deviceName.isEmpty then none
    else some
      { cfg with
        deviceName
        streamName := configs.get sec (bytes "stream_name") (bytes "cam" ++ [48 + UInt8.ofNat i.val])
        dmaHeap := configs.get sec (bytes "dma_heap") cfg.dmaHeap }

/-- The configuration made where the loop made none. -/
def singleConfig : Config Float :=
  let cfg := defaults floats configs
  readTracker floats configs (bytes "video")
    { cfg with
      dmaBuffers := max 2 cfg.dmaBuffers
      rknnThread := if cfg.rknnThread > 6 then 6 else cfg.rknnThread }

def loadConfigs (file : Option (List UInt8)) : List (Config Float) :=
  let configs := INIReader.load file
  if configs.parseError < 0 then []
  else
    let hasMultiVideo := (List.finRange 8).any fun i => configs.hasSection (videoSection i)
    let configsOut := if hasMultiVideo then (List.finRange 8).filterMap (videoConfig floats configs) else []
    if configsOut.isEmpty then [singleConfig floats configs] else configsOut

inductive TrackerType where
  | none
  | bytetrack
  | deepsort
  deriving DecidableEq

def parseTrackerType (trackerType : List UInt8) (trackerEnable : Bool) : TrackerType :=
  if trackerEnable = false then .none
  else if trackerType = bytes "deepsort" then .deepsort
  else if trackerType = bytes "none" ∨ trackerType = bytes "off" ∨ trackerType = bytes "disable" then .none
  else .bytetrack

/-- `TransCoder::init` up to `tracker_type_`, as the configuration it leaves. -/
def Config.settle (config : Config Float) : Config Float :=
  { config with
    width := if config.width ≤ 0 then 640 else config.width
    height := if config.height ≤ 0 then 480 else config.height
    fps := if config.fps ≤ 0 then 30 else config.fps
    fixQp := if config.fixQp ≤ 0 then 23 else config.fixQp
    dmaBuffers := if config.dmaBuffers < 2 then 4 else config.dmaBuffers
    deviceName := if config.deviceName.isEmpty then bytes "/dev/video0" else config.deviceName
    streamName := if config.streamName.isEmpty then bytes "unicast" else config.streamName
    dmaHeap := if config.dmaHeap.isEmpty then bytes "/dev/dma_heap/system" else config.dmaHeap
    rknnThread := if config.rknnThread > 6 then 6 else max 1 config.rknnThread
    trackBuffer := max 1 config.trackBuffer
    trackerType := if config.trackerType.isEmpty then bytes "bytetrack" else config.trackerType
    reidModelPath :=
      if config.reidModelPath.isEmpty then bytes "model/osnet_x0_25_market.rknn" else config.reidModelPath
    reidFeatureDim := max 1 config.reidFeatureDim
    reidInterval := max 1 config.reidInterval }

def Config.tracker (config : Config Float) : TrackerType := parseTrackerType config.trackerType config.trackerEnable

/-- The fields that size the pipeline. -/
def Config.sizes (config : Config Float) : TransCoder.Config where
  rknnThread := config.rknnThread
  dmaBuffers := config.dmaBuffers

end Yolov5Rknn.TransCoderConfig
