import Yolov5Rknn.NearNeighborDisMetric
import Yolov5Rknn.Track
import Yolov5Rknn.LinearAssignment
import Yolov5Rknn.DeepSortTracker
import Yolov5Rknn.DeepSortWrapper
import Yolov5Rknn.Proofs.OverlapRound
import Yolov5Rknn.Proofs.ReidInterval
import Yolov5Rknn.Proofs.LoneTrack
import Yolov5Rknn.Proofs.ReidConfirmation
import Yolov5Rknn.Proofs.DeepSortFates
import Yolov5Rknn.Munkres
import Yolov5Rknn.Lapjv
import Yolov5Rknn.Logic.Transition
import Yolov5Rknn.Logic.Progress
import Yolov5Rknn.Logic.Simulation
import Yolov5Rknn.Logic.Positions
import Yolov5Rknn.ThreadPool
import Yolov5Rknn.Proofs.PoolOrder
import Yolov5Rknn.Proofs.PoolProgress
import Yolov5Rknn.PooledTransCoder
import Yolov5Rknn.Proofs.PipelineSettlement
import Yolov5Rknn.Proofs.PooledRefinement
import Yolov5Rknn.Proofs.PooledProgress
import Yolov5Rknn.CameraStream
import Yolov5Rknn.Ini
import Yolov5Rknn.Logic.Trimming
import Yolov5Rknn.Proofs.IniLines
import Yolov5Rknn.Proofs.IniCalls
import Yolov5Rknn.Proofs.IniLayout
import Yolov5Rknn.Logic.Dictionary
import Yolov5Rknn.INIReader
import Yolov5Rknn.Proofs.ReaderValues
import Yolov5Rknn.Proofs.ReaderIntegers
import Yolov5Rknn.TransCoderConfig
import Yolov5Rknn.Proofs.ConfigSections
import Yolov5Rknn.TransCoderInit
import Yolov5Rknn.Proofs.LoopRefinement
import Yolov5Rknn.Proofs.InitLifetime
import Yolov5Rknn.Proofs.StartedStreams
import Yolov5Rknn.Proofs.TrackerSolver
import Yolov5Rknn.TrackedCamera
import Yolov5Rknn.Proofs.TrackedOverlays
import Yolov5Rknn.Proofs.DeepSortOverlays
import Yolov5Rknn.Proofs.StreamDelivery
import Yolov5Rknn.Proofs.StreamProgress
import Yolov5Rknn.Logic.RoundRobin
import Yolov5Rknn.TransCoder
import Yolov5Rknn.CamFramedSource
import Yolov5Rknn.BYTETracker
import Yolov5Rknn.Proofs.TrackerLists
import Yolov5Rknn.Proofs.TrackerRounds
import Yolov5Rknn.Proofs.TrackerFates
import Yolov5Rknn.Proofs.TrackerCall
import Yolov5Rknn.Proofs.TrackerIdentity
import Yolov5Rknn.Proofs.TrackerDetections
import Yolov5Rknn.Proofs.TrackerRemoval
import Yolov5Rknn.Proofs.TrackerRetention
import Yolov5Rknn.Proofs.PipelineOwnership
import Yolov5Rknn.Proofs.PipelineStarvation
import Yolov5Rknn.Proofs.PipelineRefinement
import Yolov5Rknn.Proofs.FrameDelivery
import Yolov5Rknn.Proofs.FrameTriggers
import Yolov5Rknn.Proofs.FrameIdr
import Yolov5Rknn.Proofs.DeepSortTable
import Yolov5Rknn.Proofs.GalleryFit
import Yolov5Rknn.Proofs.GalleryWindow
import Yolov5Rknn.Proofs.GalleryRuns
import Yolov5Rknn.Logic.WithNaN
import Yolov5Rknn.Proofs.GatingNaN
import Yolov5Rknn.PostProcess
import Yolov5Rknn.Logic.Greedy
import Yolov5Rknn.Proofs.QuickSort
import Yolov5Rknn.Proofs.NmsPasses
import Yolov5Rknn.Logic.Assignment
import Yolov5Rknn.Proofs.MunkresPrices
import Yolov5Rknn.Proofs.AssociationCost
import Yolov5Rknn.Logic.Augmenting
import Yolov5Rknn.Logic.Unmatched
import Yolov5Rknn.Logic.Folds
import Yolov5Rknn.Proofs.LapjvColumns
import Yolov5Rknn.Proofs.LapjvRows
import Yolov5Rknn.Proofs.LapjvPath
import Yolov5Rknn.Proofs.LapjvSolution
import Yolov5Rknn.Proofs.ByteAssignment
import Yolov5Rknn.Logic.Rivals
import Yolov5Rknn.Proofs.TrackerDuplicates
import Yolov5Rknn.Proofs.TrackerRenumbering
import Yolov5Rknn.Proofs.TrackerReset
import Yolov5Rknn.Logic.Truncation
import Yolov5Rknn.PostProcessGroup
import Yolov5Rknn.Proofs.QuantisedFilter
import Yolov5Rknn.Proofs.GroupRecords
import Yolov5Rknn.Proofs.EncodeFailures
import Yolov5Rknn.MThread
import Yolov5Rknn.Proofs.Teardown
import Yolov5Rknn.FeatureTensor
import Yolov5Rknn.Proofs.OwnFeatures
import Yolov5Rknn.Logic.Covariance
import Yolov5Rknn.Logic.Coupling
import Yolov5Rknn.Proofs.KalmanCovariance
import Yolov5Rknn.Proofs.GatingDistance
import Yolov5Rknn.Logic.Overlap
import Yolov5Rknn.Proofs.IouCosts
import Yolov5Rknn.RkYolo
import Yolov5Rknn.Proofs.OverlayBoxes
import Yolov5Rknn.Proofs.OverlayBounds
import Yolov5Rknn.Proofs.OverlayChroma
import Yolov5Rknn.Logic.ByteStream
import Yolov5Rknn.Proofs.PacketIdr
import Yolov5Rknn.Logic.Lines
import Yolov5Rknn.PostProcessLabels
import Yolov5Rknn.Proofs.LabelNames
import Yolov5Rknn.Logic.Ledger
import Yolov5Rknn.RkEncoder
import Yolov5Rknn.Proofs.CaptureOpen
import Yolov5Rknn.Proofs.EncoderLeaks
import Yolov5Rknn.V4l2Dmabuf
