import Yolov5Rknn.Proofs.InitLifetime
import Yolov5Rknn.Proofs.StreamDelivery

/-! From the configuration to the client: a transcoder that `main` hands to the server is in
the state from which its pipeline and its stream were proved correct. -/

namespace Yolov5Rknn.TransCoderInit
open TransCoderConfig (Config)
open Transition
open Yolov5Rknn.TransCoder (Calls Starts Sink Tracker Sequential)

variable {Frame Tensor Group Image Byte Deep Enc Float : Type}

/-- What is in the memory that `init` took, and what its objects were made as. -/
structure Memory (Frame Tensor Group Image Byte Deep Enc : Type) where
  frame : Resource V4l2Dmabuf.Kind → Frame
  image : V4l2Dmabuf.DmaBuffer → Image
  tensor : RkYolo → Tensor
  group : Group
  byteTracker : Byte
  deepSortTracker : Deep
  encoder : Enc
  encodeData : List UInt8

variable {config : Config Float} {coder : TransCoder} {world after : World}

namespace TransCoder

/-- The tracker that the callback finds. -/
def trackerState (memory : Memory Frame Tensor Group Image Byte Deep Enc) (coder : TransCoder) :
    Tracker Byte Deep :=
  if coder.byteTracker.isSome then .bytetrack memory.byteTracker
  else if coder.deepSortTracker.isSome then .deepsort memory.deepSortTracker
  else .none

/-- The state in which `run` begins, after an `init` that found `world` and left `after`: the driver
holds the buffers it was given meanwhile. -/
def runState (memory : Memory Frame Tensor Group Image Byte Deep Enc) (world after : World) (coder : TransCoder) :
    Yolov5Rknn.TransCoder.State Frame Tensor Group Image Byte Deep Enc where
  curYolo := 0
  rkyoloList := coder.rkyoloList.map fun yolo => ⟨none, none, memory.tensor yolo, memory.group⟩
  outputDmaBuffers := coder.outputDmaBuffers.map memory.image
  buffers := coder.dmabufCapture.buffers.map fun buffer => buffer.va.map memory.frame
  queued := (after.system.queued.drop world.system.queued.length).map fun request => request.2.1.toNat
  pendingJobs := []
  promises := []
  tasks := []
  running := []
  sink := ⟨trackerState memory coder, memory.encoder, memory.encodeData, []⟩
  control := .head
  captured := []

end TransCoder

theorem Ready.threads (ready : Ready config.settle world coder after) :
    1 ≤ coder.rkyoloList.length ∧ coder.rkyoloList.length ≤ 6 := by
  have sizes := config.sizes.init_rknnThread
  have same : config.settle.rknnThread = config.sizes.init.rknnThread := rfl
  rw [ready.working.workers, same]
  omega

/-- The requests of the buffers name all of them, in order. -/
theorem requests_indices (device : Resource V4l2Dmabuf.Kind) (buffers : List V4l2Dmabuf.DmaBuffer) :
    (V4l2Dmabuf.requests device buffers).map (fun request => request.2.1.toNat) = List.range buffers.length := by
  rw [V4l2Dmabuf.requests, List.map_map, List.range_eq_range', ← List.zipIdx_map_snd]
  rfl

theorem Ready.starts (ready : Ready config.settle world coder after)
    (memory : Memory Frame Tensor Group Image Byte Deep Enc) :
    Starts coder.rkyoloList.length (coder.runState memory world after) where
  curYolo := rfl
  workers := List.length_map _
  outputs := by
    rw [ready.working.workers, ← ready.outputs.1]
    exact List.length_map _
  queued := by
    obtain ⟨device, _, queued⟩ := ready.queued
    simp only [TransCoder.runState, List.length_map]
    rw [queued, List.drop_left, requests_indices]
  pendingJobs := rfl
  promises := rfl
  tasks := rfl
  running := rfl
  control := rfl
  captured := rfl

theorem startAll_started {cameras : List (Outcomes × Config Float)} (member : coder ∈ (startAll cameras world).1) :
    ∃ camera ∈ cameras, Started camera coder := by
  obtain ⟨chosen, sublist, started⟩ := startAll_chosen cameras world
  obtain ⟨i, inside, rfl⟩ := List.mem_iff_getElem.mp member
  have within : i < chosen.length := started.length_eq ▸ inside
  exact ⟨chosen[i], sublist.subset (List.getElem_mem within), (List.forall₂_iff_get.mp started).2 i within inside⟩

/-- Every transcoder that `main` hands to the server was made by `init` of one of the cameras, has 1 to
6 workers and is in the state that `run` expects, and whatever its threads do from then on and its
encoder returns, its client receives, in order and without repetition, payloads of the plain
loops over what the camera captured. -/
theorem started_streams {cameras : List (Outcomes × Config Float)} {start : World}
    (member : coder ∈ (startAll cameras start).1) :
    ∃ camera ∈ cameras, ∃ world after, TransCoder.init camera.1 camera.2 world = (coder, after) ∧
      1 ≤ coder.rkyoloList.length ∧ coder.rkyoloList.length ≤ 6 ∧
      ∀ (Frame Tensor Group Image Byte Deep Enc : Type) (calls : Calls Frame Tensor Group Image Byte Deep Enc)
        (memory : Memory Frame Tensor Group Image Byte Deep Enc),
        Starts coder.rkyoloList.length (coder.runState memory world after) ∧
        ∀ state : CameraStream.State Frame Tensor Group Image Byte Deep Enc,
          Reachable (CameraStream.step calls coder.rkyoloList.length)
            (CameraStream.init coder.rkyoloList.length (coder.runState memory world after)) state →
          ∃ looped drained pending,
            Sequential calls (coder.runState memory world after).sink state.pooled.transCoder looped drained pending ∧
              ((CamFramedSource.delivered state.source.log).map CamFramedSource.Frame.data).Sublist
                state.pooled.transCoder.sink.payloads ∧
              (state.source.accepted.map CamFramedSource.Frame.number ++ state.source.discarded ++
                  state.source.current.map CamFramedSource.Frame.number).Perm
                (List.range state.pooled.transCoder.sink.payloads.length) := by
  obtain ⟨camera, among, world, after, made, ready⟩ := startAll_started member
  refine ⟨camera, among, world, after, made, ready.threads.1, ready.threads.2, ?_⟩
  intro Frame Tensor Group Image Byte Deep Enc calls memory
  refine ⟨ready.starts memory, fun state reached => ?_⟩
  obtain ⟨spec, looped, drained, pending, joined, sequential⟩ :=
    CameraStream.stream_sequential ready.threads.1 (ready.starts memory) rfl reached
  exact ⟨looped, drained, pending, joined.delivers sequential⟩

/-- Every call succeeds; the camera grants what it is asked for. -/
def grantedOutcomes : Outcomes where
  capture :=
    { openDevice := true
      queryCap := some ⟨0x04000001, 0⟩
      sFmt := some ⟨640, 480, V4l2Dmabuf.yuyv, 614400, 0⟩
      reqBufs := some 2
      allocation := fun _ => ⟨true, true, true⟩
      qbuf := fun _ => true
      streamOn := true }
  encodeData := true
  output _ := ⟨true, true, true⟩
  encoder := ⟨true, true, true, true, true, true, false⟩
  pool := true
  worker _ := ⟨true, true, 0, 0, true, 0, 0, 0, 1, 3, fun _ => 0, fun _ => 0, true, 0, fun _ => true, fun _ => 0⟩
  reidModel := true
  featureExtractor1 := ⟨true, true⟩
  featureExtractor2 := ⟨true, true⟩

/-- One camera each; the pool of the second cannot be made. -/
def sampleCameras : List (Outcomes × Config Unit) :=
  [grantedOutcomes, { grantedOutcomes with pool := false }].map fun outcomes =>
    (outcomes, ⟨640, 480, 30, 23, 1, 2, true, bytes "bytetrack", 30, (), (), (), [], 512, 1, 6, 2, bytes "/dev/video0",
      bytes "unicast", bytes "video", bytes "/dev/dma_heap/system"⟩)

def sampleWorld : World := ⟨⟨⟨0, []⟩, []⟩, ⟨0, []⟩⟩

def sampleMemory : Memory Nat Nat Nat Nat Nat Nat Nat := ⟨fun _ => 0, fun _ => 0, fun _ => 0, 0, 0, 0, 0, []⟩

theorem started_streams_sample :
    ∃ coder ∈ (startAll sampleCameras sampleWorld).1, ∃ world after, 1 ≤ coder.rkyoloList.length ∧
      ∀ state, Reachable (CameraStream.step CameraStream.idrCalls coder.rkyoloList.length)
          (CameraStream.init coder.rkyoloList.length (coder.runState sampleMemory world after)) state →
        ((CamFramedSource.delivered state.source.log).map CamFramedSource.Frame.data).Sublist
          state.pooled.transCoder.sink.payloads := by
  have started : (startAll sampleCameras sampleWorld).1.length = 1 := by decide +kernel
  obtain ⟨coder, alone⟩ := List.length_eq_one_iff.mp started
  have member : coder ∈ (startAll sampleCameras sampleWorld).1 := by
    rw [alone]
    exact List.mem_singleton.mpr rfl
  obtain ⟨_, _, world, after, _, positive, _, streams⟩ := started_streams member
  refine ⟨coder, member, world, after, positive, ?_⟩
  intro state reached
  obtain ⟨_, _, _, _, among, _⟩ := (streams _ _ _ _ _ _ _ CameraStream.idrCalls sampleMemory).2 state reached
  exact among

end Yolov5Rknn.TransCoderInit
