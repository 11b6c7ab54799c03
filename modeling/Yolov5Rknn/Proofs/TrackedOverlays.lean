import Yolov5Rknn.TrackedCamera
import Yolov5Rknn.Proofs.TrackerSolver
import Yolov5Rknn.Proofs.GroupRecords
import Yolov5Rknn.Proofs.OverlayBounds
import Yolov5Rknn.Proofs.StreamDelivery

/-! What a camera with ByteTrack shows. However the workers and the threads interleave, its tracker sees
the detections of each frame once and in the order of capture, and an overlay shows tracks that were
matched in its own frame. -/

namespace Yolov5Rknn.TrackedCamera
open BYTETracker (Valid Solves Accounted Renewed)
open ByteTrackerWrapper (DetectResult DetectResultGroup objNameMaxSize objNumbMaxSize toObject)
open Program TransCoder Transition

/-! ### `post_process` -/

section records

variable {F Frame Tensor Image Deep Enc : Type} [Arithmetic F]

/-- The test before each record. -/
theorem postProcess_fits {toInt : F → Int} {request : PostProcess.Request F} {rounds : Nat}
    {group : DetectResultGroup F} (returned : PostProcess.postProcess toInt request rounds = .ok group) :
    group.results.length ≤ objNumbMaxSize := by
  unfold PostProcess.postProcess at returned
  split at returned
  · cases pure_result.mp returned
    exact Nat.zero_le _
  · obtain ⟨sorted, _, returned⟩ := bind_result.mp returned
    obtain ⟨indexArray, _, returned⟩ := bind_result.mp returned
    obtain ⟨results, written, returned⟩ := bind_result.mp returned
    cases pure_result.mp returned
    change results.length ≤ objNumbMaxSize
    refine foldlM_result (fun _ results => results.length ≤ objNumbMaxSize) ?_ (Nat.zero_le _) written
    intro i rest results next few taken
    unfold PostProcess.writeRecord at taken
    split at taken
    · cases pure_result.mp taken
      exact few
    next room =>
      obtain ⟨candidate, _, taken⟩ := bind_result.mp taken
      obtain ⟨label, _, taken⟩ := bind_result.mp taken
      cases pure_result.mp taken
      rw [List.length_append, List.length_singleton]
      omega

/-- Detections are what `post_process` returned on the outputs of the network. -/
def Parts.Posts (parts : Parts F Frame Tensor Image Deep Enc) : Prop :=
  ∀ tensor group, parts.postProcess tensor = (0, group) →
    ∃ rounds, PostProcess.postProcess parts.toInt (parts.request tensor) rounds = .ok group

theorem inference_posted {Group Byte : Type} {calls : TransCoder.Calls Frame Tensor Group Image Byte Deep Enc} {frame : Frame}
    {group : Group} {image : Image} (succeeded : inference calls frame = (0, some (group, image))) :
    ∃ tensor, calls.postProcess tensor = (0, group) := by
  unfold inference at succeeded
  split at succeeded
  · cases congrArg Prod.snd succeeded
  next tensor _ =>
    simp only at succeeded
    split at succeeded
    · cases congrArg Prod.snd succeeded
    · split at succeeded
      · cases congrArg Prod.snd succeeded
      · obtain ⟨ret, same⟩ := Prod.mk.inj succeeded
        cases same
        exact ⟨tensor, Prod.ext ret rfl⟩

theorem Parts.detected_some {parts : Parts F Frame Tensor Image Deep Enc} {frame : Frame} {group : DetectResultGroup F}
    {image : Image} (succeeded : inference parts.calls frame = (0, some (group, image))) :
    parts.detected frame = some group := by
  unfold Parts.detected
  rw [succeeded]
  rfl

theorem Parts.detected_none {parts : Parts F Frame Tensor Image Deep Enc} {frame : Frame}
    (failed : (inference parts.calls frame).1 ≠ 0) : parts.detected frame = none := by
  unfold Parts.detected
  split
  next reached => exact absurd (by rw [reached]) failed
  next => rfl

theorem detected_fits {parts : Parts F Frame Tensor Image Deep Enc} (posts : parts.Posts) {frame : Frame}
    {detections : DetectResultGroup F} (found : parts.detected frame = some detections) :
    detections.results.length ≤ objNumbMaxSize := by
  unfold Parts.detected at found
  split at found
  next group image succeeded =>
    cases found
    obtain ⟨tensor, posted⟩ := inference_posted succeeded
    obtain ⟨rounds, returned⟩ := posts tensor _ posted
    exact postProcess_fits returned
  next => cases found

end records

/-! ### The tracker -/

attribute [local instance] Arithmetic.ofField

variable {K : Type} [Field K] [LinearOrder K] [IsStrictOrderedRing K] {calls : BYTETracker.Calls K}

/-- The entry shows a track that was matched with an object of the same call. -/
def Entry (objects : List (BYTETracker.Object K)) (entry : DetectResult K) (position : Nat) : Prop :=
  ∃ object, objects[position]? = some object ∧ entry.prop = object.prob ∧ entry.classId = object.label ∧
    entry.name = object.name.take (objNameMaxSize - 1)

/-- What is shown of the detections of a frame: no id twice, and each entry belongs to a detection of its own. -/
structure Shown (detections tracked : DetectResultGroup K) : Prop where
  distinct : (tracked.results.map DetectResult.trackId).Nodup
  matched : ∃ taken : List Nat, taken.Nodup ∧
    List.Forall₂ (Entry (detections.results.filterMap toObject)) tracked.results taken

theorem tracked_shown (solves : Solves calls) {wrapper : ByteTrackerWrapper.Wrapper K} {count : Int}
    (valid : Valid wrapper.tracker count) (limit : 0 < wrapper.tracker.matchThresh ∧ wrapper.tracker.matchThresh ≤ 1)
    {detections : DetectResultGroup K} (fits : detections.results.length ≤ objNumbMaxSize) :
    Shown detections (ByteTrackerWrapper.update calls detections count wrapper).1 ∧
      Valid (ByteTrackerWrapper.update calls detections count wrapper).2.tracker
        (ByteTrackerWrapper.tracks calls detections count wrapper).count := by
  have same : BYTETracker.update calls.guarded (detections.results.filterMap toObject) wrapper.frameRate
      (wrapper.frameCount + 1) count wrapper.tracker = ByteTrackerWrapper.tracks calls detections count wrapper :=
    BYTETracker.update_guarded limit ..
  have accounted := valid.accounted solves.partitions compares_ofField same
  have ids : (BYTETracker.ids (ByteTrackerWrapper.tracks calls detections count wrapper).output).Nodup := by
    have kept := (BYTETracker.ids_sublist (BYTETracker.call_output same)).trans (BYTETracker.call_tracked_ids same)
    exact List.Nodup.sublist kept (valid.jointed_nodup solves.partitions same)
  have all : (ByteTrackerWrapper.update calls detections count wrapper).1.results =
      (ByteTrackerWrapper.tracks calls detections count wrapper).output.map (ByteTrackerWrapper.out calls) := by
    have objects := List.length_filterMap_le (toObject (F := K)) detections.results
    have few := accounted.length
    apply ByteTrackerWrapper.collect_all
    rw [List.length_nil]
    omega
  refine ⟨⟨?_, ?_⟩, valid.next solves.partitions same⟩
  · rw [all, List.map_map]
    exact ids
  · obtain ⟨taken, apart, renewed⟩ := accounted.output
    refine ⟨taken, apart, ?_⟩
    rw [all, List.forall₂_map_left_iff]
    apply renewed.imp
    intro track position matched
    obtain ⟨object, listed, score, name, label⟩ := matched.2.carries
    refine ⟨object, listed, score, label, ?_⟩
    rw [← name]
    rfl

/-- A tracker between two frames; `first` is the number of the frame before its first update. -/
structure Tracked (first : Int) (tracking : Tracking K) : Prop where
  valid : Valid tracking.session.wrapper.tracker tracking.session.count
  limit : 0 < tracking.session.wrapper.tracker.matchThresh ∧ tracking.session.wrapper.tracker.matchThresh ≤ 1
  frames : tracking.session.wrapper.frameCount = first + tracking.updates.length
  shown : ∀ update ∈ tracking.updates, Shown update.1 update.2

variable {first : Int} {tracking : Tracking K}

theorem Tracked.update (tracked : Tracked first tracking) (solves : Solves calls) {detections : DetectResultGroup K}
    (fits : detections.results.length ≤ objNumbMaxSize) : Tracked first (tracking.update calls detections).1 := by
  have valid := tracked.valid.later (Int.le_add_of_nonneg_right
    (Int.natCast_nonneg (tracking.foreign tracking.updates.length)))
  obtain ⟨shown, next⟩ := tracked_shown solves valid tracked.limit fits
  refine ⟨next, tracked.limit, ?_, ?_⟩
  · have grown : (tracking.update calls detections).1.updates.length = tracking.updates.length + 1 :=
      List.length_append
    rw [grown, Int.natCast_add, ← Int.add_assoc, ← tracked.frames]
    rfl
  · intro update member
    rcases List.mem_append.mp member with old | new
    · exact tracked.shown update old
    · rw [List.mem_singleton.mp new]
      exact shown

variable {Frame Tensor Image Deep Enc : Type} {parts : Parts K Frame Tensor Image Deep Enc}
  {sink : Sink (Tracking K) Deep Enc}

variable {after : Sink (Tracking K) Deep Enc} {skip : Int → Bool} {frames looped drained : List Frame}

omit [IsStrictOrderedRing K] in
/-- One frame of a plain loop, as its tracker sees it, whether or not its callback throws. -/
theorem plainFrame_tracker (own : sink.tracker = .bytetrack tracking) {frame : Frame}
    (ended : plainFrame parts.calls skip sink frame = .ok after ∨ plainFrame parts.calls skip sink frame = .error after) :
    after.tracker = .bytetrack
      ((parts.detected frame).elim tracking fun detections => (tracking.update parts.byteTrack detections).1) := by
  by_cases success : (inference parts.calls frame).1 = 0
  · obtain ⟨group, image, succeeded⟩ := inference_zero success
    rw [Parts.detected_some succeeded]
    unfold plainFrame at ended
    rw [succeeded, own] at ended
    simp only [TransCoder.Tracker.update] at ended
    split at ended
    · rcases ended with same | same <;> cases same
      rfl
    · split at ended
      · rcases ended with same | same <;> cases same
        rfl
      · split at ended
        · rcases ended with same | same <;> cases same
          rfl
        · rcases ended with same | same <;> cases same
          rfl
  · rw [plainFrame_failed success] at ended
    rw [Parts.detected_none success]
    rcases ended with same | same <;> cases same
    exact own

/-- The tracker has been given the detections of `frames`, after those it had been given in `tracking`. -/
def Follows (parts : Parts K Frame Tensor Image Deep Enc) (first : Int) (tracking : Tracking K) (frames : List Frame)
    (sink : Sink (Tracking K) Deep Enc) : Prop :=
  ∃ last, sink.tracker = .bytetrack last ∧ Tracked first last ∧
    last.updates.map Prod.fst = tracking.updates.map Prod.fst ++ frames.filterMap parts.detected

theorem plainFrame_follows (solves : Solves parts.byteTrack) (posts : parts.Posts) (tracked : Tracked first tracking)
    (own : sink.tracker = .bytetrack tracking) {frame : Frame}
    (ended : plainFrame parts.calls skip sink frame = .ok after ∨ plainFrame parts.calls skip sink frame = .error after) :
    Follows parts first tracking [frame] after := by
  have next := plainFrame_tracker own ended
  cases found : parts.detected frame with
  | none =>
    rw [found] at next
    refine ⟨tracking, next, tracked, ?_⟩
    rw [List.filterMap_cons_none found, List.filterMap_nil, List.append_nil]
  | some detections =>
    rw [found] at next
    refine ⟨_, next, tracked.update solves (detected_fits posts found), ?_⟩
    rw [List.filterMap_cons_some found]
    exact List.map_append

omit [IsStrictOrderedRing K] in
theorem Follows.trans {done : List Frame} {middle : Sink (Tracking K) Deep Enc}
    (follows : Follows parts first tracking done middle)
    (later : ∀ last, middle.tracker = .bytetrack last → Tracked first last → Follows parts first last frames after) :
    Follows parts first tracking (done ++ frames) after := by
  obtain ⟨last, own, tracked, updates⟩ := follows
  obtain ⟨final, tracker, kept, more⟩ := later last own tracked
  refine ⟨final, tracker, kept, ?_⟩
  rw [more, updates, List.filterMap_append, List.append_assoc]

/-- A plain loop that has reached all its frames. -/
theorem plainFrames_follows (solves : Solves parts.byteTrack) (posts : parts.Posts) (tracked : Tracked first tracking)
    (own : sink.tracker = .bytetrack tracking)
    (ended : plainFrames parts.calls skip frames sink = .ok after ∨
      plainFrames parts.calls skip frames sink = .error (after, [])) :
    Follows parts first tracking frames after := by
  induction frames generalizing sink tracking with
  | nil =>
    rcases ended with same | same <;> cases same
    exact ⟨tracking, own, tracked, (List.append_nil _).symm⟩
  | cons frame frames ih =>
    unfold plainFrames at ended
    split at ended
    next middle passed =>
      refine (plainFrame_follows solves posts tracked own (.inl passed)).trans ?_
      exact fun last own tracked => ih tracked own ended
    next thrown threw =>
      rcases ended with same | same
      · cases same
      · cases same
        exact plainFrame_follows solves posts tracked own (.inr threw)

theorem plainRun_follows (solves : Solves parts.byteTrack) (posts : parts.Posts) (tracked : Tracked first tracking)
    (own : sink.tracker = .bytetrack tracking)
    (ended : plainRun parts.calls looped drained sink = .ok after ∨
      plainRun parts.calls looped drained sink = .error (after, [])) :
    Follows parts first tracking (looped ++ drained) after := by
  unfold plainRun at ended
  split at ended
  next middle passed =>
    refine (plainFrames_follows solves posts tracked own (.inl passed)).trans ?_
    exact fun last own tracked => plainFrames_follows solves posts tracked own ended
  next thrown rest threw =>
    rcases ended with same | same
    · cases same
    · obtain ⟨rfl, none⟩ := Prod.mk.inj (Except.error.inj same)
      obtain ⟨rfl, rfl⟩ := List.append_eq_nil_iff.mp none
      rw [List.append_nil]
      exact plainFrames_follows solves posts tracked own (.inr threw)

/-- A camera with ByteTrack and the solver of the source. In every state that its workers, the threads of
its pool, of `run` and of the server and its driver can reach in any order, the tracker has
been given the detections of the frames done, each once and in the order of capture, and an overlay
shows tracks under different ids, each matched with a detection of its own frame. -/
theorem camera_tracks {threads : Nat} {start : State Frame Tensor (DetectResultGroup K) Image (Tracking K) Deep Enc}
    {state : CameraStream.State Frame Tensor (DetectResultGroup K) Image (Tracking K) Deep Enc}
    {frameRate trackBuffer count : Int} {trackThresh highThresh matchThresh : K} {foreign : Nat → Nat}
    (solves : Solves parts.byteTrack) (posts : parts.Posts) (limit : 0 < matchThresh ∧ matchThresh ≤ 1)
    (positive : 1 ≤ threads) (starts : Starts threads start) (fresh : start.sink.payloads = [])
    (created : start.sink.tracker = .bytetrack
      ⟨⟨ByteTrackerWrapper.create parts.byteTrack frameRate trackBuffer trackThresh highThresh matchThresh, count⟩,
        foreign, []⟩)
    (reached : Reachable (CameraStream.step parts.calls threads) (CameraStream.init threads start) state) :
    ∃ looped drained pending last,
      Sequential parts.calls start.sink state.pooled.transCoder looped drained pending ∧
        state.pooled.transCoder.sink.tracker = .bytetrack last ∧
        last.updates.map Prod.fst = (looped ++ drained).filterMap parts.detected ∧
        last.session.wrapper.frameCount = last.updates.length ∧
        ∀ update ∈ last.updates, Shown update.1 update.2 := by
  obtain ⟨spec, looped, drained, pending, joined, sequential⟩ :=
    CameraStream.stream_sequential positive starts fresh reached
  have own := joined.backed.sequential sequential
  have tracked : Tracked 0 (⟨⟨ByteTrackerWrapper.create parts.byteTrack frameRate trackBuffer trackThresh highThresh
      matchThresh, count⟩, foreign, []⟩ : Tracking K) :=
    ⟨ByteTrackerWrapper.create_valid .., limit, rfl, fun _ member => by cases member⟩
  have ended : plainRun parts.calls looped drained start.sink = .ok state.pooled.transCoder.sink ∨
      plainRun parts.calls looped drained start.sink = .error (state.pooled.transCoder.sink, []) := by
    rw [own.plain]
    split
    · exact .inr rfl
    · exact .inl rfl
  obtain ⟨last, tracker, kept, updates⟩ := plainRun_follows solves posts tracked created ended
  refine ⟨looped, drained, pending, last, own, tracker, updates, ?_, kept.shown⟩
  rw [kept.frames, Int.zero_add]

/-- The group that `post_process` returns for one object. -/
def samplePosted : Except Fault (DetectResultGroup ℚ) := PostProcess.postProcess Truncation.truncate PostProcess.sampleRequest 64

/-- One worker whose network always sees that object. -/
noncomputable def sampleParts : Parts ℚ Nat Nat Nat Nat Nat where
  preprocess frame := (0, frame)
  rknnRun tensor := (0, tensor)
  convert frame := (0, frame)
  toInt := Truncation.truncate
  request _ := PostProcess.sampleRequest
  postProcess _ := (0, (samplePosted.toOption).getD ⟨0, []⟩)
  byteTrack := { BYTETracker.sampleCalls with linearAssignment := BYTETracker.solver }
  deepSortUpdate tracker _ group := (tracker, group)
  overlay := RkYolo.sized
  output _ := ⟨true, 5⟩
  draw _ image := image
  width := 16
  height := 16
  encodeDmabuf encoder _ _ := (encoder, 6, [0, 0, 0, 1, 0x65, 7])

noncomputable def sampleTracking : Tracking ℚ :=
  ⟨⟨ByteTrackerWrapper.create sampleParts.byteTrack 30 30 (1 / 2) (3 / 5) (4 / 5), 0⟩, fun _ => 2, []⟩

noncomputable def trackedStart : State Nat Nat (DetectResultGroup ℚ) Nat (Tracking ℚ) Nat Nat where
  curYolo := 0
  rkyoloList := [⟨none, none, 0, ⟨0, []⟩⟩]
  outputDmaBuffers := [0]
  buffers := [some 8, some 6]
  queued := [0, 1]
  pendingJobs := []
  promises := []
  tasks := []
  running := []
  sink := ⟨.bytetrack sampleTracking, 0, [], []⟩
  control := .head
  captured := []

/-- The frame is captured, inferred, tracked and rendered. -/
def sampleEvents : List (CameraStream.Event Nat) :=
  [.transCoder (.run (.frame 0)), .transCoder (.pool (.notifyOne none)), .transCoder (.pool (.check 0)),
    .transCoder (.pool (.finish 0)), .transCoder (.run .resume)]

theorem samplePosted_ok : ∃ group, samplePosted = .ok group := by
  have ended : samplePosted.toOption.isSome := by decide +kernel
  cases posted : samplePosted with
  | error fault =>
    rw [posted] at ended
    cases ended
  | ok group => exact ⟨group, rfl⟩

theorem camera_tracks_sample :
    ∃ state, run (CameraStream.step sampleParts.calls 1) sampleEvents (CameraStream.init 1 trackedStart) = some state ∧
      ∃ done : List Nat, ∃ last : Tracking ℚ, state.pooled.transCoder.sink.tracker = .bytetrack last ∧
        last.updates.map Prod.fst = done.filterMap sampleParts.detected ∧
        ∀ update ∈ last.updates, Shown update.1 update.2 := by
  have executed : (run (CameraStream.step sampleParts.calls 1) sampleEvents (CameraStream.init 1 trackedStart)).isSome :=
    rfl
  obtain ⟨state, reached⟩ := Option.isSome_iff_exists.mp executed
  have posts : sampleParts.Posts := by
    intro tensor group same
    obtain ⟨posted, returned⟩ := samplePosted_ok
    obtain ⟨_, rfl⟩ := Prod.mk.inj same
    refine ⟨64, ?_⟩
    change samplePosted = .ok (samplePosted.toOption.getD ⟨0, []⟩)
    rw [returned]
    rfl
  have starts : Starts 1 trackedStart := ⟨rfl, rfl, rfl, rfl, rfl, rfl, rfl, rfl, rfl, rfl⟩
  obtain ⟨looped, drained, _, last, _, tracker, updates, _, shown⟩ := camera_tracks
    (BYTETracker.solver_solves BYTETracker.sampleCalls) posts (by decide +kernel) le_rfl starts rfl rfl
    ⟨sampleEvents, reached⟩
  exact ⟨state, reached, looped ++ drained, last, tracker, updates, shown⟩

end Yolov5Rknn.TrackedCamera
