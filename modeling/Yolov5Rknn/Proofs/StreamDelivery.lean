import Yolov5Rknn.CameraStream
import Yolov5Rknn.Logic.Positions
import Yolov5Rknn.Proofs.FrameDelivery
import Yolov5Rknn.Proofs.PooledRefinement

/-! What a client of the stream receives, over every interleaving of the driver, the
pool, the thread of `run` and the event loop: frames of the plain loop, in its order. -/

namespace Yolov5Rknn.CamFramedSource
open Transition

variable {state next : State} {event : Event} {payloads : List (List UInt8)}

/-- The source numbers the payloads it was handed; each of them was accepted, was
discarded or is in the hands of the encoder thread, and only one of these. -/
structure Carried (payloads : List (List UInt8)) (state : State) : Prop where
  encoded : state.encoded = payloads.length
  content : ∀ frame ∈ state.accepted ++ state.current, payloads[frame.number]? = some frame.data
  fates : (state.accepted.map Frame.number ++ state.discarded ++ state.current.map Frame.number).Perm
    (List.range payloads.length)

theorem createNew_carried : Carried [] createNew :=
  ⟨rfl, fun _ member => absurd member List.not_mem_nil, .refl _⟩

theorem Carried.of_view (carried : Carried payloads state) (encoded : next.encoded = state.encoded)
    (accepted : next.accepted = state.accepted) (discarded : next.discarded = state.discarded)
    (current : next.current = state.current) : Carried payloads next := by
  constructor
  case encoded => rw [encoded]; exact carried.encoded
  case content => rw [accepted, current]; exact carried.content
  case fates => rw [accepted, discarded, current]; exact carried.fates

/-- The frame in hand is discarded. -/
theorem Carried.discard {frame : Frame} (carried : Carried payloads state) (held : state.current = [frame])
    (encoded : next.encoded = state.encoded) (accepted : next.accepted = state.accepted)
    (discarded : next.discarded = state.discarded ++ [frame.number]) (idle : next.current = []) :
    Carried payloads next := by
  constructor
  case encoded => rw [encoded]; exact carried.encoded
  case content =>
    rw [accepted, idle, List.append_nil]
    exact fun other member => carried.content other (List.mem_append_left _ member)
  case fates =>
    have fates := carried.fates
    rw [held, List.map_singleton] at fates
    rw [accepted, discarded, idle, List.map_nil, List.append_nil, ← List.append_assoc]
    exact fates

theorem onEncodedData_carried (carried : Carried payloads state) (ready : state.encoder = .idle)
    (data : List UInt8) : Carried (payloads ++ [data]) (onEncodedData data state) := by
  have idle : state.current = [] := by simp [State.current, ready]
  have content := carried.content
  have fates := carried.fates
  rw [idle, List.append_nil] at content
  rw [idle, List.map_nil, List.append_nil] at fates
  constructor
  case encoded =>
    rw [List.length_append, List.length_singleton, ← carried.encoded]
    rfl
  case content =>
    rw [onEncodedData_current]
    intro frame member
    rcases List.mem_append.mp member with earlier | fresh
    · have there := content frame earlier
      have inside := (List.getElem?_eq_some_iff.mp there).1
      rw [List.getElem?_append_left inside]
      exact there
    · cases List.mem_singleton.mp fresh
      simp [carried.encoded]
  case fates =>
    rw [onEncodedData_current, List.length_append, List.length_singleton, List.range_succ, List.map_singleton,
      ← carried.encoded]
    rw [← carried.encoded] at fates
    exact fates.append_right _

theorem moved_carried (carried : Carried payloads state) (moved : Moved state event next)
    (own : ∀ data, event ≠ .onEncodedData data) : Carried payloads next := by
  cases moved with
  | received data => exact absurd rfl (own data)
  | dropped frame ready => exact carried.discard (by simp [State.current, ready]) rfl rfl rfl rfl
  | refused frame ready => exact carried.discard (by simp [State.current, ready]) rfl rfl rfl rfl
  | resumed frame ready | passed frame ready | cleared frame ready | raised ready =>
    exact carried.of_view rfl rfl rfl (by simp [State.current, ready])
  | pushed frame ready =>
    have held : state.current = [frame] := by simp [State.current, ready]
    have content := carried.content
    have fates := carried.fates
    rw [held] at content fates
    constructor
    case encoded => exact carried.encoded
    case content => simpa [State.current] using content
    case fates =>
      refine List.Perm.trans ?_ fates
      simp only [State.current, List.map_append, List.map_singleton, List.map_nil, List.append_nil,
        List.append_assoc]
      exact List.perm_append_comm.append_left _
  | served | entered | left | requested | stopping | stopped | empty | found | awaited | ignored | popped
  | underflowed | copied => exact carried.of_view rfl rfl rfl rfl

/-- What was delivered is a sublist of what the encoder handed over. -/
theorem Ordered.delivered_sublist (ordered : Ordered state) (carried : Carried payloads state) :
    ((delivered state.log).map Frame.data).Sublist payloads := by
  have first : (delivered state.log).Sublist (state.accepted ++ state.current) := by
    rw [ordered.accepted, List.append_assoc, List.append_assoc]
    exact List.sublist_append_left _ _
  apply Positions.sublist_of_positions Frame.number Frame.data (ordered.increasing.sublist first)
  exact fun frame member => carried.content frame (first.subset member)

end Yolov5Rknn.CamFramedSource

namespace Yolov5Rknn.CameraStream
open Transition TransCoder Simulation

variable {Frame Tensor Group Image Byte Deep Enc : Type}
  {calls : Calls Frame Tensor Group Image Byte Deep Enc} {threads : Nat}
  {state next : State Frame Tensor Group Image Byte Deep Enc}
  {spec after : TransCoder.State Frame Tensor Group Image Byte Deep Enc}

theorem finishJob_payloads (calls : Calls Frame Tensor Group Image Byte Deep Enc) (skip : Int → Bool)
    (onward : Control) (finished : PendingJob) (ret : Int) :
    ∃ fresh, (finishJob calls skip onward finished ret spec).sink.payloads = spec.sink.payloads ++ fresh ∧
      fresh.length ≤ 1 := by
  have requeued (index : Nat) : (spec.qbuf index).sink = spec.sink := by
    unfold State.qbuf
    split <;> rfl
  unfold finishJob
  simp only
  split
  · exact ⟨[], by simp [requeued], Nat.zero_le _⟩
  · split
    · exact ⟨[], by simp, Nat.zero_le _⟩
    · split
      · exact ⟨[], by simp, Nat.zero_le _⟩
      · split
        · split
          · exact ⟨[], by simp [State.qbuf, apply_ite], Nat.zero_le _⟩
          · split
            · exact ⟨[], by simp [State.qbuf, apply_ite], Nat.zero_le _⟩
            · split
              · exact ⟨[], by simp [State.qbuf, apply_ite], Nat.zero_le _⟩
              · split
                · exact ⟨[], by simp [State.qbuf, apply_ite], Nat.zero_le _⟩
                next bytes _ => exact ⟨[bytes], by simp [State.qbuf, apply_ite], Nat.le_refl _⟩
        · exact ⟨[], by simp [State.qbuf, apply_ite], Nat.zero_le _⟩

theorem step_payloads {event : TransCoder.Event Frame} (owned : Owned threads spec)
    (taken : TransCoder.step calls threads event spec = some after) :
    ∃ fresh, after.sink.payloads = spec.sink.payloads ++ fresh ∧ fresh.length ≤ 1 ∧
      (event ≠ .resume → fresh = []) := by
  have unchanged (same : after.sink = spec.sink) :
      ∃ fresh, after.sink.payloads = spec.sink.payloads ++ fresh ∧ fresh.length ≤ 1 ∧
        (event ≠ .resume → fresh = []) :=
    ⟨[], by rw [same, List.append_nil], Nat.zero_le _, fun _ => rfl⟩
  cases step_stepped taken with
  | fill | timeout | error | stop | drain | close => exact unchanged rfl
  | frame head queued =>
    rcases owned.dequeue head queued with same | ⟨frame, content, captured⟩
    · exact unchanged (by rw [same]; rfl)
    · exact unchanged captured.sink
  | resume | resumeDrain =>
    obtain ⟨fresh, payloads, few⟩ := finishJob_payloads calls _ _ _ _
    exact ⟨fresh, payloads, few, fun other => absurd rfl other⟩
  | begin waiting => exact unchanged (beginTask_worked calls waiting).sink
  | finish running => exact unchanged (finishTask_worked calls running).sink

/-- Only the thread of `run` hands payloads over, one at a time. -/
theorem pooled_payloads {event : PooledTransCoder.Event Frame}
    {pooled moved : PooledTransCoder.State Frame Tensor Group Image Byte Deep Enc}
    (backed : PooledTransCoder.Backed threads pooled spec)
    (taken : PooledTransCoder.step calls threads event pooled = some moved) :
    ∃ fresh, moved.transCoder.sink.payloads = pooled.transCoder.sink.payloads ++ fresh ∧ fresh.length ≤ 1 ∧
      (byRun event = false → fresh = []) := by
  rcases PooledTransCoder.step_split backed taken with ⟨own, after, rfl, stepped, kept⟩ | ⟨_, unmoved⟩
  · obtain ⟨fresh, payloads, few, only⟩ := step_payloads backed.owned stepped
    refine ⟨fresh, by rw [kept.sink, backed.sink, payloads], few, ?_⟩
    intro other
    apply only
    rintro rfl
    cases other
  · exact ⟨[], by rw [unmoved.sink, List.append_nil], Nat.zero_le _, fun _ => rfl⟩

/-- The transcoder behind its pool, and the source that carries its payloads on. -/
structure Joined (threads : Nat) (state : State Frame Tensor Group Image Byte Deep Enc)
    (spec : TransCoder.State Frame Tensor Group Image Byte Deep Enc) : Prop where
  backed : PooledTransCoder.Backed threads state.pooled spec
  ordered : CamFramedSource.Ordered state.source
  carried : CamFramedSource.Carried spec.sink.payloads state.source

theorem Starts.joined {start : TransCoder.State Frame Tensor Group Image Byte Deep Enc} (positive : 1 ≤ threads)
    (starts : Starts threads start) (fresh : start.sink.payloads = []) :
    Joined threads (init threads start) start where
  backed := PooledTransCoder.Starts.backed positive starts
  ordered := CamFramedSource.createNew_ordered
  carried := by rw [fresh]; exact CamFramedSource.createNew_carried

theorem transCoder_joined {event : PooledTransCoder.Event Frame} (joined : Joined threads state spec)
    (taken : step calls threads (.transCoder event) state = some next) :
    ∃ answer after, run (TransCoder.step calls threads) answer spec = some after ∧ Joined threads next after := by
  simp only [step] at taken
  split at taken
  next => cases taken
  next free =>
    obtain ⟨pooled, moved, rfl⟩ := Option.map_eq_some_iff.mp taken
    obtain ⟨answer, after, answered, kept⟩ := PooledTransCoder.step_simulates event _ _ spec joined.backed moved
    obtain ⟨fresh, payloads, few, only⟩ := pooled_payloads joined.backed moved
    have put : pooled.transCoder.sink.payloads.drop state.pooled.transCoder.sink.payloads.length = fresh := by
      rw [payloads, List.drop_left]
    have grown : after.sink.payloads = spec.sink.payloads ++ fresh := by
      rw [← kept.sink, payloads, joined.backed.sink]
    have idle (handed : fresh ≠ []) : state.source.encoder = .idle := by
      by_contra busy
      cases mover : byRun event with
      | false => exact handed (only mover)
      | true => exact free ⟨mover, busy⟩
    refine ⟨answer, after, answered, kept, ?_, ?_⟩
    · rw [callBack, put]
      cases fresh with
      | nil => exact joined.ordered
      | cons data rest =>
        obtain rfl : rest = [] := List.eq_nil_of_length_eq_zero (by simpa using few)
        exact CamFramedSource.moved_ordered joined.ordered (.received data (idle (by simp)))
    · rw [callBack, put, grown]
      cases fresh with
      | nil => rw [List.append_nil]; exact joined.carried
      | cons data rest =>
        obtain rfl : rest = [] := List.eq_nil_of_length_eq_zero (by simpa using few)
        exact CamFramedSource.onEncodedData_carried joined.carried (idle (by simp)) data

theorem step_simulates : Simulates (step calls threads) (TransCoder.step calls threads) (Joined threads) := by
  intro event state next spec joined taken
  cases event with
  | transCoder event => exact transCoder_joined joined taken
  | source event =>
    have moves (own : ∀ data, event ≠ .onEncodedData data)
        (taken : (CamFramedSource.step event state.source).map (fun source => { state with source }) = some next) :
        ∃ answer after, run (TransCoder.step calls threads) answer spec = some after ∧ Joined threads next after := by
      obtain ⟨source, stepped, rfl⟩ := Option.map_eq_some_iff.mp taken
      have moved := CamFramedSource.step_moved stepped
      exact ⟨[], spec, rfl, joined.backed, CamFramedSource.moved_ordered joined.ordered moved,
        CamFramedSource.moved_carried joined.carried moved own⟩
    cases event with
    | onEncodedData => cases taken
    | encoder | deliverFrame0 | enter | leave | getNextFrame | stopGettingFrames | server =>
      exact moves (by simp) taken

theorem Joined.delivers {sink : Sink Byte Deep Enc} {looped drained pending : List Frame}
    (joined : Joined threads state spec) (sequential : Sequential calls sink spec looped drained pending) :
    Sequential calls sink state.pooled.transCoder looped drained pending ∧
      ((CamFramedSource.delivered state.source.log).map CamFramedSource.Frame.data).Sublist
        state.pooled.transCoder.sink.payloads ∧
      (state.source.accepted.map CamFramedSource.Frame.number ++ state.source.discarded ++
          state.source.current.map CamFramedSource.Frame.number).Perm
        (List.range state.pooled.transCoder.sink.payloads.length) := by
  refine ⟨joined.backed.sequential sequential, ?_, ?_⟩
  · rw [joined.backed.sink]
    exact joined.ordered.delivered_sublist joined.carried
  · rw [joined.backed.sink]
    exact joined.carried.fates

theorem stream_sequential {start : TransCoder.State Frame Tensor Group Image Byte Deep Enc} (positive : 1 ≤ threads)
    (starts : Starts threads start) (fresh : start.sink.payloads = [])
    (reached : Reachable (step calls threads) (init threads start) state) :
    ∃ spec looped drained pending, Joined threads state spec ∧
      Sequential calls start.sink spec looped drained pending := by
  obtain ⟨spec, projected, joined⟩ := step_simulates.reachable (Starts.joined positive starts fresh) reached
  obtain ⟨looped, drained, pending, sequential⟩ := reachable_sequential positive starts projected
  exact ⟨spec, looped, drained, pending, joined, sequential⟩

/-- End to end. What a client received is, in order and without repetition, among the
payloads of the plain loops over a prefix of the captured frames; each of those payloads
was accepted, was discarded for want of a request or of an IDR frame, or is in the hands
of the encoder thread, and only one of these. -/
theorem stream_delivers_plainRun {start : TransCoder.State Frame Tensor Group Image Byte Deep Enc}
    (positive : 1 ≤ threads) (starts : Starts threads start) (fresh : start.sink.payloads = [])
    (reached : Reachable (step calls threads) (init threads start) state) :
    ∃ looped drained pending, Sequential calls start.sink state.pooled.transCoder looped drained pending ∧
      ((CamFramedSource.delivered state.source.log).map CamFramedSource.Frame.data).Sublist
        state.pooled.transCoder.sink.payloads ∧
      (state.source.accepted.map CamFramedSource.Frame.number ++ state.source.discarded ++
          state.source.current.map CamFramedSource.Frame.number).Perm
        (List.range state.pooled.transCoder.sink.payloads.length) := by
  obtain ⟨spec, looped, drained, pending, joined, sequential⟩ := stream_sequential positive starts fresh reached
  exact ⟨looped, drained, pending, joined.delivers sequential⟩

/-- Every payload is an IDR slice that carries its image. -/
def idrCalls : Calls Nat Nat Nat Nat Nat Nat Nat :=
  { sampleCalls with encodeDmabuf := fun encoder image _ => (encoder + 1, 6, [0, 0, 0, 1, 0x65, image.toUInt8]) }

/-- The first payload meets no request; the client then asks and receives the second. -/
def sampleEvents : List (Event Nat) :=
  let infer : List (Event Nat) := [.transCoder (.pool (.check 0)), .transCoder (.pool (.finish 0)),
    .transCoder (.run .resume)]
  [.transCoder (.run (.frame 0)), .transCoder (.pool (.notifyOne none))] ++ infer ++
    [.source .encoder, .source .enter, .source (.getNextFrame 1024), .source .server,
      .transCoder (.run (.frame 1)), .transCoder (.pool (.notifyOne none))] ++ infer ++
    [.source .encoder, .source .encoder, .source .encoder, .source .encoder, .source .deliverFrame0,
      .source .server, .source .server, .source .server]

theorem stream_delivers_plainRun_sample :
    ∃ state, Reachable (step idrCalls 1) (init 1 (sampleStart 1 [some 8, some 6])) state ∧
      (CamFramedSource.delivered state.source.log).map CamFramedSource.Frame.data = [[0x65, 20]] ∧
      [[0x65, 20]].Sublist state.pooled.transCoder.sink.payloads := by
  have outcome : (run (step idrCalls 1) sampleEvents (init 1 (sampleStart 1 [some 8, some 6]))).map
      (fun state => (CamFramedSource.delivered state.source.log).map CamFramedSource.Frame.data) =
        some [[0x65, 20]] := by decide
  obtain ⟨state, executed, received⟩ := Option.map_eq_some_iff.mp outcome
  obtain ⟨_, _, _, _, among, _⟩ := stream_delivers_plainRun (by decide) (sampleStart_starts 1 [some 8, some 6]) rfl
    ⟨sampleEvents, executed⟩
  rw [received] at among
  exact ⟨state, ⟨sampleEvents, executed⟩, received, among⟩

end Yolov5Rknn.CameraStream
