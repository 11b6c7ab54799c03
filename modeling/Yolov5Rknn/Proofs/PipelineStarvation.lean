import Yolov5Rknn.Proofs.PipelineOwnership

/-! When the capture loop can run out of queued buffers. Only a full deque of
pending jobs gives a buffer back to the driver, so the loop needs a buffer
beyond the `rknn_thread - 1` that pending jobs may hold at its head. -/

namespace Yolov5Rknn.TransCoder
open Transition

variable {Frame Tensor Group Image Byte Deep Enc : Type}
  {calls : Calls Frame Tensor Group Image Byte Deep Enc} {threads : Nat}
  {state next start : State Frame Tensor Group Image Byte Deep Enc}

/-- Every capture buffer has its mapping: `v4l2_dmabuf_open` fails otherwise. -/
def Mapped (state : State Frame Tensor Group Image Byte Deep Enc) : Prop :=
  ∀ content ∈ state.buffers, content.isSome

/-- Dequeueing the first `count` buffers before any worker moves. -/
private theorem dequeue_first (calls : Calls Frame Tensor Group Image Byte Deep Enc) (positive : 1 ≤ threads)
    (starts : Starts threads start) (mapped : Mapped start) (scarce : start.buffers.length < threads) (count : Nat)
    (available : count ≤ start.buffers.length) :
    ∃ state, Reachable (step calls threads) start state ∧ state.control = .head ∧
      state.buffers = start.buffers ∧ state.pendingJobs.length = count ∧
      state.queued = List.range' count (start.buffers.length - count) := by
  induction count with
  | zero =>
    refine ⟨start, .refl _, starts.control, rfl, by simp [starts.pendingJobs], ?_⟩
    rw [starts.queued, List.range_eq_range', Nat.sub_zero]
  | succ count ih =>
    obtain ⟨state, reached, head, buffers, pending, queued⟩ := ih (by omega)
    have owned := reachable_owned positive starts reached
    rw [show start.buffers.length - count = start.buffers.length - (count + 1) + 1 by omega,
      List.range'_succ] at queued
    have inside : count < state.buffers.length := by rw [buffers]; omega
    obtain ⟨frame, content⟩ : ∃ frame, state.buffers[count]? = some (some frame) := by
      have present := mapped state.buffers[count] (by rw [← buffers]; exact List.getElem_mem inside)
      obtain ⟨frame, same⟩ := Option.isSome_iff_exists.mp present
      exact ⟨frame, by rw [List.getElem?_eq_getElem inside, same]⟩
    have effect := capture_captured owned head content
    have stays : (capture threads count (dequeued threads count state)).control = .head :=
      effect.control.resolve_right fun full => by have := full.1; omega
    have taken : step calls threads (.frame count) state =
        some (capture threads count (dequeued threads count state)) := by
      simp only [step, head]
      exact if_pos (by rw [queued]; exact .head _)
    refine ⟨_, reached.extend taken, stays, ?_, ?_, ?_⟩
    · rw [effect.buffers, buffers]
    · have flying := effect.inflight
      simp only [inflight, stays] at flying
      rw [flying, List.length_append, List.length_singleton, pending]
    · rw [effect.queued, queued, List.erase_cons_head]

/-- A buffer is queued whenever the loop calls `v4l2_dmabuf_dqbuf`, exactly when
there are at least as many capture buffers as workers. -/
theorem dqbuf_never_starves_iff (calls : Calls Frame Tensor Group Image Byte Deep Enc) (config : Config)
    {start : State Frame Tensor Group Image Byte Deep Enc}
    (starts : Starts config.init.rknnThread.toNat start) (mapped : Mapped start) :
    (∀ state, Reachable (step calls config.init.rknnThread.toNat) start state →
      state.control = .head → state.queued ≠ []) ↔
    config.init.rknnThread.toNat ≤ start.buffers.length := by
  have positive : 1 ≤ config.init.rknnThread.toNat := by
    have := config.init_rknnThread
    omega
  constructor
  · intro fed
    by_contra scarce
    obtain ⟨state, reached, head, _, _, queued⟩ :=
      dequeue_first calls positive starts mapped (by omega) _ le_rfl
    refine fed state reached head ?_
    rw [queued, Nat.sub_self, List.range'_zero]
  · intro enough state reached head empty
    have owned := reachable_owned positive starts reached
    have sized := (reachable_sized positive starts reached).resolve_left (by simp [head])
    have counted := owned.captures.length_eq
    have room := owned.room
    simp only [inflight, head, empty, List.nil_append, List.length_map, List.length_range] at counted
    omega

/-- The default configuration with three buffers, one per worker. -/
theorem dqbuf_never_starves_iff_sample :
    (∀ state, Reachable (step sampleCalls 3) (sampleStart 3 [some 1, some 2, some 3]) state →
      state.control = .head → state.queued ≠ []) ↔ 3 ≤ [some 1, some 2, some 3].length :=
  dqbuf_never_starves_iff sampleCalls ⟨3, 4⟩ (sampleStart_starts 3 [some 1, some 2, some 3])
    (by simp [Mapped, sampleStart])

/-- Six workers and the four buffers asked for by default: the loop comes back
to its head with every buffer held by a pending job. -/
theorem dqbuf_starves :
    ¬ ∀ (config : Config) (start : State Nat Nat Nat Nat Nat Nat Nat),
      Starts config.init.rknnThread.toNat start → Mapped start → 2 ≤ start.buffers.length →
      ∀ state, Reachable (step sampleCalls config.init.rknnThread.toNat) start state →
        state.control = .head → state.queued ≠ [] := by
  intro fed
  have outcome : (run (step sampleCalls 6) [.frame 0, .frame 1, .frame 2, .frame 3]
      (sampleStart 6 [some 1, some 2, some 3, some 4])).map
      (fun state => (state.control, state.queued)) = some (.head, []) := by decide
  obtain ⟨state, executed, observed⟩ := Option.map_eq_some_iff.mp outcome
  obtain ⟨head, empty⟩ := Prod.mk.inj observed
  exact fed ⟨6, 4⟩ _ (sampleStart_starts 6 _) (by simp [Mapped, sampleStart]) (by decide) state
    ⟨_, executed⟩ head empty

/-- Once starved at its head the loop waits for ever: until `stop`, no schedule
queues a buffer again. -/
theorem starved_forever {events : List (Event Frame)} (head : state.control = .head)
    (empty : state.queued = []) (unstopped : .stop ∉ events)
    (executed : run (step calls threads) events state = some next) :
    next.control = .head ∧ next.queued = [] := by
  have permitted : Along (step calls threads) (fun _ event => event ≠ .stop) events state := by
    clear executed empty head
    induction events generalizing state with
    | nil => trivial
    | cons event rest ih =>
      rw [List.mem_cons, not_or] at unstopped
      exact ⟨Ne.symm unstopped.1, fun _ _ => ih unstopped.2⟩
  refine run_keeps (fun state => state.control = .head ∧ state.queued = []) ?_ permitted
    ⟨head, empty⟩ executed
  intro event state next running ⟨head, empty⟩ taken
  cases step_stepped taken with
  | fill queued | frame _ queued =>
    rw [empty] at queued
    cases queued
  | timeout | error => exact ⟨head, empty⟩
  | stop => exact absurd rfl running
  | resume waiting | resumeDrain waiting => cases head.symm.trans waiting
  | drain draining | close draining => cases head.symm.trans draining
  | begin waiting =>
    have worked := beginTask_worked calls waiting
    exact ⟨worked.control.trans head, worked.queued.trans empty⟩
  | finish task =>
    have worked := finishTask_worked calls task
    exact ⟨worked.control.trans head, worked.queued.trans empty⟩

end Yolov5Rknn.TransCoder
