import Yolov5Rknn.MThread
import Yolov5Rknn.Proofs.PipelineOwnership

/-! Whether the callback can run after the destructor. The constructor has
detached the thread, so `stop` finds nothing to join and returns while `run` may
still hold jobs. -/

namespace Yolov5Rknn.MThread
open Transition TransCoder

variable {Frame Tensor Group Image Byte Deep Enc : Type}
  {calls : Calls Frame Tensor Group Image Byte Deep Enc} {threads : Nat}
  {state next start final : State Frame Tensor Group Image Byte Deep Enc}

/-- `MThread::stop` has returned. -/
def State.stopped (state : State Frame Tensor Group Image Byte Deep Enc) : Prop :=
  state.owner = .releasing ∨ state.owner = .destroyed

/-- `stop` returns only after `run` has. -/
def Joined (state : State Frame Tensor Group Image Byte Deep Enc) : Prop :=
  state.stopped → state.thread = .returned

/-- No call of the callback after the destructor has returned. -/
def Silent (state : State Frame Tensor Group Image Byte Deep Enc) : Prop :=
  .destroyed ∉ state.calledBack

/-- A step by which `stop` gets past `joinable` finds something to join, or `run`
returned on its own. -/
def Waits (state : State Frame Tensor Group Image Byte Deep Enc) (event : Event Frame) : Prop :=
  event = .owner → state.owner = .testing → state.joinable = true ∨ state.thread = .returned

/-- `run` has no job left and is not about to take another frame. -/
def Spent (state : State Frame Tensor Group Image Byte Deep Enc) : Prop :=
  state.thread = .returned ∨ state.thread ≠ .polling ∧ inflight state.pipeline = []

/-- The same for what `run` still has to hand on. -/
def FindsSpent (state : State Frame Tensor Group Image Byte Deep Enc) (event : Event Frame) : Prop :=
  event = .owner → state.owner = .testing → state.joinable = true ∨ Spent state

/-! ### What a step changes -/

/-- The steps by the thread they belong to. -/
inductive Moves (calls : Calls Frame Tensor Group Image Byte Deep Enc) (threads : Nat)
    (state next : State Frame Tensor Group Image Byte Deep Enc) : Event Frame → Prop where
  | owner (taken : ownerStep state = some next) : Moves calls threads state next .owner
  | enter (entering : state.thread = .entering)
      (same : next = { state with thread := if state.ready then .looping else .returned }) :
      Moves calls threads state next .enter
  | leave {pipeline} (looping : state.thread = .looping) (head : state.pipeline.control = .head)
      (stopState : state.stopState = true)
      (taken : TransCoder.step calls threads .stop state.pipeline = some pipeline)
      (same : next = { state with pipeline }) : Moves calls threads state next .isStoped
  | stay (looping : state.thread = .looping) (head : state.pipeline.control = .head)
      (stopState : state.stopState = false) (same : next = { state with thread := .polling }) :
      Moves calls threads state next .isStoped
  | advance {event pipeline} (runs : state.thread = .polling ∨
        state.thread = .looping ∧ (event = .resume ∨ event = .drain))
      (taken : TransCoder.step calls threads event state.pipeline = some pipeline)
      (same : next = state.advance pipeline) : Moves calls threads state next (.pipeline event)
  | work {event pipeline} (pool : event = .begin ∨ (∃ position, event = .finish position) ∨
        ∃ index content, event = .fill index content)
      (taken : TransCoder.step calls threads event state.pipeline = some pipeline)
      (same : next = { state with pipeline }) : Moves calls threads state next (.pipeline event)

theorem step_moves {event : Event Frame} (taken : step calls threads event state = some next) :
    Moves calls threads state next event := by
  unfold step at taken
  split at taken
  · cases taken
  · cases event with
    | owner => exact .owner taken
    | enter =>
      simp only at taken
      split at taken
      next entering => exact .enter entering (Option.some.inj taken).symm
      next => cases taken
    | isStoped =>
      simp only at taken
      split at taken
      next head =>
        split at taken
        next stopState =>
          obtain ⟨pipeline, moved, rfl⟩ := Option.map_eq_some_iff.mp taken
          exact .leave head.1 head.2 stopState moved rfl
        next running => exact .stay head.1 head.2 (by simpa using running) (Option.some.inj taken).symm
      next => cases taken
    | pipeline event =>
      cases event with
      | fill | begin | finish =>
        obtain ⟨pipeline, moved, rfl⟩ := Option.map_eq_some_iff.mp taken
        exact .work (by simp) moved rfl
      | frame | timeout | error =>
        simp only [pipelineStep] at taken
        split at taken
        next polling =>
          obtain ⟨pipeline, moved, rfl⟩ := Option.map_eq_some_iff.mp taken
          exact .advance (.inl polling) moved rfl
        next => cases taken
      | resume | drain =>
        simp only [pipelineStep] at taken
        split at taken
        next looping =>
          obtain ⟨pipeline, moved, rfl⟩ := Option.map_eq_some_iff.mp taken
          exact .advance (.inr ⟨looping, by simp⟩) moved rfl
        next => cases taken
      | stop => cases taken

theorem ownerStep_calledBack (taken : ownerStep state = some next) :
    next.calledBack = state.calledBack ∧ next.pipeline = state.pipeline := by
  unfold ownerStep at taken
  split at taken
  case h_7 =>
    split at taken
    · cases taken; exact ⟨rfl, rfl⟩
    · cases taken
  case h_9 => cases taken
  all_goals cases taken; exact ⟨rfl, rfl⟩

/-- The ways into the states after `stop`: past `joinable`, out of a join, or on
from such a state. None of them is the thread's. -/
theorem ownerStep_stopped (taken : ownerStep state = some next) (stopped : next.stopped) :
    next.thread = state.thread ∧
      (state.owner = .testing ∧ state.joinable = false ∨
        state.owner = .joining ∧ state.thread = .returned ∨ state.stopped) := by
  unfold ownerStep at taken
  cases position : state.owner with
  | testing =>
    simp only [position, Option.some.injEq] at taken
    subst taken
    refine ⟨rfl, Or.inl ⟨rfl, ?_⟩⟩
    cases joinable : state.joinable with
    | true => simp [State.stopped, joinable] at stopped
    | false => rfl
  | joining =>
    simp only [position] at taken
    split at taken
    next returned => cases taken; exact ⟨rfl, Or.inr (Or.inl ⟨rfl, returned⟩)⟩
    next => cases taken
  | releasing =>
    simp only [position, Option.some.injEq] at taken
    subst taken
    exact ⟨rfl, Or.inr (Or.inr (Or.inl position))⟩
  | destroyed =>
    simp only [position] at taken
    cases taken
  | binding | starting | detaching | serving | stopping =>
    simp only [position, Option.some.injEq] at taken
    subst taken
    rcases stopped with stopped | stopped <;> cases stopped

theorem Silent.advance {pipeline : TransCoder.State Frame Tensor Group Image Byte Deep Enc}
    (silent : Silent state) (mute : state.owner = .destroyed →
      pipeline.sink.payloads.length ≤ state.pipeline.sink.payloads.length) :
    Silent (state.advance pipeline) := by
  unfold Silent State.advance
  dsimp only
  split
  · rw [List.mem_append, not_or]
    refine ⟨silent, ?_⟩
    intro called
    obtain ⟨some, owner⟩ := List.mem_replicate.mp called
    have := mute owner.symm
    omega
  · exact silent

/-! ### A thread that has returned -/

theorem Moves.joined {event : Event Frame} (moves : Moves calls threads state next event)
    (waits : Waits state event) (joined : Joined state) : Joined next := by
  intro stopped
  cases moves with
  | owner taken =>
    obtain ⟨thread, ⟨testing, bare⟩ | ⟨_, returned⟩ | before⟩ := ownerStep_stopped taken stopped
    · rw [thread]
      exact (waits rfl testing).resolve_left (by simp [bare])
    · rw [thread, returned]
    · rw [thread]
      exact joined before
  | enter entering same =>
    rw [same] at stopped
    rw [joined stopped] at entering
    cases entering
  | leave looping _ _ _ same =>
    rw [same] at stopped
    rw [joined stopped] at looping
    cases looping
  | stay looping _ _ same =>
    rw [same] at stopped
    rw [joined stopped] at looping
    cases looping
  | advance runs _ same =>
    rw [same] at stopped
    have returned := joined stopped
    rcases runs with runs | ⟨runs, _⟩ <;> rw [returned] at runs <;> cases runs
  | work _ _ same =>
    rw [same] at stopped ⊢
    exact joined stopped

theorem Moves.silent {event : Event Frame} (moves : Moves calls threads state next event)
    (mute : ∀ inner pipeline, event = .pipeline inner →
      (state.thread = .polling ∨ state.thread = .looping ∧ (inner = .resume ∨ inner = .drain)) →
      TransCoder.step calls threads inner state.pipeline = some pipeline → state.owner = .destroyed →
      pipeline.sink.payloads.length ≤ state.pipeline.sink.payloads.length)
    (silent : Silent state) : Silent next := by
  cases moves with
  | owner taken =>
    unfold Silent
    rw [(ownerStep_calledBack taken).1]
    exact silent
  | advance runs taken same =>
    rw [same]
    exact silent.advance (mute _ _ rfl runs taken)
  | enter _ same => rw [same]; exact silent
  | leave _ _ _ _ same => rw [same]; exact silent
  | stay _ _ _ same => rw [same]; exact silent
  | work _ _ same => rw [same]; exact silent

theorem step_joined {event : Event Frame} (waits : Waits state event)
    (kept : Joined state ∧ Silent state) (taken : step calls threads event state = some next) :
    Joined next ∧ Silent next := by
  have moves := step_moves taken
  refine ⟨moves.joined waits kept.1, moves.silent ?_ kept.2⟩
  rintro inner pipeline - runs - destroyed
  have returned := kept.1 (Or.inr destroyed)
  rcases runs with runs | ⟨runs, _⟩ <;> rw [returned] at runs <;> cases runs

/-! ### A thread with nothing left -/

section Pipeline

variable {pipeline advanced : TransCoder.State Frame Tensor Group Image Byte Deep Enc}

theorem resume_flying (taken : TransCoder.step calls threads .resume pipeline = some advanced) :
    inflight pipeline ≠ [] := by
  cases step_stepped taken with
  | resume waiting | resumeDrain waiting => simp [inflight, waiting]

theorem drain_empty (idle : inflight pipeline = [])
    (taken : TransCoder.step calls threads .drain pipeline = some advanced) :
    advanced.control = .closed ∧ advanced.sink = pipeline.sink := by
  cases step_stepped taken with
  | drain draining pending => simp [inflight, draining, pending] at idle
  | close => exact ⟨rfl, rfl⟩

/-- The pool and the driver neither add a job nor take one away. -/
theorem work_inflight {event : TransCoder.Event Frame}
    (pool : event = .begin ∨ (∃ position, event = .finish position) ∨
      ∃ index content, event = .fill index content)
    (taken : TransCoder.step calls threads event pipeline = some advanced) :
    inflight advanced = inflight pipeline := by
  rcases pool with rfl | ⟨position, rfl⟩ | ⟨index, content, rfl⟩
  · cases step_stepped taken with
    | begin waiting => exact (beginTask_worked calls waiting).inflight
  · cases step_stepped taken with
    | finish running => exact (finishTask_worked calls running).inflight
  · cases step_stepped taken with
    | fill => rfl

end Pipeline

/-- From its test of `joinable` on the destructor has set the flag, and after it
`run` has nothing left. -/
structure Emptied (state : State Frame Tensor Group Image Byte Deep Enc) : Prop where
  flag : state.owner = .testing ∨ state.owner = .joining ∨ state.stopped → state.stopState = true
  spent : state.stopped → Spent state
  silent : Silent state

theorem Spent.looping {inner : TransCoder.Event Frame} (spent : Spent state)
    (runs : state.thread = .polling ∨ state.thread = .looping ∧ (inner = .resume ∨ inner = .drain)) :
    (inner = .resume ∨ inner = .drain) ∧ inflight state.pipeline = [] := by
  rcases runs with polling | ⟨looping, event⟩
  · rcases spent with returned | ⟨other, _⟩
    · rw [polling] at returned
      cases returned
    · exact absurd polling other
  · exact ⟨event, (spent.resolve_left (by simp [looping])).2⟩

theorem Spent.move {event : Event Frame} (spent : Spent state) (flag : state.stopState = true)
    (moves : Moves calls threads state next event) (other : event ≠ .owner) : Spent next := by
  cases moves with
  | owner => exact absurd rfl other
  | enter entering same =>
    have idle := spent.resolve_left (by simp [entering])
    rw [same]
    refine Or.inr ⟨?_, idle.2⟩
    dsimp only
    split <;> simp
  | leave looping head _ taken same =>
    have idle := spent.resolve_left (by simp [looping])
    rw [same]
    refine Or.inr ⟨by simp [looping], ?_⟩
    simp only [TransCoder.step, head, Option.some.injEq] at taken
    subst taken
    simpa only [inflight, head] using idle.2
  | stay _ _ running => simp [flag] at running
  | advance runs taken same =>
    obtain ⟨looping, idle⟩ := spent.looping runs
    rcases looping with rfl | rfl
    · exact absurd idle (resume_flying taken)
    · rw [same]
      exact Or.inl (if_pos (drain_empty idle taken).1)
  | work pool taken same =>
    rw [same]
    exact spent.imp id fun idle => ⟨idle.1, (work_inflight pool taken).trans idle.2⟩

theorem Emptied.owner (emptied : Emptied state) (finds : FindsSpent state (.owner : Event Frame))
    (taken : ownerStep state = some next) : Emptied next := by
  obtain ⟨calledBack, pipeline⟩ := ownerStep_calledBack taken
  refine ⟨?_, ?_, ?_⟩
  · unfold ownerStep at taken
    cases position : state.owner with
    | joining =>
      simp only [position] at taken
      split at taken
      · cases taken
        exact fun _ => emptied.flag (Or.inr (Or.inl position))
      · cases taken
    | destroyed =>
      simp only [position] at taken
      cases taken
    | stopping =>
      simp only [position, Option.some.injEq] at taken
      subst taken
      exact fun _ => rfl
    | testing =>
      simp only [position, Option.some.injEq] at taken
      subst taken
      exact fun _ => emptied.flag (Or.inl position)
    | releasing =>
      simp only [position, Option.some.injEq] at taken
      subst taken
      exact fun _ => emptied.flag (Or.inr (Or.inr (Or.inl position)))
    | binding | starting | detaching | serving =>
      simp only [position, Option.some.injEq] at taken
      subst taken
      rintro (later | later | later | later) <;> cases later
  · intro stopped
    obtain ⟨thread, before⟩ := ownerStep_stopped taken stopped
    unfold Spent
    rw [thread, pipeline]
    rcases before with ⟨testing, bare⟩ | ⟨_, returned⟩ | before
    · exact (finds rfl testing).resolve_left (by simp [bare])
    · exact Or.inl returned
    · exact emptied.spent before
  · unfold Silent
    rw [calledBack]
    exact emptied.silent

/-- The other steps leave the event loop and the flag alone. -/
theorem Moves.owner_eq {event : Event Frame} (moves : Moves calls threads state next event)
    (other : event ≠ .owner) : next.owner = state.owner ∧ next.stopState = state.stopState := by
  cases moves with
  | owner => exact absurd rfl other
  | enter _ same => rw [same]; exact ⟨rfl, rfl⟩
  | leave _ _ _ _ same => rw [same]; exact ⟨rfl, rfl⟩
  | stay _ _ _ same => rw [same]; exact ⟨rfl, rfl⟩
  | advance _ _ same => rw [same]; exact ⟨rfl, rfl⟩
  | work _ _ same => rw [same]; exact ⟨rfl, rfl⟩

theorem step_emptied {event : Event Frame} (finds : FindsSpent state event) (emptied : Emptied state)
    (taken : step calls threads event state = some next) : Emptied next := by
  have moves := step_moves taken
  by_cases own : event = .owner
  · subst own
    cases moves with
    | owner taken => exact emptied.owner finds taken
  · obtain ⟨owner, stopState⟩ := moves.owner_eq own
    have stopped : next.stopped ↔ state.stopped := by
      unfold State.stopped
      rw [owner]
    refine ⟨?_, ?_, ?_⟩
    · rw [owner, stopped, stopState]
      exact emptied.flag
    · rw [stopped]
      exact fun after => (emptied.spent after).move (emptied.flag (Or.inr (Or.inr after))) moves own
    · refine moves.silent ?_ emptied.silent
      rintro inner pipeline - runs taken destroyed
      obtain ⟨looping, idle⟩ := (emptied.spent (Or.inr destroyed)).looping runs
      rcases looping with rfl | rfl
      · exact absurd idle (resume_flying taken)
      · rw [(drain_empty idle taken).2]

/-! ### Every run -/

/-- In a run of the constructor, the two threads and the destructor, `stop` returns
only after `run` has and the callback stays silent after the destructor, exactly
when `stop`, at its test of `joinable`, finds a thread to join or a `run` that
has returned by itself. The callback alone stays silent already when `run` has
no job left by then and is not about to take another frame. -/
theorem teardown_silent_iff (starts : Opens threads start) {events : List (Event Frame)}
    (executed : run (step calls threads) events start = some final) :
    (Along (step calls threads) Waits events start ↔
      ∀ first last, first ++ last = events → ∀ state, run (step calls threads) first start = some state →
        Joined state ∧ Silent state) ∧
    (Along (step calls threads) FindsSpent events start → Silent final) := by
  have opened : ¬ start.stopped := by simp [State.stopped, starts.owner]
  have silent : Silent start := by simp [Silent, starts.calledBack]
  refine ⟨⟨?_, ?_⟩, ?_⟩
  · rintro permitted first last rfl state reached
    exact run_keeps (fun state => Joined state ∧ Silent state)
      (fun event _ _ waits kept taken => step_joined waits kept taken) permitted.initial
      ⟨fun stopped => absurd stopped opened, silent⟩ reached
  · apply along_of_reached ?_ executed
    rintro event state next taken ⟨joined, _⟩ rfl testing
    cases step_moves taken with
    | owner moved =>
      simp only [ownerStep, testing, Option.some.injEq] at moved
      subst moved
      cases joinable : state.joinable with
      | true => exact Or.inl rfl
      | false => exact Or.inr (joined (by simp [State.stopped, joinable]))
  · intro permitted
    refine (run_keeps Emptied (fun event _ _ finds emptied taken => step_emptied finds emptied taken)
      permitted ?_ executed).silent
    exact ⟨by simp [starts.owner, State.stopped], fun stopped => absurd stopped opened, silent⟩

/-- The pipeline of `sampleStart` behind a transcoder that `init` has made ready or not. -/
def sampleOpen (ready : Bool) : State Nat Nat Nat Nat Nat Nat Nat where
  owner := .binding
  thread := .unstarted
  callback := false
  stopState := false
  joinable := false
  ready := ready
  pipeline := sampleStart 2 [some 1, some 3]
  calledBack := []

theorem sampleOpen_opens (ready : Bool) : Opens 2 (sampleOpen ready) := by
  constructor
  case pipeline => exact sampleStart_starts _ _
  all_goals rfl

/-- The constructor, then a round of `run` that leaves its frame with a worker. -/
def oneFrame : List (Event Nat) :=
  [.owner, .owner, .owner, .enter, .isStoped, .pipeline (.fill 0 8), .pipeline (.frame 0)]

/-- The whole destructor. -/
def destructor : List (Event Nat) := [.owner, .owner, .owner, .owner]

/-- What `run` does with that frame once it finds the flag. -/
def drainFrame : List (Event Nat) :=
  [.isStoped, .pipeline .begin, .pipeline (.finish 0), .pipeline .drain, .pipeline .resume]

instance [DecidableEq Frame] (event : Event Frame) : Decidable (Waits state event) :=
  inferInstanceAs (Decidable (_ → _ → _ ∨ _))

/-- The destructor sets the flag and is held up until `run` has drained the frame and returned. -/
def patientTeardown : List (Event Nat) :=
  oneFrame ++ [.owner, .owner] ++ drainFrame ++ [.pipeline .drain, .owner, .owner]

theorem teardown_silent_iff_sample :
    ∃ final, run (step sampleCalls 2) patientTeardown (sampleOpen true) = some final ∧
      final.calledBack = [.testing] ∧ final.owner = .destroyed ∧ Joined final ∧ Silent final := by
  have outcome : (run (step sampleCalls 2) patientTeardown (sampleOpen true)).map
      (fun final => (final.calledBack, final.owner)) = some ([.testing], .destroyed) := by decide
  obtain ⟨final, executed, observed⟩ := Option.map_eq_some_iff.mp outcome
  obtain ⟨called, destroyed⟩ := Prod.mk.inj observed
  have permitted : Along (step sampleCalls 2) Waits patientTeardown (sampleOpen true) := by decide
  have kept := (teardown_silent_iff (sampleOpen_opens true) executed).1.mp permitted
  exact ⟨final, executed, called, destroyed, kept _ [] (List.append_nil _) final executed⟩

/-- The drained frame reaches the callback of the destroyed source. -/
theorem callback_after_destructor :
    ∃ state, Reachable (step sampleCalls 2) (sampleOpen true) state ∧ ¬ Silent state := by
  have outcome : (run (step sampleCalls 2) (oneFrame ++ destructor ++ drainFrame) (sampleOpen true)).map
      State.calledBack = some [.destroyed] := by decide
  obtain ⟨state, executed, called⟩ := Option.map_eq_some_iff.mp outcome
  exact ⟨state, ⟨_, executed⟩, by simp [Silent, called]⟩

end Yolov5Rknn.MThread
