import Yolov5Rknn.Logic.Progress
import Yolov5Rknn.Proofs.PoolOrder

/-! A `ThreadPool` never sleeps on work. `condition.wait` and `notify_one` lose no task,
and the number of steps it takes by itself is bounded by what its callers did. -/

namespace Yolov5Rknn.ThreadPool
open Transition Progress

variable {Task : Type} {state next : State Task} {threads position : Nat} {old : Worker Task}

/-- A task costs its pop and its execution, each with the look at the queue that
follows, and a `notify_one` that may wake a worker for nothing. -/
def Worker.debt : Worker Task → Nat
  | .checking => 1
  | .working _ => 2
  | .waiting | .returned => 0

/-- `notify_all` may wake every worker; each thread is then joined once. -/
def Destructor.debt (threads : Nat) : Destructor → Nat
  | .unstarted => 2 * threads + 3
  | .notifying => 2 * threads + 2
  | .joining joined => threads - joined + 1
  | .returned => 0

def debt (workers : List (Worker Task)) : Nat := (workers.map Worker.debt).sum

def potential (threads : Nat) (state : State Task) : Nat :=
  2 * state.tasks.length + debt state.workers + 2 * state.notifying + state.destructor.debt threads

def gain : Event Task → Nat
  | .enqueue _ => 4
  | .wakeUp _ => 1
  | _ => 0

theorem debt_set (there : state.workers[position]? = some old) (new : Worker Task) :
    old.debt + debt (state.workers.set position new) = new.debt + debt state.workers := by
  have exchanged := ((Positions.set_exchanges there new).map Worker.debt).sum_nat
  simpa only [debt, List.map_cons, List.sum_cons] using exchanged

theorem debt_roused (workers : List (Worker Task)) :
    debt (workers.map fun worker => if worker.isWaiting then .checking else worker) ≤
      debt workers + workers.length := by
  induction workers with
  | nil => exact Nat.le_refl _
  | cons worker rest ih =>
    have roused : (if worker.isWaiting then .checking else worker).debt ≤ worker.debt + 1 := by
      cases worker <;> simp [Worker.isWaiting, Worker.debt]
    simp only [debt, List.map_cons, List.sum_cons, List.length_cons] at ih ⊢
    omega

theorem debt_replicate (threads : Nat) : debt (List.replicate threads (.checking : Worker Task)) = threads := by
  simp [debt, Worker.debt]

theorem init_potential (threads : Nat) : potential threads (init threads : State Task) = 3 * threads + 3 := by
  simp only [potential, init, debt_replicate, Destructor.debt, List.length_nil]
  omega

/-- Every internal step lowers the potential, and a caller raises it by `gain` at most. -/
theorem step_potential {event : Event Task} (valid : Valid threads state) (taken : step event state = some next) :
    potential threads next + (if internal event then 1 else 0) ≤ potential threads state + gain event := by
  cases step_stepped taken with
  | enqueue | rejected =>
    simp only [potential, internal, gain, List.length_append, List.length_singleton, Bool.false_eq_true, ↓reduceIte]
    omega
  | notifyOne owed sleeps =>
    have moved := debt_set sleeps .checking
    simp only [Worker.debt] at moved
    simp only [potential, State.place, internal, gain, owed, ↓reduceIte]
    omega
  | nobody owed awake =>
    simp only [potential, internal, gain, owed, ↓reduceIte]
    omega
  | wakeUp sleeps =>
    have moved := debt_set sleeps .checking
    simp only [Worker.debt] at moved
    simp only [potential, State.place, internal, gain, Bool.false_eq_true, ↓reduceIte]
    omega
  | sleep turn empty running =>
    have moved := debt_set turn .waiting
    simp only [Worker.debt] at moved
    simp only [potential, State.place, internal, gain, ↓reduceIte]
    omega
  | leave turn empty stopped =>
    have moved := debt_set turn .returned
    simp only [Worker.debt] at moved
    simp only [potential, State.place, internal, gain, ↓reduceIte]
    omega
  | @take position task rest turn queue =>
    have moved := debt_set turn (.working task)
    simp only [Worker.debt] at moved
    simp only [potential, State.place, internal, gain, queue, List.length_cons, ↓reduceIte]
    omega
  | finish works =>
    have moved := debt_set works .checking
    simp only [Worker.debt] at moved
    simp only [potential, State.place, internal, gain, ↓reduceIte]
    omega
  | stop unstarted =>
    simp only [potential, internal, gain, unstarted, Destructor.debt, Bool.false_eq_true, ↓reduceIte]
    omega
  | notifyAll stopped =>
    have roused := debt_roused state.workers
    rw [valid.staff] at roused
    simp only [potential, internal, gain, stopped, Destructor.debt, ↓reduceIte]
    omega
  | @join joined joining left =>
    have inside := (List.getElem?_eq_some_iff.mp left).1
    rw [valid.staff] at inside
    simp only [potential, internal, gain, joining, Destructor.debt, ↓reduceIte]
    omega
  | destroyed joining last =>
    simp only [potential, internal, gain, joining, Destructor.debt, ↓reduceIte]
    omega

theorem settling (threads : Nat) :
    Settling (@step Task) (Valid threads) internal gain (potential threads) where
  kept _ _ _ valid taken := step_valid valid taken
  spends event state next valid own taken := by
    have paid := step_potential valid taken
    have free : gain event = 0 := by cases event <;> first | rfl | cases own
    simp only [own, free, ↓reduceIte] at paid
    omega
  earns event state next valid own taken := by
    have paid := step_potential valid taken
    simp only [own, Bool.false_eq_true, ↓reduceIte] at paid
    omega

/-! ### Quiet pools -/

theorem Quiet.nobody_owed (quiet : Quiet step internal state) : state.notifying = 0 := by
  by_contra owed
  obtain ⟨notifying, owed⟩ := Nat.exists_eq_succ_of_ne_zero owed
  cases sleeping : state.workers.any Worker.isWaiting with
  | false =>
    have disabled := quiet (.notifyOne none) rfl
    simp only [step, owed, sleeping, reduceCtorEq] at disabled
  | true =>
    obtain ⟨worker, member, waits⟩ := List.any_eq_true.mp sleeping
    obtain ⟨position, there⟩ := List.mem_iff_getElem?.mp member
    cases worker with
    | waiting =>
      have disabled := quiet (.notifyOne (some position)) rfl
      simp only [step, owed, there, reduceCtorEq] at disabled
    | checking | working | returned => cases waits

theorem Quiet.asleep (quiet : Quiet step internal state) (worker : Worker Task) (member : worker ∈ state.workers) :
    worker = .waiting ∨ worker = .returned := by
  obtain ⟨position, there⟩ := List.mem_iff_getElem?.mp member
  cases worker with
  | waiting => exact .inl rfl
  | returned => exact .inr rfl
  | checking =>
    have disabled := quiet (.check position) rfl
    simp only [step, there, reduceCtorEq] at disabled
  | working task =>
    have disabled := quiet (.finish position) rfl
    simp only [step, there, reduceCtorEq] at disabled

/-- What is left when nothing moves: an empty queue, no busy worker, and a destructor
that was never called or has returned. -/
theorem Valid.rests (valid : Valid threads state) (positive : 0 < threads) (quiet : Quiet step internal state) :
    state.tasks = [] ∧ busy state.workers = [] ∧
      (state.destructor = .unstarted ∨ state.destructor = .returned) := by
  have asleep := Quiet.asleep quiet
  have idle : busy state.workers = [] := by
    apply List.filterMap_eq_nil_iff.mpr
    intro worker member
    cases asleep worker member with
    | inl waits => rw [waits]; rfl
    | inr left => rw [left]; rfl
  have unchecked : state.workers.countP Worker.isChecking = 0 := by
    apply List.countP_eq_zero.mpr
    intro worker member
    cases asleep worker member with
    | inl waits => rw [waits]; simp [Worker.isChecking]
    | inr left => rw [left]; simp [Worker.isChecking]
  refine ⟨?_, idle, ?_⟩
  · have inside : 0 < state.workers.length := by rw [valid.staff]; exact positive
    have member := List.getElem_mem inside
    cases asleep _ member with
    | inl waits =>
      have few := valid.awake _ member (by rw [waits]; rfl)
      rw [unchecked, Quiet.nobody_owed quiet] at few
      exact List.eq_nil_of_length_eq_zero (Nat.le_zero.mp few)
    | inr left => exact (valid.drained (left ▸ member)).2
  · cases stage : state.destructor with
    | unstarted => exact .inl rfl
    | returned => exact .inr rfl
    | notifying =>
      have disabled := quiet .notifyAll rfl
      simp only [step, stage, reduceCtorEq] at disabled
    | joining joined =>
      have disabled := quiet .join rfl
      cases there : state.workers[joined]? with
      | none => simp only [step, stage, there, reduceCtorEq] at disabled
      | some worker =>
        have awake := valid.notified (by rw [stage]; rfl) worker (List.mem_of_getElem? there)
        cases asleep worker (List.mem_of_getElem? there) with
        | inl waits => rw [waits] at awake; cases awake
        | inr left =>
          rw [left] at there
          simp only [step, stage, there, reduceCtorEq] at disabled

def Event.isEnqueue : Event Task → Bool
  | .enqueue _ => true
  | _ => false

def Event.isWakeUp : Event Task → Bool
  | .wakeUp _ => true
  | _ => false

theorem gain_sum (events : List (Event Task)) :
    (events.map gain).sum = 4 * events.countP Event.isEnqueue + events.countP Event.isWakeUp := by
  induction events with
  | nil => rfl
  | cons event rest ih =>
    have one : gain event = 4 * (if event.isEnqueue then 1 else 0) + if event.isWakeUp then 1 else 0 := by
      cases event <;> rfl
    simp only [List.map_cons, List.sum_cons, List.countP_cons, one, ih]
    omega

/-- No wake-up is lost. Left to itself, the pool takes boundedly many steps to a state in
which nothing of it is enabled, and whenever nothing is, every accepted task has been
executed and a destructor that was called has returned. -/
theorem no_task_sleeps {events : List (Event Task)} (positive : 0 < threads)
    (executed : run step events (init threads) = some state) :
    events.countP internal ≤
        3 * threads + 3 + 4 * events.countP Event.isEnqueue + events.countP Event.isWakeUp ∧
      (∃ own final, (∀ event ∈ own, internal event = true) ∧ run step own state = some final ∧
        Quiet step internal final) ∧
      (Quiet step internal state → state.finished.Perm (accepted events) ∧
        (state.destructor = .unstarted ∨ state.destructor = .returned)) := by
  have valid := reachable_valid ⟨events, executed⟩
  refine ⟨?_, (settling threads).settles valid, ?_⟩
  · have bounded := (settling threads).bounded (init_valid threads) executed
    rw [init_potential, gain_sum] at bounded
    omega
  · intro quiet
    obtain ⟨empty, idle, stage⟩ := valid.rests positive quiet
    have enqueued : state.enqueued = accepted events := by
      simpa [init] using run_enqueued (init_valid threads) executed
    have once := valid.once
    rw [idle, List.append_nil] at once
    rw [← enqueued, valid.order, empty, List.append_nil]
    exact ⟨once.symm, stage⟩

theorem sampleState_quiet : Quiet step internal sampleState := by
  intro event own
  cases event with
  | enqueue | wakeUp | stop => cases own
  | notifyOne woken => cases woken <;> rfl
  | check position | finish position => rcases position with _ | _ | position <;> rfl
  | notifyAll | join => rfl

theorem no_task_sleeps_sample : sampleEvents.countP internal ≤ 3 * 2 + 3 + 4 * 2 + 0 ∧
    sampleState.finished.Perm [7, 8] := by
  have settled := no_task_sleeps (by decide) sampleEvents_run
  exact ⟨settled.1, (settled.2.2 sampleState_quiet).1⟩

end Yolov5Rknn.ThreadPool
