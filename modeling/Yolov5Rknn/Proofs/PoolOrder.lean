import Yolov5Rknn.Logic.Positions
import Yolov5Rknn.ThreadPool

/-! The order in which a `ThreadPool` takes its tasks and what its destructor waits
for, whatever the interleaving of callers, workers and the destructor. -/

namespace Yolov5Rknn.ThreadPool
open Transition

variable {Task : Type} {state next : State Task} {threads position : Nat} {old new : Worker Task}

/-- The tasks that workers are executing. -/
def busy (workers : List (Worker Task)) : List Task := workers.filterMap Worker.task?

/-- The `join` calls that have returned, by the position of their thread. -/
def Destructor.passed (index : Nat) : Destructor → Prop
  | .joining joined => index < joined
  | .returned => True
  | .unstarted | .notifying => False

def Destructor.notified : Destructor → Bool
  | .joining _ | .returned => true
  | .unstarted | .notifying => false

/-- `awake` excludes a lost wake-up: as long as a worker sleeps, every queued task has a
worker about to look at the queue or a `notify_one` still to come. -/
structure Valid (threads : Nat) (state : State Task) : Prop where
  staff : state.workers.length = threads
  order : state.enqueued = state.started ++ state.tasks
  once : state.started.Perm (state.finished ++ busy state.workers)
  awake : ∀ worker ∈ state.workers, worker.isWaiting = true →
    state.tasks.length ≤ state.workers.countP Worker.isChecking + state.notifying
  stopped : state.stop = false ↔ state.destructor = .unstarted
  notified : state.destructor.notified = true → ∀ worker ∈ state.workers, worker.isWaiting = false
  drained : .returned ∈ state.workers → state.stop = true ∧ state.tasks = []
  joined : ∀ index worker, state.destructor.passed index → state.workers[index]? = some worker → worker = .returned

theorem init_valid (threads : Nat) : Valid threads (init threads : State Task) := by
  have asleep (worker : Worker Task) (member : worker ∈ (init threads : State Task).workers) :
      worker.isWaiting = false := by
    rw [List.eq_of_mem_replicate member]
    rfl
  constructor
  case staff => exact List.length_replicate
  case order => rfl
  case once => simp [init, busy, Worker.task?]
  case awake =>
    intro worker member waiting
    rw [asleep worker member] at waiting
    cases waiting
  case stopped => exact iff_of_true rfl rfl
  case notified => exact fun _ => asleep
  case drained =>
    intro member
    cases List.eq_of_mem_replicate member
  case joined => exact fun _ _ passed => passed.elim

/-! ### The steps, each with its guard -/

inductive Stepped (state : State Task) : Event Task → State Task → Prop where
  | enqueue {task} (running : state.stop = false) : Stepped state (.enqueue task)
    { state with
      tasks := state.tasks ++ [task], notifying := state.notifying + 1, enqueued := state.enqueued ++ [task] }
  | rejected {task} (stopped : state.stop = true) : Stepped state (.enqueue task) state
  | notifyOne {position notifying : Nat} (owed : state.notifying = notifying + 1)
      (sleeps : state.workers[position]? = some .waiting) :
    Stepped state (.notifyOne (some position)) (State.place position .checking { state with notifying })
  | nobody {notifying} (owed : state.notifying = notifying + 1) (awake : state.workers.any Worker.isWaiting = false) :
    Stepped state (.notifyOne none) { state with notifying }
  | wakeUp {position : Nat} (sleeps : state.workers[position]? = some .waiting) :
    Stepped state (.wakeUp position) (state.place position .checking)
  | sleep {position : Nat} (turn : state.workers[position]? = some .checking) (empty : state.tasks = [])
      (running : state.stop = false) : Stepped state (.check position) (state.place position .waiting)
  | leave {position : Nat} (turn : state.workers[position]? = some .checking) (empty : state.tasks = [])
      (stopped : state.stop = true) : Stepped state (.check position) (state.place position .returned)
  | take {position : Nat} {task rest} (turn : state.workers[position]? = some .checking) (queue : state.tasks = task :: rest) :
    Stepped state (.check position)
      (State.place position (.working task) { state with tasks := rest, started := state.started ++ [task] })
  | finish {position : Nat} {task} (works : state.workers[position]? = some (.working task)) :
    Stepped state (.finish position)
      (State.place position .checking { state with finished := state.finished ++ [task] })
  | stop (unstarted : state.destructor = .unstarted) :
    Stepped state .stop { state with stop := true, destructor := .notifying }
  | notifyAll (stopped : state.destructor = .notifying) :
    Stepped state .notifyAll { state with
      workers := state.workers.map fun worker => if worker.isWaiting then .checking else worker
      destructor := .joining 0 }
  | join {joined} (joining : state.destructor = .joining joined) (left : state.workers[joined]? = some .returned) :
    Stepped state .join { state with destructor := .joining (joined + 1) }
  | destroyed {joined} (joining : state.destructor = .joining joined) (last : state.workers[joined]? = none) :
    Stepped state .join { state with destructor := .returned }

theorem step_stepped {event : Event Task} (taken : step event state = some next) : Stepped state event next := by
  cases event with
  | enqueue task =>
    simp only [step, enqueue] at taken
    split at taken
    next stopped => cases taken; exact .rejected stopped
    next running => cases taken; exact .enqueue (Bool.eq_false_iff.mpr running)
  | notifyOne woken =>
    cases woken with
    | some position =>
      simp only [step] at taken
      split at taken
      next notifying owed sleeps => cases taken; exact .notifyOne owed sleeps
      next => cases taken
    | none =>
      simp only [step] at taken
      split at taken
      next notifying owed awake => cases taken; exact .nobody owed awake
      next => cases taken
  | wakeUp position =>
    simp only [step] at taken
    split at taken
    next sleeps => cases taken; exact .wakeUp sleeps
    next => cases taken
  | check position =>
    simp only [step] at taken
    split at taken
    next turn =>
      cases taken
      unfold check
      split
      next empty =>
        cases stopped : state.stop with
        | true => exact .leave turn empty stopped
        | false => exact .sleep turn empty stopped
      next task rest queue => exact .take turn queue
    next => cases taken
  | finish position =>
    simp only [step] at taken
    split at taken
    next task works => cases taken; exact .finish works
    next => cases taken
  | stop =>
    simp only [step] at taken
    split at taken
    next unstarted => cases taken; exact .stop unstarted
    next => cases taken
  | notifyAll =>
    simp only [step] at taken
    split at taken
    next stopped => cases taken; exact .notifyAll stopped
    next => cases taken
  | join =>
    simp only [step] at taken
    split at taken
    next joined joining =>
      split at taken
      next left => cases taken; exact .join joining left
      next => cases taken
      next last => cases taken; exact .destroyed joining last
    next => cases taken

/-! ### One worker moves -/

theorem busy_set (there : state.workers[position]? = some old) (new : Worker Task) :
    (old.task?.toList ++ busy (state.workers.set position new)).Perm (new.task?.toList ++ busy state.workers) := by
  have exchanged := (Positions.set_exchanges there new).filterMap Worker.task?
  cases first : old.task? <;> cases second : new.task? <;>
    simpa [busy, List.filterMap_cons, first, second] using exchanged

theorem busy_roused (workers : List (Worker Task)) :
    busy (workers.map fun worker => if worker.isWaiting then .checking else worker) = busy workers := by
  rw [busy, List.filterMap_map]
  apply List.filterMap_congr
  intro worker _
  cases worker <;> rfl

theorem checking_set (there : state.workers[position]? = some old) (new : Worker Task) :
    (state.workers.set position new).countP Worker.isChecking + (if old.isChecking then 1 else 0) =
      state.workers.countP Worker.isChecking + (if new.isChecking then 1 else 0) := by
  have exchanged := (Positions.set_exchanges there new).countP_eq Worker.isChecking
  simpa only [List.countP_cons] using exchanged

theorem Valid.joined_set (valid : Valid threads state) (there : state.workers[position]? = some old)
    (stays : old ≠ .returned) (new : Worker Task) (index : Nat) (worker : Worker Task)
    (passed : state.destructor.passed index) (placed : (state.workers.set position new)[index]? = some worker) :
    worker = .returned := by
  have apart : position ≠ index := by
    intro same
    subst same
    exact stays (valid.joined _ _ passed there)
  rw [List.getElem?_set_ne apart] at placed
  exact valid.joined index worker passed placed

/-- A sleeper wakes up: `notified` is how many `notify_one` calls are still owed then. -/
theorem Valid.wakes (valid : Valid threads state) (sleeps : state.workers[position]? = some .waiting)
    {notifying : Nat} (owed : state.notifying ≤ notifying + 1) :
    Valid threads (State.place position .checking { state with notifying }) := by
  have asleep := List.mem_of_getElem? sleeps
  constructor
  case staff => exact List.length_set.trans valid.staff
  case order => exact valid.order
  case once => exact valid.once.trans ((busy_set sleeps .checking).symm.append_left _)
  case awake =>
    intro _ _ _
    have before := valid.awake _ asleep rfl
    have count := checking_set sleeps .checking
    simp only [Worker.isChecking, Bool.false_eq_true, ↓reduceIte, Nat.add_zero] at count
    simp only [State.place, count]
    omega
  case stopped => exact valid.stopped
  case notified =>
    intro notified
    cases valid.notified notified _ asleep
  case drained =>
    intro member
    rcases List.mem_or_eq_of_mem_set member with present | fresh
    · exact valid.drained present
    · cases fresh
  case joined => exact valid.joined_set sleeps (by simp) .checking

theorem step_valid {event : Event Task} (valid : Valid threads state) (taken : step event state = some next) :
    Valid threads next := by
  cases step_stepped taken with
  | @enqueue task running =>
    constructor
    case staff => exact valid.staff
    case order => simp only [valid.order, List.append_assoc]
    case once => exact valid.once
    case awake =>
      intro worker member waiting
      have before := valid.awake worker member waiting
      simp only [List.length_append, List.length_singleton]
      omega
    case stopped => exact valid.stopped
    case notified => exact valid.notified
    case drained =>
      intro member
      have stopped := (valid.drained member).1
      rw [running] at stopped
      cases stopped
    case joined => exact valid.joined
  | rejected stopped => exact valid
  | notifyOne owed sleeps => exact valid.wakes sleeps (by omega)
  | nobody owed awake =>
    refine { valid with awake := ?_ }
    intro worker member waiting
    have none := List.any_eq_false.mp awake worker member
    exact absurd waiting none
  | wakeUp sleeps => exact valid.wakes sleeps (by omega)
  | sleep turn empty running =>
    constructor
    case staff => exact List.length_set.trans valid.staff
    case order => exact valid.order
    case once => exact valid.once.trans ((busy_set turn .waiting).symm.append_left _)
    case awake =>
      intro _ _ _
      simp [State.place, empty]
    case stopped => exact valid.stopped
    case notified =>
      intro notified
      have unstarted := valid.stopped.mp running
      rw [State.place, unstarted] at notified
      cases notified
    case drained =>
      intro member
      rcases List.mem_or_eq_of_mem_set member with present | fresh
      · exact valid.drained present
      · cases fresh
    case joined => exact valid.joined_set turn (by simp) .waiting
  | leave turn empty stopped =>
    constructor
    case staff => exact List.length_set.trans valid.staff
    case order => exact valid.order
    case once => exact valid.once.trans ((busy_set turn .returned).symm.append_left _)
    case awake =>
      intro _ _ _
      simp [State.place, empty]
    case stopped => exact valid.stopped
    case notified =>
      intro notified worker member
      rcases List.mem_or_eq_of_mem_set member with present | rfl
      · exact valid.notified notified worker present
      · rfl
    case drained => exact fun _ => ⟨stopped, empty⟩
    case joined => exact valid.joined_set turn (by simp) .returned
  | @take position task rest turn queue =>
    constructor
    case staff => exact List.length_set.trans valid.staff
    case order => simp only [State.place, valid.order, queue, List.append_assoc, List.singleton_append]
    case once =>
      have moved := busy_set turn (.working task)
      have taken : (state.started ++ [task]).Perm (state.finished ++ (busy state.workers ++ [task])) := by
        rw [← List.append_assoc]
        exact valid.once.append_right _
      exact taken.trans ((List.perm_append_comm.trans moved.symm).append_left _)
    case awake =>
      intro worker member waiting
      rcases List.mem_or_eq_of_mem_set member with present | rfl
      · have before := valid.awake worker present waiting
        have count := checking_set turn (.working task)
        simp only [Worker.isChecking, Bool.false_eq_true, ↓reduceIte, Nat.add_zero] at count
        simp only [queue, List.length_cons] at before
        simp only [State.place]
        omega
      · cases waiting
    case stopped => exact valid.stopped
    case notified =>
      intro notified worker member
      rcases List.mem_or_eq_of_mem_set member with present | rfl
      · exact valid.notified notified worker present
      · rfl
    case drained =>
      intro member
      rcases List.mem_or_eq_of_mem_set member with present | fresh
      · have empty := (valid.drained present).2
        rw [queue] at empty
        cases empty
      · cases fresh
    case joined => exact valid.joined_set turn (by simp) (.working task)
  | @finish position task works =>
    constructor
    case staff => exact List.length_set.trans valid.staff
    case order => exact valid.order
    case once =>
      have moved := busy_set works .checking
      have done : state.started.Perm (state.finished ++ ([task] ++ busy (state.workers.set position .checking))) :=
        valid.once.trans (moved.symm.append_left _)
      rw [← List.append_assoc] at done
      exact done
    case awake =>
      intro worker member waiting
      rcases List.mem_or_eq_of_mem_set member with present | rfl
      · have before := valid.awake worker present waiting
        have count := checking_set works .checking
        simp only [Worker.isChecking, Bool.false_eq_true, ↓reduceIte, Nat.add_zero] at count
        simp only [State.place]
        omega
      · cases waiting
    case stopped => exact valid.stopped
    case notified =>
      intro notified worker member
      rcases List.mem_or_eq_of_mem_set member with present | rfl
      · exact valid.notified notified worker present
      · rfl
    case drained =>
      intro member
      rcases List.mem_or_eq_of_mem_set member with present | fresh
      · exact valid.drained present
      · cases fresh
    case joined => exact valid.joined_set works (by simp) .checking
  | stop unstarted =>
    constructor
    case staff => exact valid.staff
    case order => exact valid.order
    case once => exact valid.once
    case awake => exact valid.awake
    case stopped => simp
    case notified => simp [Destructor.notified]
    case drained =>
      intro member
      exact ⟨rfl, (valid.drained member).2⟩
    case joined => exact fun _ _ passed => passed.elim
  | notifyAll stopped =>
    have roused (worker : Worker Task) : (if worker.isWaiting then .checking else worker).isWaiting = false := by
      cases worker <;> rfl
    constructor
    case staff => exact (List.length_map _).trans valid.staff
    case order => exact valid.order
    case once =>
      rw [busy_roused]
      exact valid.once
    case awake =>
      intro worker member waiting
      obtain ⟨before, _, rfl⟩ := List.mem_map.mp member
      rw [roused before] at waiting
      cases waiting
    case stopped =>
      have running := valid.stopped
      simp only [stopped, reduceCtorEq, iff_false] at running ⊢
      exact running
    case notified =>
      intro _ worker member
      obtain ⟨before, _, rfl⟩ := List.mem_map.mp member
      exact roused before
    case drained =>
      intro member
      obtain ⟨before, present, same⟩ := List.mem_map.mp member
      cases before with
      | returned => exact valid.drained present
      | checking | waiting | working => cases same
    case joined => exact fun _ _ passed => absurd passed (Nat.not_lt_zero _)
  | @join joined joining left =>
    refine { valid with stopped := ?_, notified := ?_, joined := ?_ }
    · have running := valid.stopped
      simp only [joining, reduceCtorEq, iff_false] at running ⊢
      exact running
    · intro _
      apply valid.notified
      rw [joining]
      rfl
    · intro index worker passed there
      by_cases last : index = joined
      · rw [last, left] at there
        exact (Option.some.inj there).symm
      · apply valid.joined index worker _ there
        rw [joining]
        exact Nat.lt_of_le_of_ne (Nat.lt_succ_iff.mp passed) last
  | @destroyed joined joining last =>
    refine { valid with stopped := ?_, notified := ?_, joined := ?_ }
    · have running := valid.stopped
      simp only [joining, reduceCtorEq, iff_false] at running ⊢
      exact running
    · intro _
      apply valid.notified
      rw [joining]
      rfl
    · intro index worker _ there
      apply valid.joined index worker _ there
      rw [joining]
      have inside := (List.getElem?_eq_some_iff.mp there).1
      exact Nat.lt_of_lt_of_le inside (List.getElem?_eq_none_iff.mp last)

theorem reachable_valid (reached : Reachable step (init threads) state) : Valid threads state :=
  reachable_keeps (Valid threads) (fun _ _ _ valid taken => step_valid valid taken) (init_valid threads) reached

/-! ### Whole schedules -/

theorem run_enqueued {events : List (Event Task)} (valid : Valid threads state)
    (executed : run step events state = some next) :
    next.enqueued = state.enqueued ++ if state.stop then [] else accepted events := by
  induction events generalizing state with
  | nil => cases executed; simp [accepted]
  | cons event rest ih =>
    obtain ⟨middle, taken, remaining⟩ := Option.bind_eq_some_iff.mp executed
    have later := ih (step_valid valid taken) remaining
    cases step_stepped taken with
    | enqueue running => simpa [running, accepted] using later
    | rejected stopped => simpa [stopped] using later
    | stop unstarted =>
      have running := valid.stopped.mpr unstarted
      simpa [running, accepted] using later
    | notifyOne | nobody | wakeUp | sleep | leave | take | finish | notifyAll | join | destroyed => exact later

theorem Valid.gone (valid : Valid threads state) (destroyed : state.destructor = .returned) :
    ∀ worker ∈ state.workers, worker = .returned := by
  intro worker member
  obtain ⟨index, there⟩ := List.mem_iff_getElem?.mp member
  apply valid.joined index worker _ there
  rw [destroyed]
  trivial

theorem busy_returned {workers : List (Worker Task)} (gone : ∀ worker ∈ workers, worker = .returned) :
    busy workers = [] := by
  apply List.filterMap_eq_nil_iff.mpr
  intro worker member
  rw [gone worker member]
  rfl

/-- Tasks are taken first come, first served, each by exactly one worker, and
`~ThreadPool` returns only after all of them have been executed. -/
theorem tasks_in_order {events : List (Event Task)} (positive : 0 < threads)
    (executed : run step events (init threads) = some state) :
    state.started <+: accepted events ∧ state.started.Perm (state.finished ++ busy state.workers) ∧
      (state.destructor = .returned →
        state.finished.Perm (accepted events) ∧ ∀ worker ∈ state.workers, worker = .returned) := by
  have valid := reachable_valid ⟨events, executed⟩
  have enqueued : state.enqueued = accepted events := by
    simpa [init] using run_enqueued (init_valid threads) executed
  have order : accepted events = state.started ++ state.tasks := enqueued.symm.trans valid.order
  refine ⟨⟨state.tasks, order.symm⟩, valid.once, ?_⟩
  intro destroyed
  have gone := valid.gone destroyed
  have first : .returned ∈ state.workers := by
    have inside : 0 < state.workers.length := by rw [valid.staff]; exact positive
    have member := List.getElem_mem inside
    rw [gone _ member] at member
    exact member
  have once := valid.once
  rw [busy_returned gone, List.append_nil] at once
  rw [order, (valid.drained first).2, List.append_nil]
  exact ⟨once.symm, gone⟩

/-- Two workers, two tasks, the destructor called while both are being executed. -/
def sampleEvents : List (Event Nat) :=
  [.check 1, .enqueue 7, .notifyOne (some 1), .check 0, .enqueue 8, .check 1, .notifyOne none, .stop, .finish 1,
    .notifyAll, .check 1, .finish 0, .check 0, .join, .join, .join]

def sampleState : State Nat :=
  { workers := [.returned, .returned], tasks := [], stop := true, notifying := 0, destructor := .returned,
    enqueued := [7, 8], started := [7, 8], finished := [8, 7] }

theorem sampleEvents_run : run step sampleEvents (init 2) = some sampleState := by decide

theorem tasks_in_order_sample : sampleState.finished.Perm [7, 8] :=
  ((tasks_in_order (by decide) sampleEvents_run).2.2 rfl).1

end Yolov5Rknn.ThreadPool
