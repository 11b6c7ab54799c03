import Mathlib.Data.List.Basic

/-! Runs of a partial step function under a schedule of events. Every system of
the development is a `Step`; the invariant rules here are its only inductions
over schedules. -/

namespace Yolov5Rknn.Transition

universe u v

/-- One event, executed in a state that enables it. -/
abbrev Step (ε : Type u) (σ : Type v) := ε → σ → Option σ

variable {ε : Type u} {σ : Type v}

/-- Execute a schedule; `none` as soon as one of its events is not enabled. -/
def run (step : Step ε σ) : List ε → σ → Option σ
  | [], state => some state
  | event :: rest, state => (step event state).bind (run step rest)

def Reachable (step : Step ε σ) (start final : σ) : Prop :=
  ∃ events, run step events start = some final

/-- Every event of the schedule is permitted in the state that executes it. -/
def Along (step : Step ε σ) (allowed : σ → ε → Prop) : List ε → σ → Prop
  | [], _ => True
  | event :: rest, state =>
      allowed state event ∧ ∀ next, step event state = some next → Along step allowed rest next

variable {step : Step ε σ} {start middle final : σ}

instance Along.decidable {allowed : σ → ε → Prop} [∀ state event, Decidable (allowed state event)] :
    (events : List ε) → (state : σ) → Decidable (Along step allowed events state)
  | [], _ => .isTrue trivial
  | event :: rest, state =>
    match taken : step event state with
    | none => decidable_of_iff (allowed state event) (by simp [Along, taken])
    | some next =>
      have : Decidable (Along step allowed rest next) := Along.decidable rest next
      decidable_of_iff (allowed state event ∧ Along step allowed rest next) (by simp [Along, taken])

@[simp] theorem run_nil (state : σ) : run step [] state = some state := rfl

@[simp] theorem run_cons (event : ε) (rest : List ε) (state : σ) :
    run step (event :: rest) state = (step event state).bind (run step rest) := rfl

theorem run_append (first last : List ε) (state : σ) :
    run step (first ++ last) state = (run step first state).bind (run step last) := by
  induction first generalizing state with
  | nil => rfl
  | cons event rest ih =>
    simp only [List.cons_append, run_cons]
    cases step event state with
    | none => rfl
    | some next => exact ih next

theorem run_trans {first last : List ε} (before : run step first start = some middle)
    (after : run step last middle = some final) : run step (first ++ last) start = some final := by
  rw [run_append, before]
  exact after

theorem Reachable.refl (state : σ) : Reachable step state state := ⟨[], rfl⟩

theorem Reachable.trans (before : Reachable step start middle) (after : Reachable step middle final) :
    Reachable step start final := by
  obtain ⟨first, reached⟩ := before
  obtain ⟨last, continued⟩ := after
  exact ⟨first ++ last, run_trans reached continued⟩

theorem Reachable.extend {event : ε} (before : Reachable step start middle)
    (taken : step event middle = some final) : Reachable step start final :=
  before.trans ⟨[event], by simp [taken]⟩

/-- A step that is always enabled executes every schedule. -/
theorem run_total (enabled : ∀ event state, ∃ next, step event state = some next) (events : List ε) (start : σ) :
    ∃ final, run step events start = some final := by
  induction events generalizing start with
  | nil => exact ⟨start, rfl⟩
  | cons event rest ih =>
    obtain ⟨next, taken⟩ := enabled event start
    obtain ⟨final, executed⟩ := ih next
    exact ⟨final, by rw [run_cons, taken]; exact executed⟩

/-- The invariant rule for runs whose steps are all permitted. -/
theorem run_keeps {allowed : σ → ε → Prop} (holds : σ → Prop) {events : List ε}
    (kept : ∀ event state next, allowed state event → holds state →
      step event state = some next → holds next)
    (permitted : Along step allowed events start) (initially : holds start)
    (executed : run step events start = some final) : holds final := by
  induction events generalizing start with
  | nil => cases executed; exact initially
  | cons event rest ih =>
    obtain ⟨next, taken, remaining⟩ := Option.bind_eq_some_iff.mp executed
    exact ih (permitted.2 next taken) (kept event start next permitted.1 initially taken) remaining

theorem Along.initial {allowed : σ → ε → Prop} {first last : List ε}
    (permitted : Along step allowed (first ++ last) start) : Along step allowed first start := by
  induction first generalizing start with
  | nil => trivial
  | cons event rest ih => exact ⟨permitted.1, fun next taken => ih (permitted.2 next taken)⟩

/-- A run whose states all have a property that only permitted steps preserve
takes permitted steps only. -/
theorem along_of_reached {allowed : σ → ε → Prop} {holds : σ → Prop} {events : List ε}
    (forced : ∀ event state next, step event state = some next → holds next → allowed state event)
    (executed : run step events start = some final)
    (reached : ∀ first last, first ++ last = events → ∀ state, run step first start = some state → holds state) :
    Along step allowed events start := by
  induction events generalizing start with
  | nil => trivial
  | cons event rest ih =>
    obtain ⟨next, taken, remaining⟩ := Option.bind_eq_some_iff.mp executed
    refine ⟨forced event start next taken (reached [event] rest rfl next (by simp [taken])), ?_⟩
    intro other same
    cases taken.symm.trans same
    apply ih remaining
    intro first last whole state before
    apply reached (event :: first) last (by rw [List.cons_append, whole]) state
    simp only [run_cons, taken, Option.bind_some, before]

/-- The invariant rule for every reachable state. -/
theorem reachable_keeps (holds : σ → Prop)
    (kept : ∀ event state next, holds state → step event state = some next → holds next)
    (initially : holds start) (reached : Reachable step start final) : holds final := by
  obtain ⟨events, executed⟩ := reached
  have everywhere (events : List ε) (state : σ) : Along step (fun _ _ => True) events state := by
    induction events generalizing state with
    | nil => trivial
    | cons event rest ih => exact ⟨trivial, fun next _ => ih next⟩
  exact run_keeps holds (fun event state next _ => kept event state next) (everywhere events start)
    initially executed

end Yolov5Rknn.Transition
