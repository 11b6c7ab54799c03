import Yolov5Rknn.Logic.Transition
import Mathlib.Algebra.GroupWithZero.Nat

/-! Progress of a `Step` under a potential. Its internal events spend the potential
and the others may add to it, so the number of internal steps of a run is bounded by
what the others added, and internal steps alone reach a state that enables none. -/

namespace Yolov5Rknn.Progress
open Transition

universe u v

variable {ε : Type u} {σ : Type v} {step : Step ε σ} {holds : σ → Prop} {internal : ε → Bool} {gain : ε → Nat}
  {potential : σ → Nat} {start final : σ} {events : List ε}

def Quiet (step : Step ε σ) (internal : ε → Bool) (state : σ) : Prop :=
  ∀ event, internal event = true → step event state = none

structure Settling (step : Step ε σ) (holds : σ → Prop) (internal : ε → Bool) (gain : ε → Nat)
    (potential : σ → Nat) : Prop where
  kept : ∀ event state next, holds state → step event state = some next → holds next
  spends : ∀ event state next, holds state → internal event = true → step event state = some next →
    potential next < potential state
  earns : ∀ event state next, holds state → internal event = false → step event state = some next →
    potential next ≤ potential state + gain event

theorem Settling.reached (settling : Settling step holds internal gain potential) (initially : holds start)
    (executed : run step events start = some final) : holds final :=
  reachable_keeps holds settling.kept initially ⟨events, executed⟩

theorem Settling.bounded (settling : Settling step holds internal gain potential) (initially : holds start)
    (executed : run step events start = some final) :
    potential final + events.countP internal ≤
      potential start + (events.map gain).sum := by
  induction events generalizing start with
  | nil => cases executed; simp
  | cons event rest ih =>
    obtain ⟨next, taken, remaining⟩ := Option.bind_eq_some_iff.mp executed
    have later := ih (settling.kept event start next initially taken) remaining
    cases own : internal event with
    | true =>
      have spent := settling.spends event start next initially own taken
      simp only [List.countP_cons, own, ↓reduceIte, List.map_cons, List.sum_cons]
      omega
    | false =>
      have earned := settling.earns event start next initially own taken
      simp only [List.countP_cons, own, Bool.false_eq_true, ↓reduceIte, List.map_cons, List.sum_cons]
      omega

theorem Settling.settles (settling : Settling step holds internal gain potential) (initially : holds start) :
    ∃ events final, (∀ event ∈ events, internal event = true) ∧ run step events start = some final ∧
      Quiet step internal final := by
  classical
  induction amount : potential start using Nat.strongRecOn generalizing start with
  | ind amount ih =>
    subst amount
    by_cases quiet : Quiet step internal start
    · exact ⟨[], start, by simp, rfl, quiet⟩
    · simp only [Quiet, not_forall] at quiet
      obtain ⟨event, own, enabled⟩ := quiet
      obtain ⟨next, taken⟩ := Option.ne_none_iff_exists'.mp enabled
      have smaller := settling.spends event start next initially own taken
      obtain ⟨events, final, alone, executed, quiet⟩ :=
        ih _ smaller (settling.kept event start next initially taken) rfl
      refine ⟨event :: events, final, ?_, ?_, quiet⟩
      · intro other member
        cases member with
        | head => exact own
        | tail _ later => exact alone other later
      · rw [run_cons, taken]
        exact executed

end Yolov5Rknn.Progress
