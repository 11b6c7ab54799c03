import Yolov5Rknn.Logic.Transition

/-! Forward simulation between two `Step`s. Every step of the lower one is answered by
a run of the upper one, which may be empty. -/

namespace Yolov5Rknn.Simulation
open Transition

universe u v w x

variable {ε : Type u} {σ : Type v} {ε' : Type w} {σ' : Type x}

/-- `related` also carries what is known of the two states: it has to hold again after each answer. -/
def Simulates (lower : Step ε σ) (upper : Step ε' σ') (related : σ → σ' → Prop) : Prop :=
  ∀ event state next spec, related state spec → lower event state = some next →
    ∃ answer spec', run upper answer spec = some spec' ∧ related next spec'

variable {lower : Step ε σ} {upper : Step ε' σ'} {related : σ → σ' → Prop} {start final : σ} {spec : σ'}

theorem Simulates.run (simulates : Simulates lower upper related) {events : List ε} (initially : related start spec)
    (executed : run lower events start = some final) :
    ∃ answers spec', Transition.run upper answers spec = some spec' ∧ related final spec' := by
  induction events generalizing start spec with
  | nil => cases executed; exact ⟨[], spec, rfl, initially⟩
  | cons event rest ih =>
    obtain ⟨next, taken, remaining⟩ := Option.bind_eq_some_iff.mp executed
    obtain ⟨answer, middle, first, between⟩ := simulates event start next spec initially taken
    obtain ⟨answers, last, second, finally'⟩ := ih between remaining
    exact ⟨answer ++ answers, last, run_trans first second, finally'⟩

theorem Simulates.reachable (simulates : Simulates lower upper related) (initially : related start spec)
    (reached : Reachable lower start final) : ∃ spec', Reachable upper spec spec' ∧ related final spec' := by
  obtain ⟨events, executed⟩ := reached
  obtain ⟨answers, last, answered, finally'⟩ := simulates.run initially executed
  exact ⟨last, ⟨answers, answered⟩, finally'⟩

end Yolov5Rknn.Simulation
