import Mathlib.Order.Lattice
import Mathlib.Data.List.Nodup

/-! Folds without effects. -/

namespace Yolov5Rknn.Folds

variable {ι σ : Type}

/-- The invariant rule over items that are all different; the invariant may name the
items still to come. -/
theorem foldl_holds (body : σ → ι → σ) (holds : List ι → σ → Prop) {items : List ι} {state : σ}
    (distinct : items.Nodup) (initially : holds items state)
    (kept : ∀ item rest state, item ∉ rest → holds (item :: rest) state → holds rest (body state item)) :
    holds [] (items.foldl body state) := by
  induction items generalizing state with
  | nil => exact initially
  | cons item rest ih =>
    rw [List.nodup_cons] at distinct
    exact ih distinct.2 (kept item rest state distinct.1 initially)

/-- A fold that keeps the least of some values. -/
theorem foldl_least {K : Type} [LinearOrder K] (value : ι → K) (counts : ι → Prop) [DecidablePred counts]
    (items : List ι) (top : K) :
    let h := items.foldl (fun h item => if counts item ∧ value item < h then value item else h) top
    h ≤ top ∧ (∀ item ∈ items, counts item → h ≤ value item) ∧
      (h = top ∨ ∃ item ∈ items, counts item ∧ h = value item) := by
  induction items generalizing top with
  | nil => exact ⟨le_rfl, fun other member _ => absurd member List.not_mem_nil, .inl rfl⟩
  | cons item rest ih =>
    rw [List.foldl_cons]
    split
    · next less =>
      obtain ⟨bounded, below, reached⟩ := ih (value item)
      refine ⟨bounded.trans less.2.le, ?_, ?_⟩
      · intro other member counted
        rcases List.mem_cons.mp member with rfl | later
        · exact bounded
        · exact below other later counted
      · rcases reached with same | ⟨other, later, counted, same⟩
        · exact .inr ⟨item, List.mem_cons_self, less.1, same⟩
        · exact .inr ⟨other, List.mem_cons_of_mem _ later, counted, same⟩
    · next other =>
      obtain ⟨bounded, below, reached⟩ := ih top
      refine ⟨bounded, ?_, ?_⟩
      · intro one member counted
        rcases List.mem_cons.mp member with rfl | later
        · exact bounded.trans (not_lt.mp fun less => other ⟨counted, less⟩)
        · exact below one later counted
      · rcases reached with same | ⟨one, later, counted, same⟩
        · exact .inl same
        · exact .inr ⟨one, List.mem_cons_of_mem _ later, counted, same⟩

end Yolov5Rknn.Folds
