import Mathlib.Data.Finite.Sum
import Mathlib.Data.Fintype.Order
import Mathlib.Logic.Relation

/-! Items of two kinds, some of them rivals of some of the other kind. Of two rivals
the younger yields, at a tie that of the first kind. An item that yields does so, over
rivals that never grow younger, to one that does not yield. -/

namespace Yolov5Rknn.Rivals
open Relation

variable {α β : Type} (near : α → β → Prop) (first : α → Int) (second : β → Int)

inductive Yields : α ⊕ β → α ⊕ β → Prop where
  | left {p : α} {q : β} (close : near p q) (younger : first p ≤ second q) : Yields (.inl p) (.inr q)
  | right {p : α} {q : β} (close : near p q) (younger : second q < first p) : Yields (.inr q) (.inl p)

/-- Yielding climbs: by age, then from the first kind to the second. -/
def rank : α ⊕ β → Int
  | .inl p => 2 * first p
  | .inr q => 2 * second q + 1

theorem one_yields {p : α} {q : β} (close : near p q) :
    Yields near first second (.inl p) (.inr q) ∨ Yields near first second (.inr q) (.inl p) := by
  rcases le_or_gt (first p) (second q) with younger | younger
  · exact .inl (.left close younger)
  · exact .inr (.right close younger)

theorem Yields.climbs {one two : α ⊕ β} (yields : Yields near first second one two) :
    rank first second one < rank first second two := by
  cases yields <;> simp only [rank] <;> omega

theorem yields_end [Finite α] [Finite β] (item : α ⊕ β) : ∃ last,
    ReflTransGen (Yields near first second) item last ∧ ∀ other, ¬Yields near first second last other := by
  have climbing : WellFounded (InvImage (fun a b : Int => b < a) (rank (α := α) (β := β) first second)) :=
    Finite.wellFounded_of_trans_of_irrefl _
  induction item using climbing.induction with
  | _ item ih =>
    by_cases yielding : ∃ next, Yields near first second item next
    · obtain ⟨next, yields⟩ := yielding
      obtain ⟨last, chain, stands⟩ := ih next yields.climbs
      exact ⟨last, .head yields chain, stands⟩
    · exact ⟨item, .refl, fun next yields => yielding ⟨next, yields⟩⟩

end Yolov5Rknn.Rivals
