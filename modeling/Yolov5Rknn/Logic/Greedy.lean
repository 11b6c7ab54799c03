import Mathlib.Data.List.Induction
import Mathlib.Data.List.Pairwise
import Mathlib.Order.WellFounded
import Mathlib.Order.Defs.LinearOrder

/-! Greedy selection: items are taken in the order of their ranks, each unless one
taken before attacks it. -/

namespace Yolov5Rknn.Greedy

variable {α : Type} (attacks : α → α → Prop) [DecidableRel attacks]

def select (ranked : List α) : List α :=
  ranked.foldl (fun kept item => if ∃ first ∈ kept, attacks first item then kept else kept ++ [item]) []

theorem select_append (ranked : List α) (item : α) : select attacks (ranked ++ [item]) =
    if ∃ first ∈ select attacks ranked, attacks first item then select attacks ranked
    else select attacks ranked ++ [item] := by
  rw [select, List.foldl_append]
  rfl

variable {attacks}

theorem mem_of_mem_select {ranked : List α} {item : α} (member : item ∈ select attacks ranked) : item ∈ ranked := by
  induction ranked using List.reverseRecOn with
  | nil => exact member
  | append_singleton ranked last ih =>
    rw [select_append] at member
    split at member
    · exact List.mem_append_left _ (ih member)
    · obtain old | new := List.mem_append.mp member
      · exact List.mem_append_left _ (ih old)
      · exact List.mem_append_right _ new

variable [LinearOrder α]

/-- An item is selected exactly if no selected one of higher rank attacks it. -/
theorem mem_select_iff {ranked : List α} (ascending : ranked.Pairwise (· < ·)) {item : α} :
    item ∈ select attacks ranked ↔
      item ∈ ranked ∧ ∀ first ∈ select attacks ranked, first < item → ¬attacks first item := by
  induction ranked using List.reverseRecOn with
  | nil => simp [select]
  | append_singleton ranked last ih =>
    obtain ⟨earlier, _, below⟩ := List.pairwise_append.mp ascending
    have below (other : α) (member : other ∈ ranked) : other < last := below other member last (by simp)
    by_cases latest : item = last
    · subst latest
      have absent : item ∉ select attacks ranked := fun member => lt_irrefl _ (below item (mem_of_mem_select member))
      rw [select_append]
      split
      · next attacked =>
        obtain ⟨first, member, attacks⟩ := attacked
        refine iff_of_false absent fun free => ?_
        exact free.2 first member (below first (mem_of_mem_select member)) attacks
      · next free =>
        simp only [List.mem_append, List.mem_singleton, or_true, true_and, true_iff]
        rintro first (member | rfl) before
        · exact fun attacks => free ⟨first, member, attacks⟩
        · exact absurd before (lt_irrefl _)
    · have same : ∀ other ≠ last, other ∈ select attacks (ranked ++ [last]) ↔ other ∈ select attacks ranked := by
        intro other different
        rw [select_append]
        split <;> simp [different]
      rw [same item latest, ih earlier]
      simp only [List.mem_append, List.mem_singleton, latest, or_false]
      refine and_congr_right fun member => forall_congr' fun first => ?_
      constructor
      · intro free chosen before
        exact free ((same first (before.trans (below item member)).ne).mp chosen) before
      · intro free chosen before
        exact free ((same first (before.trans (below item member)).ne).mpr chosen) before

/-- The selection is the only set of items with this property. -/
theorem mem_select_unique [WellFoundedLT α] {ranked : List α} (ascending : ranked.Pairwise (· < ·))
    {survives : α → Prop}
    (spec : ∀ item ∈ ranked, (survives item ↔ ∀ first ∈ ranked, survives first → first < item → ¬attacks first item))
    {item : α} (member : item ∈ ranked) : survives item ↔ item ∈ select attacks ranked := by
  induction item using WellFoundedLT.induction with
  | _ item ih =>
    rw [spec item member, mem_select_iff ascending, and_iff_right member]
    refine forall_congr' fun first => ⟨fun free chosen before => ?_, fun free inside lives before => ?_⟩
    · have inside := mem_of_mem_select chosen
      exact free inside ((ih first before inside).mpr chosen) before
    · exact free ((ih first before inside).mp lives) before

end Yolov5Rknn.Greedy
