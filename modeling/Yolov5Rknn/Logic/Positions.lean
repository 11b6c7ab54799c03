import Mathlib.Data.List.Nodup
import Mathlib.Data.List.Perm.Basic

/-! Loops that change the element at one position of a vector at a time. A loop over
distinct positions sees every element as it was before the loop. -/

namespace Yolov5Rknn.Positions

universe u

variable {α : Type u}

/-- The position a turn takes and what it makes of the element there. -/
abbrev Change (α : Type u) := Nat × (α → α)

def modifyAll (changes : List (Change α)) (items : List α) : List α :=
  changes.foldl (fun items change => items.modify change.1 change.2) items

variable {changes : List (Change α)} {items : List α}

@[simp] theorem modifyAll_nil (items : List α) : modifyAll [] items = items := rfl

@[simp] theorem modifyAll_cons (change : Change α) (changes : List (Change α)) (items : List α) :
    modifyAll (change :: changes) items = modifyAll changes (items.modify change.1 change.2) := rfl

@[simp] theorem length_modifyAll : (modifyAll changes items).length = items.length := by
  induction changes generalizing items with
  | nil => rfl
  | cons change changes ih => rw [modifyAll_cons, ih, List.length_modify]

theorem modifyAll_other {position : Nat} (apart : position ∉ changes.map Prod.fst) :
    (modifyAll changes items)[position]? = items[position]? := by
  induction changes generalizing items with
  | nil => rfl
  | cons change changes ih =>
    rw [List.map_cons, List.mem_cons, not_or] at apart
    rw [modifyAll_cons, ih apart.2, List.getElem?_modify_ne _ _ (Ne.symm apart.1)]

/-- What a loop over distinct positions leaves at one of them. -/
theorem modifyAll_changed {change : Change α} (distinct : (changes.map Prod.fst).Nodup)
    (member : change ∈ changes) :
    (modifyAll changes items)[change.1]? = items[change.1]?.map change.2 := by
  induction changes generalizing items with
  | nil => cases member
  | cons first changes ih =>
    rw [List.map_cons, List.nodup_cons] at distinct
    obtain rfl | later := List.mem_cons.mp member
    · rw [modifyAll_cons, modifyAll_other distinct.1, List.getElem?_modify_eq]
      rfl
    · have apart : change.1 ≠ first.1 := fun same => distinct.1 (same ▸ List.mem_map_of_mem later)
      rw [modifyAll_cons, ih distinct.2 later, List.getElem?_modify_ne _ _ (Ne.symm apart)]

/-- Overwriting one element exchanges it for the new one. -/
theorem set_exchanges {position : Nat} {old : α} (there : items[position]? = some old) (new : α) :
    (old :: items.set position new).Perm (new :: items) := by
  obtain ⟨inside, rfl⟩ := List.getElem?_eq_some_iff.mp there
  have written : (items.set position new).Perm (new :: items.eraseIdx position) :=
    List.set_perm_cons_eraseIdx inside new
  have whole : (items[position] :: items.eraseIdx position).Perm items := List.getElem_cons_eraseIdx_perm inside
  exact (written.cons _).trans ((List.Perm.swap _ _ _).trans (whole.cons _))

/-- Values found at increasing positions of a list are a sublist of it. -/
theorem sublist_of_positions {β : Type u} (position : β → Nat) (value : β → α) {marks : List β}
    (increasing : marks.Pairwise (position · < position ·))
    (found : ∀ mark ∈ marks, items[position mark]? = some (value mark)) : (marks.map value).Sublist items := by
  have later (marks : List β) (offset : Nat) (increasing : marks.Pairwise (position · < position ·))
      (found : ∀ mark ∈ marks, items[position mark]? = some (value mark) ∧ offset ≤ position mark) :
      (marks.map value).Sublist (items.drop offset) := by
    induction marks generalizing offset with
    | nil => exact List.nil_sublist _
    | cons mark rest ih =>
      rw [List.pairwise_cons] at increasing
      obtain ⟨⟨there, after⟩, others⟩ := List.forall_mem_cons.mp found
      have tail := ih (position mark + 1) increasing.2 fun other member =>
        ⟨(others other member).1, increasing.1 other member⟩
      have front : (items.drop (position mark)).Sublist (items.drop offset) := List.drop_sublist_drop_left items after
      obtain ⟨inside, same⟩ := List.getElem?_eq_some_iff.mp there
      rw [List.drop_eq_getElem_cons inside, same] at front
      exact (tail.cons_cons _).trans front
  exact later marks 0 increasing fun mark member => ⟨found mark member, Nat.zero_le _⟩

end Yolov5Rknn.Positions
