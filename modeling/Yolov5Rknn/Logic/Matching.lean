import Mathlib.Data.List.Perm.Basic
import Mathlib.Data.List.Nodup
import Mathlib.Data.List.Induction

/-! Partial matchings of rows with columns, given by positions, and the elements
the positions select from two lists. -/

namespace Yolov5Rknn.Matching

universe u v

structure Assignment where
  matched : List (Nat × Nat)
  unmatchedRows : List Nat
  unmatchedCols : List Nat
  deriving DecidableEq

/-- A partial matching with its complement: every row and every column once. -/
structure IsPartition (rows cols : Nat) (assignment : Assignment) : Prop where
  rows : (assignment.matched.map Prod.fst ++ assignment.unmatchedRows).Perm (List.range rows)
  cols : (assignment.matched.map Prod.snd ++ assignment.unmatchedCols).Perm (List.range cols)

/-- Row and column of one position, as far as both go. -/
def diagonal (rows cols : Nat) : Assignment where
  matched := (List.range (min rows cols)).map fun position => (position, position)
  unmatchedRows := (List.range (rows - min rows cols)).map (min rows cols + ·)
  unmatchedCols := (List.range (cols - min rows cols)).map (min rows cols + ·)

theorem diagonal_isPartition (rows cols : Nat) : IsPartition rows cols (diagonal rows cols) := by
  constructor
  · have split := List.range_add (n := min rows cols) (m := rows - min rows cols)
    rw [Nat.add_sub_cancel' (Nat.min_le_left rows cols)] at split
    simp [diagonal, split, Function.comp_def]
  · have split := List.range_add (n := min rows cols) (m := cols - min rows cols)
    rw [Nat.add_sub_cancel' (Nat.min_le_right rows cols)] at split
    simp [diagonal, split, Function.comp_def]

variable {α : Type u} {β : Type v}

/-- The elements at `positions`. -/
def pick (items : List α) (positions : List Nat) : List α := positions.filterMap (items[·]?)

/-- The matched elements. -/
def pairs (rows : List α) (cols : List β) (positions : List (Nat × Nat)) : List (α × β) :=
  positions.filterMap fun position =>
    (rows[position.1]?).bind fun row => (cols[position.2]?).map fun col => (row, col)

theorem pick_range (items : List α) : pick items (List.range items.length) = items := by
  induction items using List.reverseRecOn with
  | nil => rfl
  | append_singleton items last ih =>
    have inside : pick (items ++ [last]) (List.range items.length) = pick items (List.range items.length) := by
      apply List.filterMap_congr
      intro position member
      exact List.getElem?_append_left (List.mem_range.mp member)
    rw [List.length_append, List.length_singleton, List.range_succ, pick, List.filterMap_append]
    change pick _ _ ++ _ = _
    rw [inside, ih]
    simp

theorem pick_append (items : List α) (first last : List Nat) :
    pick items (first ++ last) = pick items first ++ pick items last := List.filterMap_append

variable {rows : List α} {cols : List β} {positions : List (Nat × Nat)} {assignment : Assignment}

theorem pairs_fst (inside : ∀ position ∈ positions, position.2 < cols.length) :
    (pairs rows cols positions).map Prod.fst = pick rows (positions.map Prod.fst) := by
  simp only [pairs, pick, List.map_filterMap, List.filterMap_map]
  apply List.filterMap_congr
  intro position member
  have col := List.getElem?_eq_getElem (inside position member)
  cases row : rows[position.1]? <;> simp [row, col]

theorem pairs_snd (inside : ∀ position ∈ positions, position.1 < rows.length) :
    (pairs rows cols positions).map Prod.snd = pick cols (positions.map Prod.snd) := by
  simp only [pairs, pick, List.map_filterMap, List.filterMap_map]
  apply List.filterMap_congr
  intro position member
  have row := List.getElem?_eq_getElem (inside position member)
  cases col : cols[position.2]? <;> simp [row, col]

theorem IsPartition.row_lt {limit width : Nat} (partition : IsPartition limit width assignment)
    {position : Nat × Nat} (member : position ∈ assignment.matched) : position.1 < limit := by
  apply List.mem_range.mp
  apply partition.rows.mem_iff.mp
  exact List.mem_append_left _ (List.mem_map_of_mem member)

theorem IsPartition.col_lt {limit width : Nat} (partition : IsPartition limit width assignment)
    {position : Nat × Nat} (member : position ∈ assignment.matched) : position.2 < width := by
  apply List.mem_range.mp
  apply partition.cols.mem_iff.mp
  exact List.mem_append_left _ (List.mem_map_of_mem member)

/-- Every row is in one matched pair or left over. -/
theorem IsPartition.perm_rows (partition : IsPartition rows.length cols.length assignment) :
    ((pairs rows cols assignment.matched).map Prod.fst ++ pick rows assignment.unmatchedRows).Perm rows := by
  rw [pairs_fst fun _ member => partition.col_lt member, ← pick_append]
  have selected := partition.rows.filterMap (rows[·]?)
  exact selected.trans (List.Perm.of_eq (pick_range rows))

/-- Every column is in one matched pair or left over. -/
theorem IsPartition.perm_cols (partition : IsPartition rows.length cols.length assignment) :
    ((pairs rows cols assignment.matched).map Prod.snd ++ pick cols assignment.unmatchedCols).Perm cols := by
  rw [pairs_snd fun _ member => partition.row_lt member, ← pick_append]
  have selected := partition.cols.filterMap (cols[·]?)
  exact selected.trans (List.Perm.of_eq (pick_range cols))

/-- Choices that betray the key of their item are distinct if the keys are. -/
theorem choose_distinct {κ : Type u} {items : List α} {key : α → κ} {chosen : α → β → Prop}
    (distinct : (items.map key).Nodup) (some : ∀ item ∈ items, ∃ value, chosen item value)
    (apart : ∀ one two value, chosen one value → chosen two value → key one = key two) :
    ∃ values, List.Forall₂ chosen items values ∧ values.Nodup ∧
      ∀ value ∈ values, ∃ item ∈ items, chosen item value := by
  induction items with
  | nil => exact ⟨[], .nil, .nil, fun _ member => by cases member⟩
  | cons item items ih =>
    rw [List.map_cons, List.nodup_cons] at distinct
    obtain ⟨values, all, fresh, origins⟩ :=
      ih distinct.2 fun other member => some other (List.mem_cons_of_mem _ member)
    obtain ⟨value, choice⟩ := some item List.mem_cons_self
    refine ⟨value :: values, .cons choice all, List.nodup_cons.mpr ⟨fun again => ?_, fresh⟩, ?_⟩
    · obtain ⟨other, member, same⟩ := origins value again
      apply distinct.1
      rw [apart _ _ value choice same]
      exact List.mem_map_of_mem member
    · intro other member
      obtain rfl | later := List.mem_cons.mp member
      · exact ⟨item, List.mem_cons_self, choice⟩
      · obtain ⟨origin, listed, choice⟩ := origins other later
        exact ⟨origin, List.mem_cons_of_mem _ listed, choice⟩

end Yolov5Rknn.Matching
