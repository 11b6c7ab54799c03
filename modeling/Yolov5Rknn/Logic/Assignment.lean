import Mathlib.LinearAlgebra.Matrix.Defs
import Mathlib.Data.List.FinRange
import Mathlib.Data.List.ProdSigma
import Mathlib.Data.Fintype.Sum
import Mathlib.Algebra.BigOperators.Fin
import Mathlib.Algebra.Order.BigOperators.Group.Finset
import Mathlib.Algebra.Order.Group.Defs

/-! Assignments of rows to columns. Prices of rows and columns bound the cost of every
permutation from below; a rectangular matrix is made square by a constant, and then
its assignments are the permutations. -/

namespace Yolov5Rknn.Assignment

section pairs

variable {α β : Type}

/-- Pairs without a row or a column twice. -/
structure Matching (pairs : List (α × β)) : Prop where
  distinctRows : (pairs.map Prod.fst).Nodup
  distinctCols : (pairs.map Prod.snd).Nodup

variable {pairs : List (α × β)} {i k : α} {j l : β}

theorem Matching.row (matching : Matching pairs) (one : (i, j) ∈ pairs) (two : (i, l) ∈ pairs) : j = l := by
  have same := List.inj_on_of_nodup_map matching.distinctRows one two rfl
  exact congrArg Prod.snd same

theorem Matching.col (matching : Matching pairs) (one : (i, j) ∈ pairs) (two : (k, j) ∈ pairs) : i = k := by
  have same := List.inj_on_of_nodup_map matching.distinctCols one two rfl
  exact congrArg Prod.fst same

theorem Matching.sublist {fewer : List (α × β)} (matching : Matching pairs) (less : fewer.Sublist pairs) :
    Matching fewer :=
  ⟨matching.distinctRows.sublist (less.map _), matching.distinctCols.sublist (less.map _)⟩

theorem Matching.nodup (matching : Matching pairs) : pairs.Nodup := matching.distinctRows.of_map _

theorem Matching.append {more : List (α × β)} (first : Matching pairs) (last : Matching more)
    (apart : ∀ one ∈ pairs, ∀ two ∈ more, one.1 ≠ two.1 ∧ one.2 ≠ two.2) : Matching (pairs ++ more) := by
  constructor
  · rw [List.map_append, List.nodup_append]
    refine ⟨first.distinctRows, last.distinctRows, fun i member k other => ?_⟩
    obtain ⟨one, listed, rfl⟩ := List.mem_map.mp member
    obtain ⟨two, again, rfl⟩ := List.mem_map.mp other
    exact (apart one listed two again).1
  · rw [List.map_append, List.nodup_append]
    refine ⟨first.distinctCols, last.distinctCols, fun j member l other => ?_⟩
    obtain ⟨one, listed, rfl⟩ := List.mem_map.mp member
    obtain ⟨two, again, rfl⟩ := List.mem_map.mp other
    exact (apart one listed two again).2

/-- Rows and columns may be renamed. -/
theorem Matching.image {γ δ : Type} {f : α → γ} {g : β → δ} (matching : Matching pairs) (rows : Function.Injective f)
    (cols : Function.Injective g) : Matching (pairs.map fun pair => (f pair.1, g pair.2)) := by
  constructor
  · have distinct := matching.distinctRows.map rows
    rwa [List.map_map] at distinct ⊢
  · have distinct := matching.distinctCols.map cols
    rwa [List.map_map] at distinct ⊢

/-- Different items with a row and a column each. -/
theorem matching_items {ι : Type} {items : List ι} {f : ι → α} {g : ι → β} (distinct : items.Nodup)
    (rows : Function.Injective f) (cols : Function.Injective g) : Matching (items.map fun item => (f item, g item)) := by
  constructor
  · rw [List.map_map]
    exact distinct.map rows
  · rw [List.map_map]
    exact distinct.map cols

/-- A matching of a finite type with itself is part of a permutation. -/
theorem Matching.extends [Fintype α] {pairs : List (α × α)} (matching : Matching pairs) :
    ∃ places : Equiv.Perm α, ∀ pair ∈ pairs, places pair.1 = pair.2 := by
  classical
  let partner (i : α) : α := if paired : ∃ j, (i, j) ∈ pairs then paired.choose else i
  have partner_eq {i j : α} (member : (i, j) ∈ pairs) : partner i = j := by
    have paired : ∃ j, (i, j) ∈ pairs := ⟨j, member⟩
    simp only [partner, dif_pos paired]
    exact matching.row paired.choose_spec member
  have distinct : Set.InjOn partner {i | ∃ j, (i, j) ∈ pairs} := by
    intro i paired k again same
    obtain ⟨j, member⟩ := paired
    obtain ⟨l, other⟩ := again
    rw [partner_eq member, partner_eq other] at same
    exact matching.col member (same ▸ other)
  obtain ⟨whole, extended⟩ := Set.MapsTo.exists_equiv_extend_of_card_eq (t := Finset.univ)
    (Finset.card_univ (α := α)).symm (fun i _ => Finset.mem_coe.mpr (Finset.mem_univ (partner i))) distinct
  refine ⟨whole.trans (Equiv.subtypeUnivEquiv Finset.mem_univ), fun pair member => ?_⟩
  obtain ⟨i, j⟩ := pair
  rw [Equiv.trans_apply, Equiv.subtypeUnivEquiv_apply, extended i ⟨j, member⟩]
  exact partner_eq member

end pairs

section prices

variable {n : Nat} {K : Type} [AddCommGroup K] [PartialOrder K] [IsOrderedAddMonoid K]
variable {cost : Matrix (Fin n) (Fin n) K} {u v : Fin n → K} {places : Equiv.Perm (Fin n)}

/-- The prices of the rows and of the columns are a lower bound. -/
theorem prices_le (feasible : ∀ i j, u i + v j ≤ cost i j) (places : Equiv.Perm (Fin n)) :
    ∑ i, u i + ∑ j, v j ≤ ∑ i, cost i (places i) := by
  calc ∑ i, u i + ∑ j, v j = ∑ i, u i + ∑ i, v (places i) := by rw [Equiv.sum_comp places v]
    _ = ∑ i, (u i + v (places i)) := Finset.sum_add_distrib.symm
    _ ≤ ∑ i, cost i (places i) := Finset.sum_le_sum fun i _ => feasible i (places i)

/-- A permutation along which the prices are exact has the least cost. -/
theorem least_of_tight (feasible : ∀ i j, u i + v j ≤ cost i j) (tight : ∀ i, u i + v (places i) = cost i (places i))
    (other : Equiv.Perm (Fin n)) : ∑ i, cost i (places i) ≤ ∑ i, cost i (other i) := by
  calc ∑ i, cost i (places i) = ∑ i, (u i + v (places i)) := Finset.sum_congr rfl fun i _ => (tight i).symm
    _ = ∑ i, u i + ∑ i, v (places i) := Finset.sum_add_distrib
    _ = ∑ i, u i + ∑ j, v j := by rw [Equiv.sum_comp places v]
    _ ≤ ∑ i, cost i (other i) := prices_le feasible other

end prices

section rectangle

variable {rows cols : Nat}

/-- Rows and columns of a matrix in the square around it. -/
def rowIn (i : Fin rows) : Fin (max rows cols) := i.castLE (le_max_left rows cols)

def colIn (j : Fin cols) : Fin (max rows cols) := j.castLE (le_max_right rows cols)

/-- The pairs of a permutation of the square that lie in the rectangle. -/
def inner (places : Equiv.Perm (Fin (max rows cols))) : List (Fin rows × Fin cols) :=
  (List.finRange rows ×ˢ List.finRange cols).filter fun pair => decide (places (rowIn pair.1) = colIn pair.2)

/-- A matching of the whole shorter side. -/
structure Pairing (pairs : List (Fin rows × Fin cols)) : Prop extends Matching pairs where
  length : pairs.length = min rows cols

variable {places : Equiv.Perm (Fin (max rows cols))}

theorem mem_inner {pair : Fin rows × Fin cols} : pair ∈ inner places ↔ places (rowIn pair.1) = colIn pair.2 := by
  obtain ⟨i, j⟩ := pair
  simp [inner]

theorem inner_nodup : (inner places).Nodup :=
  (List.Nodup.product (List.nodup_finRange rows) (List.nodup_finRange cols)).filter _

theorem inner_matching : Matching (inner places) := by
  constructor
  · refine List.Nodup.map_on (fun one member two again same => ?_) inner_nodup
    have first := mem_inner.mp member
    rw [same, mem_inner.mp again] at first
    exact Prod.ext same (Fin.castLE_injective _ first).symm
  · refine List.Nodup.map_on (fun one member two again same => ?_) inner_nodup
    have first := mem_inner.mp member
    rw [same, ← mem_inner.mp again] at first
    exact Prod.ext (Fin.castLE_injective _ (places.injective first)) same

theorem inner_pairing (places : Equiv.Perm (Fin (max rows cols))) : Pairing (inner places) := by
  refine ⟨inner_matching, ?_⟩
  rcases le_total rows cols with wide | tall
  · have all : ((inner places).map Prod.fst).Perm (List.finRange rows) := by
      refine (List.perm_ext_iff_of_nodup inner_matching.distinctRows (List.nodup_finRange rows)).mpr fun i => ?_
      simp only [List.mem_finRange, iff_true, List.mem_map]
      exact ⟨(i, ⟨places (rowIn i), by omega⟩), mem_inner.mpr rfl, rfl⟩
    have counted := all.length_eq
    rw [List.length_map, List.length_finRange] at counted
    omega
  · have all : ((inner places).map Prod.snd).Perm (List.finRange cols) := by
      refine (List.perm_ext_iff_of_nodup inner_matching.distinctCols (List.nodup_finRange cols)).mpr fun j => ?_
      simp only [List.mem_finRange, iff_true, List.mem_map]
      exact ⟨(⟨places.symm (colIn j), by omega⟩, j), mem_inner.mpr (places.apply_symm_apply _), rfl⟩
    have counted := all.length_eq
    rw [List.length_map, List.length_finRange] at counted
    omega

/-- Every pairing is what a permutation has in the rectangle. -/
theorem Pairing.perm_inner {pairs : List (Fin rows × Fin cols)} (pairing : Pairing pairs) :
    ∃ places : Equiv.Perm (Fin (max rows cols)), pairs.Perm (inner places) := by
  have matching := pairing.toMatching.image (Fin.castLE_injective (le_max_left rows cols))
    (Fin.castLE_injective (le_max_right rows cols))
  obtain ⟨places, extended⟩ := matching.extends
  refine ⟨places, List.Subperm.perm_of_length_le ?_ ?_⟩
  · refine pairing.nodup.subperm fun pair member => mem_inner.mpr ?_
    exact extended _ (List.mem_map_of_mem member)
  · rw [(inner_pairing places).length, pairing.length]

variable {K : Type}

/-- The matrix made square by a constant. -/
def padded (cost : Matrix (Fin rows) (Fin cols) K) (rest : K) :
    Matrix (Fin (max rows cols)) (Fin (max rows cols)) K :=
  .of fun row col =>
    if inRows : row.val < rows then
      if inCols : col.val < cols then cost ⟨row, inRows⟩ ⟨col, inCols⟩ else rest
    else rest

theorem padded_inside (cost : Matrix (Fin rows) (Fin cols) K) (rest : K) (i : Fin rows) (j : Fin cols) :
    padded cost rest (rowIn i) (colIn j) = cost i j := by
  have inRows : (rowIn i : Fin (max rows cols)).val < rows := i.isLt
  have inCols : (colIn j : Fin (max rows cols)).val < cols := j.isLt
  rw [padded, Matrix.of_apply, dif_pos inRows, dif_pos inCols]
  rfl

/-- Every entry is one of the matrix or the constant. -/
theorem padded_entry (cost : Matrix (Fin rows) (Fin cols) K) (rest : K) (holds : K → Prop) (i j : Fin (max rows cols))
    (inside : ∀ k l, holds (cost k l)) (outside : holds rest) : holds (padded cost rest i j) := by
  rw [padded, Matrix.of_apply]
  split
  · split
    · exact inside _ _
    · exact outside
  · exact outside

theorem padded_outside (cost : Matrix (Fin rows) (Fin cols) K) (rest : K) {i j : Fin (max rows cols)}
    (outside : ¬(i.val < rows ∧ j.val < cols)) : padded cost rest i j = rest := by
  rw [padded, Matrix.of_apply]
  split
  · next inRows => exact dif_neg fun inCols => outside ⟨inRows, inCols⟩
  · rfl

variable [AddCommGroup K]

def total (cost : Matrix (Fin rows) (Fin cols) K) (pairs : List (Fin rows × Fin cols)) : K :=
  (pairs.map fun pair => cost pair.1 pair.2).sum

theorem total_inner (cost : Matrix (Fin rows) (Fin cols) K) (rest : K) (places : Equiv.Perm (Fin (max rows cols))) :
    total cost (inner places) =
      ∑ i with i.val < rows ∧ (places i).val < cols, padded cost rest i (places i) := by
  have listed : total cost (inner places) = ∑ pair ∈ (inner places).toFinset, cost pair.1 pair.2 :=
    (List.sum_toFinset _ inner_nodup).symm
  rw [listed]
  refine Finset.sum_bij (fun pair _ => rowIn pair.1) ?_ ?_ ?_ ?_
  · intro pair member
    have place := mem_inner.mp (List.mem_toFinset.mp member)
    rw [Finset.mem_filter, place]
    exact ⟨Finset.mem_univ _, pair.1.isLt, pair.2.isLt⟩
  · intro one member two again same
    have first := mem_inner.mp (List.mem_toFinset.mp member)
    rw [same, mem_inner.mp (List.mem_toFinset.mp again)] at first
    exact Prod.ext (Fin.castLE_injective _ same) (Fin.castLE_injective _ first).symm
  · intro i member
    obtain ⟨_, row, col⟩ := Finset.mem_filter.mp member
    exact ⟨(⟨i, row⟩, ⟨places i, col⟩), List.mem_toFinset.mpr (mem_inner.mpr rfl), rfl⟩
  · intro pair member
    have place := mem_inner.mp (List.mem_toFinset.mp member)
    rw [place]
    exact (padded_inside cost rest pair.1 pair.2).symm

theorem card_inside (places : Equiv.Perm (Fin (max rows cols))) :
    (Finset.univ.filter fun i => i.val < rows ∧ (places i).val < cols).card = min rows cols := by
  have counted := total_inner (fun _ _ => (1 : ℤ)) 1 places
  simp only [total, padded, Matrix.of_apply, dite_eq_ite, ite_self, Finset.sum_const, List.map_const',
    List.sum_replicate, (inner_pairing places).length] at counted
  rw [nsmul_one, nsmul_one] at counted
  exact (Nat.cast_injective counted).symm

/-- The rest of a permutation costs the same for all. -/
theorem sum_padded (cost : Matrix (Fin rows) (Fin cols) K) (rest : K) (places : Equiv.Perm (Fin (max rows cols))) :
    ∑ i, padded cost rest i (places i) =
      total cost (inner places) + (max rows cols - min rows cols) • rest := by
  rw [total_inner cost rest,
    ← Finset.sum_filter_add_sum_filter_not Finset.univ fun i => i.val < rows ∧ (places i).val < cols]
  congr 1
  have outside : ∀ i ∈ Finset.univ.filter fun i => ¬(i.val < rows ∧ (places i).val < cols),
      padded cost rest i (places i) = rest := fun i member => padded_outside cost rest (Finset.mem_filter.mp member).2
  rw [Finset.sum_congr rfl outside, Finset.sum_const]
  congr 1
  have inside := card_inside places
  have all := Finset.card_filter_add_card_filter_not (s := Finset.univ)
    fun i => i.val < rows ∧ (places i).val < cols
  rw [Finset.card_univ, Fintype.card_fin] at all
  omega

variable [PartialOrder K] {cost : Matrix (Fin rows) (Fin cols) K} {rest : K}

/-- A pairing whose cost no other one is below. -/
structure Minimal (cost : Matrix (Fin rows) (Fin cols) K) (pairs : List (Fin rows × Fin cols)) : Prop where
  pairing : Pairing pairs
  least : ∀ other, Pairing other → total cost pairs ≤ total cost other

/-- Exact prices of the square show that the pairs in the rectangle are minimal. -/
theorem minimal_of_tight [IsOrderedAddMonoid K] {u v : Fin (max rows cols) → K}
    (feasible : ∀ i j, u i + v j ≤ padded cost rest i j)
    (tight : ∀ i, u i + v (places i) = padded cost rest i (places i)) : Minimal cost (inner places) := by
  refine ⟨inner_pairing places, fun other pairing => ?_⟩
  obtain ⟨others, same⟩ := pairing.perm_inner
  have equal : total cost other = total cost (inner others) := (same.map _).sum_eq
  have least := least_of_tight feasible tight others
  rw [sum_padded, sum_padded] at least
  rw [equal]
  exact le_of_add_le_add_right least

/-- A pair that alone in its row and in its column costs less than the most any pair
may cost belongs to every minimal assignment. -/
theorem Minimal.isolated [IsOrderedAddMonoid K] {pairs : List (Fin rows × Fin cols)} (least : Minimal cost pairs)
    {i : Fin rows} {j : Fin cols} {most : K} (less : cost i j < most) (row : ∀ l, l ≠ j → cost i l = most)
    (col : ∀ k, k ≠ i → cost k j = most) (bounded : ∀ k l, cost k l ≤ most) : (i, j) ∈ pairs := by
  obtain ⟨places, same⟩ := least.pairing.perm_inner
  rw [same.mem_iff, mem_inner]
  by_contra apart
  -- Give the row its column, and the row that had it what is left.
  let owner := places.symm (colIn j)
  let others := (Equiv.swap (rowIn i) owner).trans places
  have owned : places owner = colIn j := places.apply_symm_apply _
  have given : others (rowIn i) = colIn j := by
    rw [Equiv.trans_apply, Equiv.swap_apply_left, owned]
  have ceiling (k l : Fin (max rows cols)) : padded cost most k l ≤ most :=
    padded_entry cost most (· ≤ most) k l bounded le_rfl
  have before : padded cost most (rowIn i) (places (rowIn i)) = most := by
    by_cases inside : (places (rowIn i)).val < cols
    · have other : (⟨places (rowIn i), inside⟩ : Fin cols) ≠ j := by
        intro equal
        exact apart (Fin.ext (congrArg (fun l : Fin cols => l.val) equal))
      exact (padded_inside cost most i ⟨places (rowIn i), inside⟩).trans (row _ other)
    · exact padded_outside cost most fun within => inside within.2
  have taken : padded cost most owner (places owner) = most := by
    rw [owned]
    by_cases inside : owner.val < rows
    · have other : (⟨owner, inside⟩ : Fin rows) ≠ i := by
        intro equal
        have equal : owner = rowIn i := Fin.ext (congrArg (fun k : Fin rows => k.val) equal)
        exact apart (equal ▸ owned)
      exact (padded_inside cost most ⟨owner, inside⟩ j).trans (col _ other)
    · exact padded_outside cost most fun within => inside within.1
  have cheaper : ∑ k, padded cost most k (others k) < ∑ k, padded cost most k (places k) := by
    refine Finset.sum_lt_sum (fun k _ => ?_) ⟨rowIn i, Finset.mem_univ _, ?_⟩
    · by_cases first : k = rowIn i
      · rw [first, before]
        exact ceiling _ _
      · by_cases last : k = owner
        · rw [last, taken]
          exact ceiling _ _
        · rw [Equiv.trans_apply, Equiv.swap_apply_of_ne_of_ne first last]
    · rw [given, before, padded_inside]
      exact less
  rw [sum_padded, sum_padded] at cheaper
  have equal : total cost pairs = total cost (inner places) := (same.map _).sum_eq
  refine absurd (least.least _ (inner_pairing others)) (not_le_of_gt ?_)
  rw [equal]
  exact lt_of_add_lt_add_right cheaper

end rectangle

end Yolov5Rknn.Assignment
