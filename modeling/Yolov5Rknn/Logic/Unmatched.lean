import Yolov5Rknn.Logic.Assignment
import Mathlib.Algebra.BigOperators.Intervals
import Mathlib.Tactic.Linarith
import Mathlib.Tactic.Ring

/-! Partial matchings with a price for every row and column left alone. They are the
permutations of a square matrix with a column more for every row and a row more for
every column. -/

namespace Yolov5Rknn.Assignment

variable {rows cols : Nat}

/-- The pairs of a permutation that lie in the matrix. -/
def corner (places : Equiv.Perm (Fin (rows + cols))) : List (Fin rows × Fin cols) :=
  (List.finRange rows).filterMap fun i =>
    if inside : (places (i.castAdd cols)).val < cols then some (i, ⟨places (i.castAdd cols), inside⟩) else none

variable {places : Equiv.Perm (Fin (rows + cols))}

theorem mem_corner {i : Fin rows} {j : Fin cols} : (i, j) ∈ corner places ↔ (places (i.castAdd cols)).val = j.val := by
  rw [corner, List.mem_filterMap]
  constructor
  · intro found
    obtain ⟨k, _, same⟩ := found
    split at same
    · next inside =>
      cases same
      rfl
    · cases same
  · intro same
    have inside : (places (i.castAdd cols)).val < cols := same ▸ j.isLt
    exact ⟨i, List.mem_finRange i, by rw [dif_pos inside]; exact congrArg (fun col => some (i, col)) (Fin.ext same)⟩

theorem corner_fst (places : Equiv.Perm (Fin (rows + cols))) :
    (corner places).map Prod.fst = (List.finRange rows).filter fun i => decide ((places (i.castAdd cols)).val < cols) := by
  rw [corner, List.map_filterMap, ← List.filterMap_eq_filter]
  refine List.filterMap_congr fun i _ => ?_
  by_cases inside : (places (i.castAdd cols)).val < cols
  · simp [inside, Option.guard]
  · simp [inside, Option.guard]

theorem corner_matching (places : Equiv.Perm (Fin (rows + cols))) : Matching (corner places) := by
  have distinct : ((corner places).map Prod.fst).Nodup := by
    rw [corner_fst]
    exact (List.nodup_finRange rows).filter _
  refine ⟨distinct, List.Nodup.map_on (fun one member two again same => ?_) (distinct.of_map _)⟩
  have first := mem_corner.mp member
  rw [same, ← mem_corner.mp again] at first
  exact Prod.ext (Fin.castAdd_injective rows cols (places.injective (Fin.ext first))) same

section extend

variable {pairs : List (Fin rows × Fin cols)}

/-- The last columns, one for each row, and the last rows, one for each column. -/
def spareCol (i : Fin rows) : Fin (rows + cols) := ⟨cols + i, by omega⟩

def spareRow (j : Fin cols) : Fin (rows + cols) := ⟨rows + j, by omega⟩

def realCol (j : Fin cols) : Fin (rows + cols) := ⟨j, by omega⟩

/-- The items that are not taken. -/
def unpaired {ι : Type} [DecidableEq ι] (items taken : List ι) : List ι := items.filter fun item => decide (item ∉ taken)

theorem mem_unpaired {ι : Type} [DecidableEq ι] {items taken : List ι} {item : ι} :
    item ∈ unpaired items taken ↔ item ∈ items ∧ item ∉ taken := by
  rw [unpaired, List.mem_filter, decide_eq_true_iff]

/-- The pairs of a matching, and the rows and columns it leaves alone with their own spare. -/
def spared (pairs : List (Fin rows × Fin cols)) : List (Fin (rows + cols) × Fin (rows + cols)) :=
  pairs.map (fun pair => (pair.1.castAdd cols, realCol pair.2)) ++
    ((unpaired (List.finRange rows) (pairs.map Prod.fst)).map fun i => (i.castAdd cols, spareCol i)) ++
    (unpaired (List.finRange cols) (pairs.map Prod.snd)).map fun j => (spareRow j, realCol j)

theorem spared_matching (matching : Matching pairs) : Matching (spared pairs) := by
  have rowsNodup : (unpaired (List.finRange rows) (pairs.map Prod.fst)).Nodup := (List.nodup_finRange rows).filter _
  have colsNodup : (unpaired (List.finRange cols) (pairs.map Prod.snd)).Nodup := (List.nodup_finRange cols).filter _
  have realRows : Function.Injective (Fin.castAdd cols : Fin rows → _) := Fin.castAdd_injective rows cols
  have realCols : Function.Injective (realCol : Fin cols → Fin (rows + cols)) :=
    fun one two same => Fin.ext (Fin.mk.inj same)
  have spareCols : Function.Injective (spareCol : Fin rows → Fin (rows + cols)) :=
    fun one two same => Fin.ext (Nat.add_left_cancel (Fin.mk.inj same))
  have spareRows : Function.Injective (spareRow : Fin cols → Fin (rows + cols)) :=
    fun one two same => Fin.ext (Nat.add_left_cancel (Fin.mk.inj same))
  refine .append (.append (matching.image realRows realCols) (matching_items rowsNodup realRows spareCols) ?_)
    (matching_items colsNodup spareRows realCols) ?_
  · intro one member two again
    obtain ⟨pair, listed, rfl⟩ := List.mem_map.mp member
    obtain ⟨i, left, rfl⟩ := List.mem_map.mp again
    refine ⟨fun same => ?_, fun same => ?_⟩
    · have missing := (mem_unpaired.mp left).2
      exact missing (List.mem_map.mpr ⟨pair, listed, realRows same⟩)
    · have col := Fin.mk.inj same
      have inside := pair.2.isLt
      omega
  · intro one member two again
    obtain ⟨j, left, rfl⟩ := List.mem_map.mp again
    have missing := (mem_unpaired.mp left).2
    rcases List.mem_append.mp member with first | second
    · obtain ⟨pair, listed, rfl⟩ := List.mem_map.mp first
      refine ⟨fun same => ?_, fun same => ?_⟩
      · have row := Fin.val_eq_of_eq same
        have inside := pair.1.isLt
        simp only [Fin.val_castAdd, spareRow] at row
        omega
      · exact missing (List.mem_map.mpr ⟨pair, listed, realCols same⟩)
    · obtain ⟨i, _, rfl⟩ := List.mem_map.mp second
      refine ⟨fun same => ?_, fun same => ?_⟩
      · have row := Fin.val_eq_of_eq same
        have inside := i.isLt
        simp only [Fin.val_castAdd, spareRow] at row
        omega
      · have col := Fin.mk.inj same
        have inside := j.isLt
        omega

/-- Every matching is what a permutation has in the matrix. -/
theorem Matching.perm_corner (matching : Matching pairs) :
    ∃ places : Equiv.Perm (Fin (rows + cols)), pairs.Perm (corner places) := by
  obtain ⟨places, extended⟩ := (spared_matching matching).extends
  have kept {i j} (member : (i, j) ∈ pairs) : places (i.castAdd cols) = realCol j :=
    extended (i.castAdd cols, realCol j) (List.mem_append_left _ (List.mem_append_left _
      (List.mem_map.mpr ⟨(i, j), member, rfl⟩)))
  refine ⟨places, (List.perm_ext_iff_of_nodup matching.nodup (corner_matching places).nodup).mpr fun pair => ?_⟩
  obtain ⟨i, j⟩ := pair
  rw [mem_corner]
  constructor
  · intro member
    rw [kept member]
    rfl
  · intro same
    by_cases paired : i ∈ pairs.map Prod.fst
    · obtain ⟨⟨k, l⟩, member, rfl⟩ := List.mem_map.mp paired
      rw [kept member] at same
      have col : l = j := Fin.ext same
      exact col ▸ member
    · have spare := extended (i.castAdd cols, spareCol i) (List.mem_append_left _ (List.mem_append_right _
        (List.mem_map.mpr ⟨i, mem_unpaired.mpr ⟨List.mem_finRange i, paired⟩, rfl⟩)))
      have place : cols + i.val = j.val := by
        rw [← same, spare]
        rfl
      have inside := j.isLt
      omega

end extend

section price

variable {K : Type}

/-- The square matrix: a row or a column left alone costs `alone`. -/
def withSpare [Zero K] (cost : Matrix (Fin rows) (Fin cols) K) (alone : K) :
    Matrix (Fin (rows + cols)) (Fin (rows + cols)) K :=
  .of fun i j =>
    if inRows : i.val < rows then if inCols : j.val < cols then cost ⟨i, inRows⟩ ⟨j, inCols⟩ else alone
    else if j.val < cols then alone else 0

variable [CommRing K]

/-- What a partial matching costs with the rows and columns it leaves alone. -/
def price (cost : Matrix (Fin rows) (Fin cols) K) (alone : K) (pairs : List (Fin rows × Fin cols)) : K :=
  total cost pairs + ((rows - pairs.length + (cols - pairs.length) : Nat) : K) * alone

/-- Taken as savings, every pair counts on its own. -/
theorem price_eq (cost : Matrix (Fin rows) (Fin cols) K) (alone : K) {pairs : List (Fin rows × Fin cols)}
    (matching : Matching pairs) :
    price cost alone pairs = (rows + cols) * alone + total (.of fun i j => cost i j - 2 * alone) pairs := by
  have rowBound : pairs.length ≤ rows := by
    have bound := matching.distinctRows.length_le_card
    rwa [List.length_map, Fintype.card_fin] at bound
  have colBound : pairs.length ≤ cols := by
    have bound := matching.distinctCols.length_le_card
    rwa [List.length_map, Fintype.card_fin] at bound
  have savings : total (.of fun i j => cost i j - 2 * alone) pairs = total cost pairs - pairs.length * (2 * alone) := by
    clear matching rowBound colBound
    induction pairs with
    | nil => simp [total]
    | cons pair rest ih =>
      simp only [total, List.map_cons, List.sum_cons, List.length_cons, Matrix.of_apply] at ih ⊢
      rw [ih]
      push_cast
      ring
  rw [savings, price, Nat.cast_add, Nat.cast_sub rowBound, Nat.cast_sub colBound]
  ring

theorem sum_lt {first n : Nat} (bound : first ≤ n) (alone : K) :
    ∑ i : Fin n, (if i.val < first then alone else 0) = first * alone := by
  obtain ⟨last, rfl⟩ := Nat.exists_eq_add_of_le bound
  rw [Fin.sum_univ_add]
  simp

theorem total_corner (cost : Matrix (Fin rows) (Fin cols) K) (places : Equiv.Perm (Fin (rows + cols))) :
    total cost (corner places) = ∑ i : Fin rows,
      if inside : (places (i.castAdd cols)).val < cols then cost i ⟨places (i.castAdd cols), inside⟩ else 0 := by
  rw [Fin.sum_univ_def, total, corner]
  induction List.finRange rows with
  | nil => rfl
  | cons i rest ih =>
    rw [List.filterMap_cons, List.map_cons, List.sum_cons, ← ih]
    by_cases inside : (places (i.castAdd cols)).val < cols
    · simp [inside]
    · simp [inside]

/-- A permutation costs what its matching does. -/
theorem sum_withSpare (cost : Matrix (Fin rows) (Fin cols) K) (alone : K) (places : Equiv.Perm (Fin (rows + cols))) :
    ∑ i, withSpare cost alone i (places i) = price cost alone (corner places) := by
  have split (i j : Fin (rows + cols)) : withSpare cost alone i j =
      (if i.val < rows then alone else 0) + (if j.val < cols then alone else 0) +
        if inRows : i.val < rows then if inCols : j.val < cols then cost ⟨i, inRows⟩ ⟨j, inCols⟩ - 2 * alone else 0
        else 0 := by
    rw [withSpare, Matrix.of_apply]
    by_cases inRows : i.val < rows <;> by_cases inCols : j.val < cols <;> simp [inRows, inCols]
    ring
  simp only [split, Finset.sum_add_distrib]
  rw [sum_lt (Nat.le_add_right rows cols),
    Equiv.sum_comp places fun j => if j.val < cols then alone else 0, sum_lt (Nat.le_add_left cols rows),
    price_eq cost alone (corner_matching places), total_corner, Fin.sum_univ_add]
  simp
  ring

variable [LinearOrder K]

/-- A partial matching no other one is cheaper than. -/
structure Cheapest (cost : Matrix (Fin rows) (Fin cols) K) (alone : K) (pairs : List (Fin rows × Fin cols)) : Prop where
  matching : Matching pairs
  least : ∀ other, Matching other → price cost alone pairs ≤ price cost alone other

variable {cost : Matrix (Fin rows) (Fin cols) K} {alone : K} {pairs : List (Fin rows × Fin cols)}

theorem cheapest_of_least (least : ∀ other : Equiv.Perm (Fin (rows + cols)),
    ∑ i, withSpare cost alone i (places i) ≤ ∑ i, withSpare cost alone i (other i)) :
    Cheapest cost alone (corner places) := by
  refine ⟨corner_matching places, fun other matching => ?_⟩
  obtain ⟨others, same⟩ := matching.perm_corner
  have equal : price cost alone other = price cost alone (corner others) := by
    rw [price, price, same.length_eq]
    exact congrArg (· + _) (same.map _).sum_eq
  rw [equal, ← sum_withSpare, ← sum_withSpare]
  exact least others

/-- No pair of a cheapest matching is dearer than its row and column alone. -/
theorem Cheapest.le [IsStrictOrderedRing K] (cheapest : Cheapest cost alone pairs) {pair : Fin rows × Fin cols}
    (member : pair ∈ pairs) : cost pair.1 pair.2 ≤ 2 * alone := by
  have fewer := cheapest.matching.sublist (List.erase_sublist (a := pair))
  have least := cheapest.least _ fewer
  rw [price_eq cost alone cheapest.matching, price_eq cost alone fewer] at least
  have order := List.perm_cons_erase member
  have split : total (.of fun i j => cost i j - 2 * alone) pairs =
      cost pair.1 pair.2 - 2 * alone + total (.of fun i j => cost i j - 2 * alone) (pairs.erase pair) :=
    (order.map fun entry : Fin rows × Fin cols => cost entry.1 entry.2 - 2 * alone).sum_eq.trans List.sum_cons
  linarith

end price

end Yolov5Rknn.Assignment
