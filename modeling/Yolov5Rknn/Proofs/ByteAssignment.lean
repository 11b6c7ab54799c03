import Yolov5Rknn.Proofs.IouCosts
import Yolov5Rknn.Proofs.LapjvSolution
import Yolov5Rknn.Proofs.TrackerLists
import Yolov5Rknn.Logic.Unmatched
import Mathlib.Tactic.FinCases

/-! `linear_assignment` in exact arithmetic: which rows and columns it matches, and that
it lists every row and every column once. The matrices it is called with come from
`iou_distance`, which returns none if there is nothing on one side. -/

namespace Yolov5Rknn.BYTETracker
open Program Matching Assignment Lapjv

attribute [local instance] Arithmetic.ofField

/-- The entries of a matrix given by its rows. -/
def matrixOf {F : Type} [Arithmetic F] (dists : List (List F)) (rows cols : Nat) : Matrix (Fin rows) (Fin cols) F :=
  .of fun i j => (entry dists i j).getD 0

/-- `linear_assignment` on the vector of rows; `lapjv` reads the width off the first one. -/
def linearAssignmentRows {F : Type} [Arithmetic F] (dists : List (List F)) (rows cols : Nat) (thresh : F) :
    Prog (Option Assignment) :=
  linearAssignment (matrixOf dists dists.length ((dists.head?).elim 0 List.length)) rows cols thresh

section collect

variable {F : Type} {rows cols : Nat} {lap : Lap F rows cols} {places : Equiv.Perm (Fin (rows + cols))}

/-- `rowsol` and `colsol` as read from the permutations `x` and `y`. -/
structure Reads (lap : Lap F rows cols) (places : Equiv.Perm (Fin (rows + cols))) : Prop where
  rowsol : ∀ i : Fin rows, lap.rowsol i =
    if (cols : Int) ≤ (places (i.castAdd cols)).val then -1 else ((places (i.castAdd cols)).val : Int)
  colsol : ∀ j : Fin cols, lap.colsol j =
    if (rows : Int) ≤ (places.symm (realCol j)).val then -1 else ((places.symm (realCol j)).val : Int)

theorem Reads.row_iff (reads : Reads lap places) (i : Fin rows) :
    0 ≤ lap.rowsol i ↔ (places (i.castAdd cols)).val < cols := by
  rw [reads.rowsol]
  split <;> omega

theorem Reads.col_iff (reads : Reads lap places) (j : Fin cols) :
    lap.colsol j < 0 ↔ ¬(places.symm (realCol j)).val < rows := by
  rw [reads.colsol]
  split <;> omega

/-- The positions of pairs. -/
def positions (pairs : List (Fin rows × Fin cols)) : List (Nat × Nat) := pairs.map fun pair => (pair.1.val, pair.2.val)

theorem Reads.matched (reads : Reads lap places) : lap.collect.matched = positions (corner places) := by
  rw [positions, corner, List.map_filterMap, Lap.collect]
  refine List.filterMap_congr fun i _ => ?_
  by_cases inside : (places (i.castAdd cols)).val < cols
  · have value : lap.rowsol i = (places (i.castAdd cols)).val := by
      rw [reads.rowsol, if_neg (by omega)]
    rw [if_pos ((reads.row_iff i).mpr inside), dif_pos inside, value, Int.toNat_natCast]
    rfl
  · rw [if_neg (mt (reads.row_iff i).mp inside), dif_neg inside]
    rfl

theorem val_range (n : Nat) : (List.finRange n).map Fin.val = List.range n := by simp

theorem corner_snd (places : Equiv.Perm (Fin (rows + cols))) : ((corner places).map Prod.snd).Perm
    ((List.finRange cols).filter fun j => decide ((places.symm (realCol j)).val < rows)) := by
  refine (List.perm_ext_iff_of_nodup (corner_matching places).distinctCols ((List.nodup_finRange cols).filter _)).mpr
    fun j => ?_
  rw [List.mem_map, List.mem_filter, decide_eq_true_iff]
  constructor
  · intro found
    obtain ⟨⟨i, l⟩, member, rfl⟩ := found
    have place : places (i.castAdd cols) = realCol l := Fin.ext (mem_corner.mp member)
    refine ⟨List.mem_finRange l, ?_⟩
    rw [← place, Equiv.symm_apply_apply]
    exact i.isLt
  · intro found
    refine ⟨(⟨_, found.2⟩, j), mem_corner.mpr ?_, rfl⟩
    change (places (places.symm (realCol j))).val = j.val
    rw [Equiv.apply_symm_apply]
    rfl

/-- Every row and every column is listed once. -/
theorem Reads.partition (reads : Reads lap places) : IsPartition rows cols lap.collect := by
  constructor
  · have matched : lap.collect.matched.map Prod.fst = ((corner places).map Prod.fst).map Fin.val := by
      rw [reads.matched, positions, List.map_map, List.map_map]
      rfl
    have alone : lap.collect.unmatchedRows =
        ((List.finRange rows).filter fun i => !decide ((places (i.castAdd cols)).val < cols)).map Fin.val := by
      simp only [Lap.collect, reads.row_iff]
    rw [matched, alone, corner_fst, ← List.map_append, ← val_range]
    exact (List.filter_append_perm _ _).map _
  · have matched : lap.collect.matched.map Prod.snd = ((corner places).map Prod.snd).map Fin.val := by
      rw [reads.matched, positions, List.map_map, List.map_map]
      rfl
    have alone : lap.collect.unmatchedCols =
        ((List.finRange cols).filter fun j => !decide ((places.symm (realCol j)).val < rows)).map Fin.val := by
      simp only [Lap.collect, reads.col_iff, decide_not]
    rw [matched, alone, ← val_range]
    refine (((corner_snd places).map _).append_right _).trans ?_
    rw [← List.map_append]
    exact (List.filter_append_perm _ _).map _

end collect

section exact

variable {K : Type} [Field K] [LinearOrder K] [IsStrictOrderedRing K] {rows cols : Nat}
  {cost : Matrix (Fin rows) (Fin cols) K} {thresh : K}

theorem costCExtended_eq (limit : thresh ≤ 1) : costCExtended cost thresh = withSpare cost (thresh / 2) := by
  have below : thresh < 9223372036854775807 := limit.trans_lt (by norm_num)
  have value : limitVal cost thresh = thresh / 2 := if_pos below
  rw [costCExtended, value]
  rfl

theorem withSpare_bounds (limit : 0 < thresh ∧ thresh ≤ 1) (entries : ∀ i j, 0 ≤ cost i j ∧ cost i j ≤ 1)
    (i j : Fin (rows + cols)) : 0 ≤ withSpare cost (thresh / 2) i j ∧ withSpare cost (thresh / 2) i j ≤ 1 := by
  have half : 0 ≤ thresh / 2 ∧ thresh / 2 ≤ 1 := by
    constructor
    · linarith
    · linarith
  rw [withSpare, Matrix.of_apply]
  split
  · split
    · exact entries _ _
    · exact half
  · split
    · exact half
    · exact ⟨le_rfl, zero_le_one⟩

theorem optOf_ends {F : Type} [Arithmetic F] (costPtr : Matrix (Fin (rows + cols)) (Fin (rows + cols)) F)
    {rowsol : Fin rows → Int} (inside : ∀ i, rowsol i = -1 ∨ ∃ j : Fin (rows + cols), rowsol i = j.val) :
    Ends (optOf costPtr rowsol) fun _ => True := by
  refine Ends.foldlM (fun _ _ => True) (fun i rest opt _ => ?_) trivial
  rcases inside i with missing | ⟨j, place⟩
  · rw [if_neg (by omega)]
    exact .pure trivial
  · rw [if_pos (by omega), place, fetch_inside, pure_bind]
    exact .pure trivial

/-- `lapjv` never takes its exit, and reads a permutation of least cost if there are columns. -/
theorem lapjv_ends (some : 0 < rows) (limit : 0 < thresh ∧ thresh ≤ 1) (entries : ∀ i j, 0 ≤ cost i j ∧ cost i j ≤ 1) :
    Ends (lapjv cost thresh) fun lap => ∃ result, lap = Option.some result ∧
      (cols ≠ 0 → ∃ places, Reads result places ∧ ∀ other : Equiv.Perm (Fin (rows + cols)),
        ∑ i, withSpare cost (thresh / 2) i (places i) ≤ ∑ i, withSpare cost (thresh / 2) i (other i)) ∧
      (cols = 0 → ∀ i, result.rowsol i = 0) := by
  unfold lapjv
  rw [costCExtended_eq limit.2]
  refine (lapjvInternal_ends (by omega) (withSpare_bounds limit entries)).bind fun solution solved => ?_
  obtain ⟨places, solved⟩ := solved
  rw [if_neg (not_not.mpr solved.ret)]
  split
  · next wide =>
    have inside (i : Fin rows) : solution.x (i.castAdd cols) = (places (i.castAdd cols)).val := solved.x _
    refine (optOf_ends _ fun i => ?_).bind fun opt _ => .pure ⟨_, rfl, fun _ =>
      ⟨places, ⟨fun i => ?_, fun j => ?_⟩, solved.least⟩, fun none => absurd none (by omega)⟩
    · dsimp only
      rw [inside]
      split
      · exact .inl rfl
      · exact .inr ⟨_, rfl⟩
    · exact congrArg (fun x => if (cols : Int) ≤ x then (-1 : Int) else x) (inside i)
    · exact congrArg (fun y => if (rows : Int) ≤ y then (-1 : Int) else y) (solved.y _)
  · next narrow =>
    have none : cols = 0 := by omega
    refine (Ends.foldlM (fun _ _ => True) (fun i rest opt _ => ?_) trivial).bind fun opt _ => .pure ⟨_, rfl,
      fun some => absurd none some, fun _ i => rfl⟩
    have first := fetch_inside (fun j => withSpare cost (thresh / 2) (i.castAdd cols) j) ⟨0, by omega⟩
    dsimp only at first
    rw [Nat.cast_zero] at first
    rw [first, pure_bind]
    exact .pure trivial

theorem linearAssignment_ends (some : 0 < rows ∧ 0 < cols) (limit : 0 < thresh ∧ thresh ≤ 1)
    (entries : ∀ i j, 0 ≤ cost i j ∧ cost i j ≤ 1) :
    Ends (linearAssignment cost rows cols thresh) fun result =>
      ∃ (lap : Lap K rows cols) (places : Equiv.Perm (Fin (rows + cols))), result = Option.some lap.collect ∧
        Reads lap places ∧ Cheapest cost (thresh / 2) (corner places) := by
  unfold linearAssignment
  rw [if_neg some.1.ne']
  refine (lapjv_ends some.1 limit entries).bind fun found ended => .pure ?_
  obtain ⟨lap, rfl, wide, _⟩ := ended
  obtain ⟨places, reads, least⟩ := wide some.2.ne'
  exact ⟨lap, places, rfl, reads, cheapest_of_least least⟩

/-- Rows without columns are all matched, with a column that does not exist. -/
theorem narrow_ends {cost : Matrix (Fin rows) (Fin 0) K} (some : 0 < rows) (limit : 0 < thresh ∧ thresh ≤ 1) :
    Ends (linearAssignment cost rows 0 thresh) fun result =>
      result = Option.some ⟨(List.range rows).map fun i => (i, 0), [], []⟩ := by
  unfold linearAssignment
  rw [if_neg some.ne']
  refine (lapjv_ends some limit fun i j => j.elim0).bind fun found ended => .pure ?_
  obtain ⟨lap, rfl, _, narrow⟩ := ended
  have zero := narrow rfl
  simp [Lap.collect, zero]
  rw [← val_range, List.map_map]
  rfl

/-- The matches make up a partial matching of least cost, where a row or a column left
alone costs half the threshold; so no match costs more than the threshold. -/
theorem association_optimal (cost : Matrix (Fin rows) (Fin cols) K) (thresh : K) (some : 0 < rows ∧ 0 < cols)
    (limit : 0 < thresh ∧ thresh ≤ 1) (entries : ∀ i j, 0 ≤ cost i j ∧ cost i j ≤ 1) :
    Ends (linearAssignment cost rows cols thresh) fun result => ∃ assignment pairs,
      result = Option.some assignment ∧ assignment.matched = positions pairs ∧ Cheapest cost (thresh / 2) pairs ∧
        ∀ pair ∈ pairs, cost pair.1 pair.2 ≤ thresh := by
  refine (linearAssignment_ends some limit entries).imp fun result ended => ?_
  obtain ⟨lap, places, returned, reads, cheapest⟩ := ended
  refine ⟨lap.collect, corner places, returned, reads.matched, cheapest, fun pair member => ?_⟩
  have bound := cheapest.le member
  linarith

/-- Three rows and two columns; the middle row is too far from both. -/
def sampleCost : Matrix (Fin 3) (Fin 2) ℚ := ![![1 / 10, 6 / 10], ![9 / 10, 1], ![3 / 10, 2 / 10]]

theorem sampleCost_bounds (i : Fin 3) (j : Fin 2) : 0 ≤ sampleCost i j ∧ sampleCost i j ≤ 1 := by
  fin_cases i <;> fin_cases j <;> norm_num [sampleCost]

theorem association_optimal_sample :
    Ends (linearAssignment sampleCost 3 2 (8 / 10)) fun result => ∃ assignment pairs,
      result = Option.some assignment ∧ assignment.matched = positions pairs ∧
        Cheapest sampleCost (8 / 10 / 2) pairs ∧ ∀ pair ∈ pairs, sampleCost pair.1 pair.2 ≤ 8 / 10 :=
  association_optimal (K := ℚ) sampleCost (8 / 10) (by decide) (by norm_num) sampleCost_bounds

/-- The call returns, without the exit, and lists every row and every column once. -/
def Partitioned (rows cols : Nat) (result : Option Assignment) : Prop :=
  ∃ assignment, result = Option.some assignment ∧ IsPartition rows cols assignment

theorem lapjvInternal_inverse (cost : Matrix (Fin rows) (Fin cols) K) (some : 0 < rows)
    (limit : 0 < thresh ∧ thresh ≤ 1) (entries : ∀ i j, 0 ≤ cost i j ∧ cost i j ≤ 1) :
    Ends (lapjvInternal (costCExtended cost thresh)) fun solution => solution.ret = 0 ∧
      ∃ places : Equiv.Perm (Fin (rows + cols)),
        (∀ i, solution.x i = (places i).val) ∧ ∀ j, solution.y j = (places.symm j).val := by
  rw [costCExtended_eq limit.2]
  refine (lapjvInternal_ends (by omega) (withSpare_bounds limit entries)).imp fun solution solved => ?_
  obtain ⟨places, solved⟩ := solved
  exact ⟨solved.ret, places, solved.x, solved.y⟩

omit [IsStrictOrderedRing K] in
theorem linearAssignment_empty (cost : Matrix (Fin 0) (Fin cols) K) (costMatrixSize costMatrixSizeSize : Nat) :
    Ends (linearAssignment cost costMatrixSize costMatrixSizeSize thresh)
      (Partitioned costMatrixSize costMatrixSizeSize) := by
  unfold linearAssignment
  rw [if_pos rfl]
  exact .pure ⟨_, rfl, .refl _, .refl _⟩

theorem linearAssignment_wide (cost : Matrix (Fin rows) (Fin cols) K) (shape : rows = 0 ∨ 0 < cols)
    (limit : 0 < thresh ∧ thresh ≤ 1) (entries : ∀ i j, 0 ≤ cost i j ∧ cost i j ≤ 1) :
    Ends (linearAssignment cost rows cols thresh) (Partitioned rows cols) := by
  rcases Nat.eq_zero_or_pos rows with none | some
  · subst none
    exact linearAssignment_empty cost 0 cols
  · have wide : 0 < cols := shape.resolve_left (by omega)
    refine (linearAssignment_ends ⟨some, wide⟩ limit entries).imp fun result ended => ?_
    obtain ⟨lap, places, returned, reads, _⟩ := ended
    exact ⟨lap.collect, returned, reads.partition⟩

/-- Rows without columns would get a column that does not exist; `iou_distance` never builds them. -/
theorem linearAssignment_narrow (cost : Matrix (Fin rows) (Fin 0) K) (some : 0 < rows)
    (limit : 0 < thresh ∧ thresh ≤ 1) : ¬Ends (linearAssignment cost rows 0 thresh) (Partitioned rows 0) := by
  intro ended
  obtain ⟨result, returned, assignment, again, partition⟩ := (narrow_ends some limit).same ended
  rw [returned] at again
  cases again
  have matched : ((0, 0) : Nat × Nat) ∈ (List.range rows).map fun i => (i, 0) :=
    List.mem_map.mpr ⟨0, List.mem_range.mpr some, rfl⟩
  exact Nat.not_lt_zero 0 (partition.col_lt matched)

/-! ### The matrices of `iou_distance` -/

theorem matrixOf_bounds {dists : List (List K)}
    (bounds : ∀ row ∈ dists, ∀ dist ∈ row, 0 ≤ dist ∧ dist ≤ 1) (i : Fin rows) (j : Fin cols) :
    0 ≤ matrixOf dists rows cols i j ∧ matrixOf dists rows cols i j ≤ 1 := by
  change 0 ≤ (entry dists i j).getD 0 ∧ (entry dists i j).getD 0 ≤ 1
  cases found : entry dists i j with
  | none => exact ⟨le_rfl, zero_le_one⟩
  | some dist =>
    obtain ⟨row, there, inside⟩ := Option.bind_eq_some_iff.mp found
    exact bounds row (List.mem_of_getElem? there) dist (List.mem_of_getElem? inside)

/-- The matrices and thresholds for which the solver was proved right. -/
structure Solvable (dists : List (List K)) (thresh : K) : Prop where
  limit : 0 < thresh ∧ thresh ≤ 1
  filled : ∀ row ∈ dists, row ≠ []
  bounds : ∀ row ∈ dists, ∀ dist ∈ row, 0 ≤ dist ∧ dist ≤ 1

theorem iouDistance_solvable (a b : List (STrack K)) (limit : 0 < thresh ∧ thresh ≤ 1) :
    Solvable (iouDistance a b) thresh where
  limit
  filled row member := by
    obtain ⟨scores, scored, rfl⟩ := List.mem_map.mp member
    unfold ious at scored
    split at scored
    · cases scored
    next some =>
      obtain ⟨box, _, rfl⟩ := List.mem_map.mp scored
      simp only [List.isEmpty_map, Bool.or_eq_true, not_or, List.isEmpty_iff] at some
      simpa using some.2
  bounds _ member _ inside := iouDistance_bounds member inside

omit [IsStrictOrderedRing K] in
/-- Rows that all have a first entry make up a matrix with columns, or none. -/
theorem Solvable.shape {dists : List (List K)} (solvable : Solvable dists thresh)
    (wide : ∀ row ∈ dists, row.length = cols) : dists = [] ∨ 0 < cols := by
  cases dists with
  | nil => exact .inl rfl
  | cons row rest =>
    right
    rw [← wide row List.mem_cons_self]
    exact List.length_pos_iff.mpr (solvable.filled row List.mem_cons_self)

theorem linearAssignmentRows_ends {dists : List (List K)} (solvable : Solvable dists thresh)
    (shaped : Shaped dists rows cols) : Ends (linearAssignmentRows dists rows cols thresh) (Partitioned rows cols) := by
  rcases shaped with ⟨rfl, _⟩ | ⟨rfl, wide⟩
  · exact linearAssignment_empty _ rows cols
  · unfold linearAssignmentRows
    rcases solvable.shape wide with rfl | positive
    · exact linearAssignment_empty _ 0 cols
    · cases dists with
      | nil => exact linearAssignment_empty _ 0 cols
      | cons row rest =>
        have width : ((row :: rest).head?).elim 0 List.length = cols := wide row List.mem_cons_self
        rw [width]
        exact linearAssignment_wide _ (.inr positive) solvable.limit (matrixOf_bounds solvable.bounds)

/-- The solver returns 0 and inverse permutations, and the call ends in range with a
partition, for every matrix of at least one row and one column; without a matrix every
row and every column is left over. No call is made with rows that have no column. -/
theorem association_partitions (thresh : K) (limit : 0 < thresh ∧ thresh ≤ 1) :
    (∀ {rows cols : Nat} (cost : Matrix (Fin rows) (Fin cols) K), 0 < rows → (∀ i j, 0 ≤ cost i j ∧ cost i j ≤ 1) →
      Ends (lapjvInternal (costCExtended cost thresh)) fun solution => solution.ret = 0 ∧
        ∃ places : Equiv.Perm (Fin (rows + cols)),
          (∀ i, solution.x i = (places i).val) ∧ ∀ j, solution.y j = (places.symm j).val) ∧
    (∀ {rows cols : Nat} (cost : Matrix (Fin rows) (Fin cols) K), (∀ i j, 0 ≤ cost i j ∧ cost i j ≤ 1) →
      (Ends (linearAssignment cost rows cols thresh) (Partitioned rows cols) ↔ rows = 0 ∨ 0 < cols)) ∧
    (∀ {cols : Nat} (cost : Matrix (Fin 0) (Fin cols) K) (costMatrixSize costMatrixSizeSize : Nat),
      Ends (linearAssignment cost costMatrixSize costMatrixSizeSize thresh)
        (Partitioned costMatrixSize costMatrixSizeSize)) ∧
    ∀ atracks btracks : List (STrack K),
      Ends (linearAssignmentRows (iouDistance atracks btracks) atracks.length btracks.length thresh)
        (Partitioned atracks.length btracks.length) := by
  refine ⟨?_, ?_, linearAssignment_empty, ?_⟩
  · intro rows cols cost some entries
    exact lapjvInternal_inverse cost some limit entries
  · intro rows cols cost entries
    constructor
    · intro ended
      by_contra bare
      obtain ⟨some, none⟩ := not_or.mp bare
      have without : cols = 0 := by omega
      subst without
      exact linearAssignment_narrow cost (by omega) limit ended
    · intro shape
      exact linearAssignment_wide cost shape limit entries
  · intro atracks btracks
    apply linearAssignmentRows_ends (iouDistance_solvable atracks btracks limit)
    exact iouDistance_shaped atracks btracks

theorem association_partitions_sample :
    Ends (lapjvInternal (costCExtended sampleCost (8 / 10))) (fun solution => solution.ret = 0) ∧
      Ends (linearAssignment sampleCost 3 2 (8 / 10)) (Partitioned 3 2) ∧
        Ends (linearAssignment (![] : Matrix (Fin 0) (Fin 0) ℚ) 3 2 (8 / 10)) (Partitioned 3 2) := by
  obtain ⟨solves, partitions, empty, _⟩ := association_partitions (K := ℚ) (8 / 10) (by norm_num)
  exact ⟨(solves sampleCost (by decide) sampleCost_bounds).imp fun _ solved => solved.1,
    (partitions sampleCost sampleCost_bounds).mpr (.inr (by decide)), empty ![] 3 2⟩

end exact

end Yolov5Rknn.BYTETracker
