import Yolov5Rknn.Proofs.MunkresPairs
import Yolov5Rknn.Logic.Folds
import Mathlib.Tactic.Linarith
import Mathlib.Tactic.Ring

/-! The numbers of the solver in exact arithmetic. Its matrix is the given one less a
price for each row and each column, stays non-negative and is zero at the marks; a
step that finds no zero makes one. So the loop ends, with an assignment of least cost. -/

namespace Yolov5Rknn.Munkres
open Program Assignment Folds

attribute [local instance] Arithmetic.ofField

section folds

variable {K : Type} [Field K] [LinearOrder K] {n rows cols : Nat}

theorem extend_eq (m : Matrix (Fin rows) (Fin cols) K) : extend m = padded m (mmax m) := by
  funext i j
  by_cases inside : i.val < rows ∧ j.val < cols
  · exact (dif_pos inside).trans (padded_inside m (mmax m) ⟨i, inside.1⟩ ⟨j, inside.2⟩).symm
  · exact (dif_neg inside).trans (padded_outside m (mmax m) inside).symm

theorem equals_iff {a b : K} : Equals a b ↔ a = b :=
  ⟨fun ⟨one, two⟩ => le_antisymm one two, fun same => ⟨same.le, same.ge⟩⟩

/-- The value `step5` moves by. -/
theorem smallest_least (board : Board K n) :
    smallest board ≤ 100000 ∧
      (∀ i j, board.rowMask i = false → board.colMask j = false → board.matrix i j ≠ 0 →
        smallest board ≤ board.matrix i j) ∧
      (smallest board = 100000 ∨ ∃ i j, board.rowMask i = false ∧ board.colMask j = false ∧
        board.matrix i j ≠ 0 ∧ smallest board = board.matrix i j) := by
  let counts (cell : Fin n × Fin n) : Prop :=
    (board.rowMask cell.1 = false ∧ board.colMask cell.2 = false) ∧ board.matrix cell.1 cell.2 ≠ 0
  have folded : smallest board = (cells n n).foldl
      (fun h cell => if counts cell ∧ board.matrix cell.1 cell.2 < h then board.matrix cell.1 cell.2 else h)
      100000 := by
    unfold smallest
    congr 1
    funext h cell
    obtain ⟨i, j⟩ := cell
    simp only [counts, equals_iff]
    by_cases row : board.rowMask i <;> by_cases col : board.colMask j <;> simp [row, col, and_comm]
  obtain ⟨bounded, below, reached⟩ :=
    foldl_least (fun cell : Fin n × Fin n => board.matrix cell.1 cell.2) counts (cells n n) 100000
  rw [← folded] at bounded below reached
  refine ⟨bounded, fun i j row col some => below (i, j) (mem_cells _) ⟨⟨row, col⟩, some⟩, ?_⟩
  rcases reached with same | ⟨cell, _, ⟨⟨row, col⟩, some⟩, same⟩
  · exact .inl same
  · exact .inr ⟨cell.1, cell.2, row, col, some, same⟩

/-- The constant the matrix is made square by is its greatest entry. -/
theorem mmax_greatest (m : Matrix (Fin rows) (Fin cols) K) (some : 0 < rows ∧ 0 < cols) :
    (∀ i j, m i j ≤ mmax m) ∧ ∃ i j, mmax m = m i j := by
  have entries : ∀ i j, m i j ∈ (cells rows cols).map fun cell => m cell.1 cell.2 :=
    fun i j => List.mem_map.mpr ⟨(i, j), mem_cells _, rfl⟩
  unfold mmax
  split
  · next empty =>
    have absurd := entries ⟨0, some.1⟩ ⟨0, some.2⟩
    rw [empty] at absurd
    cases absurd
  · next first rest listed =>
    obtain ⟨_, above, reached⟩ :=
      foldl_least (K := Kᵒᵈ) (fun value : K => value) (fun _ => True) (first :: rest) first
    have folded : (first :: rest).foldl (fun max value => if max < value then value else max) first =
        (first :: rest).foldl (fun max value => if True ∧ max < value then value else max) first := by
      simp only [true_and]
    rw [folded]
    refine ⟨fun i j => above _ (listed ▸ entries i j) trivial, ?_⟩
    have member : (first :: rest).foldl (fun max value => if True ∧ max < value then value else max) first ∈
        (cells rows cols).map fun cell => m cell.1 cell.2 := by
      rw [listed]
      rcases reached with same | ⟨value, inside, _, same⟩
      · have same : (first :: rest).foldl (fun max value => if True ∧ max < value then value else max) first =
          first := same
        rw [same]
        exact List.mem_cons_self
      · exact same ▸ inside
    obtain ⟨cell, _, same⟩ := List.mem_map.mp member
    exact ⟨cell.1, cell.2, same.symm⟩

/-- The loop of `minimize_along_direction` over a line stops early at a number that is not
positive. -/
theorem lineMin_fold (rest : List K) (first : K) :
    let min := rest.foldl (fun min value => if 0 < min then if min < value then min else value else min) first
    0 < min → min ≤ first ∧ ∀ value ∈ rest, min ≤ value := by
  induction rest generalizing first with
  | nil => exact fun _ => ⟨le_rfl, by simp⟩
  | cons value rest ih =>
    rw [List.foldl_cons]
    intro min positive
    have bounded : min ≤ if 0 < first then if first < value then first else value else first :=
      (ih _ positive).1
    have start : 0 < first := by
      by_contra stopped
      rw [if_neg stopped] at bounded
      exact stopped (positive.trans_le bounded)
    rw [if_pos start] at bounded
    have both : min ≤ first ∧ min ≤ value := by
      split at bounded
      · next less => exact ⟨bounded, bounded.trans less.le⟩
      · next less => exact ⟨bounded.trans (not_lt.mp less), bounded⟩
    refine ⟨both.1, fun other member => ?_⟩
    rcases List.mem_cons.mp member with rfl | later
    · exact both.2
    · exact (ih _ positive).2 other later

/-- A line is lowered by a number that is not above any of its entries. -/
theorem lineMin_le {line : List K} (positive : 0 < lineMin line) : ∀ value ∈ line, lineMin line ≤ value := by
  cases line with
  | nil => simp
  | cons first rest =>
    obtain ⟨bounded, below⟩ := lineMin_fold rest first positive
    intro value member
    rcases List.mem_cons.mp member with rfl | later
    · exact bounded
    · exact below value later

end folds

variable {K : Type} [Field K] [LinearOrder K] {n rows cols : Nat}

/-- The matrix is the given one less the prices of its row and its column. -/
structure Reduced (cost matrix : Matrix (Fin n) (Fin n) K) (u v : Fin n → K) : Prop where
  entry : ∀ i j, matrix i j = cost i j - u i - v j
  nonneg : ∀ i j, 0 ≤ matrix i j

/-- The numbers of the loop. -/
structure Priced (cost : Matrix (Fin n) (Fin n) K) (board : Board K n) (u v : Fin n → K) : Prop where
  reduced : Reduced cost board.matrix u v
  zero : ∀ {i j}, board.maskMatrix i j ≠ .normal → board.matrix i j = 0
  cols : ∀ j, 0 ≤ v j
  rows : ∀ i, (∃ j, board.maskMatrix i j = .star) ∨ 0 ≤ u i

theorem Priced.marks {cost : Matrix (Fin n) (Fin n) K} {board after : Board K n} {u v : Fin n → K}
    (priced : Priced cost board u v) (same : after.matrix = board.matrix)
    (marked : ∀ {i j}, after.maskMatrix i j ≠ .normal → board.matrix i j = 0)
    (kept : ∀ {i j}, board.maskMatrix i j = .star → ∃ other, after.maskMatrix i other = .star) :
    Priced cost after u v := by
  refine ⟨same ▸ priced.reduced, fun mark => ?_, priced.cols, fun i => ?_⟩
  · rw [same]
    exact marked mark
  · exact (priced.rows i).imp_left fun ⟨_, star⟩ => kept star

variable [IsStrictOrderedRing K]

theorem minimizeLine_eq (line : Fin n → K) : ∃ price, 0 ≤ price ∧
    (∀ position, minimizeLine line position = line position - price) ∧
    ((∀ position, 0 ≤ line position) → ∀ position, 0 ≤ minimizeLine line position) := by
  by_cases positive : 0 < lineMin (List.ofFn line)
  · have lowered (position : Fin n) : minimizeLine line position = line position - lineMin (List.ofFn line) := by
      simp only [minimizeLine, if_pos positive]
    refine ⟨lineMin (List.ofFn line), positive.le, lowered, fun _ position => ?_⟩
    rw [lowered]
    exact sub_nonneg.mpr (lineMin_le positive _ (List.mem_ofFn.mpr ⟨position, rfl⟩))
  · have same (position : Fin n) : minimizeLine line position = line position := by
      simp only [minimizeLine, if_neg positive]
    exact ⟨0, le_rfl, fun position => by rw [same, sub_zero], fun nonneg position => (same position) ▸ nonneg position⟩

/-- Both directions lower the matrix by prices that are not negative. -/
theorem minimize_reduced {cost matrix : Matrix (Fin n) (Fin n) K} {u v : Fin n → K} (reduced : Reduced cost matrix u v)
    (rowPrices : ∀ i, 0 ≤ u i) (colPrices : ∀ j, 0 ≤ v j) (overColumns : Bool) :
    ∃ u v, Reduced cost (minimizeAlongDirection matrix overColumns) u v ∧ (∀ i, 0 ≤ u i) ∧ ∀ j, 0 ≤ v j := by
  cases overColumns with
  | true =>
    choose price positive lowered nonneg using fun j => minimizeLine_eq fun i => matrix i j
    refine ⟨u, fun j => v j + price j, ⟨fun i j => ?_, fun i j => ?_⟩, rowPrices,
      fun j => add_nonneg (colPrices j) (positive j)⟩
    · change minimizeLine (fun other => matrix other j) i = _
      rw [lowered, reduced.entry]
      ring
    · exact nonneg j (fun i => reduced.nonneg i j) i
  | false =>
    choose price positive lowered nonneg using fun i => minimizeLine_eq (matrix i)
    refine ⟨fun i => u i + price i, v, ⟨fun i j => ?_, fun i j => ?_⟩,
      fun i => add_nonneg (rowPrices i) (positive i), colPrices⟩
    · change minimizeLine (matrix i) j = _
      rw [lowered, reduced.entry]
      ring
    · exact nonneg i (reduced.nonneg i) j

theorem start_priced (m : Matrix (Fin rows) (Fin cols) K) (nonneg : ∀ i j, 0 ≤ m i j) (some : 0 < rows ∧ 0 < cols) :
    ∃ u v, Priced (padded m (mmax m)) (start (fun _ => false) m) u v := by
  have finite : replaceInfinites (fun _ => false) (extend m) = padded m (mmax m) := by
    rw [← extend_eq]
    unfold replaceInfinites
    split
    · rfl
    · simp only [Bool.false_eq_true, if_false]
      rfl
  have greatest : 0 ≤ mmax m := by
    obtain ⟨k, l, same⟩ := (mmax_greatest m some).2
    exact same ▸ nonneg k l
  have entries (i j) : 0 ≤ padded m (mmax m) i j := padded_entry m (mmax m) (0 ≤ ·) i j nonneg greatest
  have initial : Reduced (padded m (mmax m)) (padded m (mmax m)) 0 0 :=
    ⟨fun i j => by simp, entries⟩
  obtain ⟨u, v, first, rowPrices, colPrices⟩ :=
    minimize_reduced initial (fun _ => le_rfl) (fun _ => le_rfl) (decide (cols ≤ rows))
  obtain ⟨u, v, second, rowPrices, colPrices⟩ :=
    minimize_reduced first rowPrices colPrices (decide (rows < cols))
  refine ⟨u, v, ?_, fun marked => absurd rfl marked, colPrices, fun i => .inr (rowPrices i)⟩
  change Reduced _ (minimizeAlongDirection (minimizeAlongDirection (replaceInfinites _ (extend m)) _) _) u v
  rw [finite]
  exact second

section step

variable {cost : Matrix (Fin n) (Fin n) K} {board : Board K n} {u v : Fin n → K} {rank : Fin n → Nat}

/-- The prices of a row without star and of any column are not negative, so the number
where two open ones meet is not above its cost, and so below the sentinel `step5` starts from. -/
theorem Priced.open_small (priced : Priced cost board u v) (covered : Covered board rank) (small : ∀ i j, cost i j < 100000) :
    ∃ i j, board.rowMask i = false ∧ board.colMask j = false ∧ board.matrix i j < 100000 := by
  obtain ⟨i, rowOpen, free⟩ := covered.free_row
  obtain ⟨j, colOpen, _⟩ := covered.free_col
  have rowPrice : 0 ≤ u i := (priced.rows i).resolve_left fun ⟨k, star⟩ => free k star
  have colPrice := priced.cols j
  refine ⟨i, j, rowOpen, colOpen, ?_⟩
  calc board.matrix i j = cost i j - u i - v j := priced.reduced.entry i j
    _ ≤ cost i j := by linarith
    _ < 100000 := small i j

/-- `step5` moves by the least number that is not covered. -/
theorem Priced.least_open (priced : Priced cost board u v) (covered : Covered board rank)
    (small : ∀ i j, cost i j < 100000) (dry : findUncovered 0 board = none) :
    0 < smallest board ∧
      (∀ i j, board.rowMask i = false → board.colMask j = false → smallest board ≤ board.matrix i j) ∧
      ∃ i j, board.rowMask i = false ∧ board.colMask j = false ∧ board.matrix i j = smallest board := by
  have nonzero (i j) (row : board.rowMask i = false) (col : board.colMask j = false) : board.matrix i j ≠ 0 :=
    fun zero => findUncovered_none dry row col (equals_iff.mpr zero)
  obtain ⟨bounded, below, reached⟩ := smallest_least board
  obtain ⟨k, l, rowOpen, colOpen, less⟩ := priced.open_small covered small
  rcases reached with same | ⟨i, j, row, col, some, same⟩
  · have := below k l rowOpen colOpen (nonzero k l rowOpen colOpen)
    rw [same] at this
    exact absurd less (not_lt.mpr this)
  · refine ⟨?_, fun i j row col => below i j row col (nonzero i j row col), i, j, row, col, same.symm⟩
    rw [same]
    exact lt_of_le_of_ne (priced.reduced.nonneg i j) (Ne.symm some)

theorem Priced.lowered (priced : Priced cost board u v) (covered : Covered board rank)
    (small : ∀ i j, cost i j < 100000) (dry : findUncovered 0 board = none) :
    (∃ u v, Priced cost (step5 board) u v) ∧ findUncovered 0 (step5 board) ≠ none := by
  obtain ⟨positive, below, k, l, row, col, same⟩ := priced.least_open covered small dry
  have moved (i j) : (step5 board).matrix i j =
      board.matrix i j + (if board.rowMask i then smallest board else 0) -
        (if board.colMask j then 0 else smallest board) := by
    change (if board.colMask j then if board.rowMask i then _ else _ else (if board.rowMask i then _ else _) - _) = _
    split <;> split <;> simp
  refine ⟨⟨fun i => u i - if board.rowMask i then smallest board else 0,
    fun j => v j + if board.colMask j then 0 else smallest board, ⟨fun i j => ?_, fun i j => ?_⟩, ?_, ?_, ?_⟩, ?_⟩
  · rw [moved, priced.reduced.entry]
    ring
  · have nonneg := priced.reduced.nonneg i j
    rw [moved]
    cases rowCovered : board.rowMask i with
    | true =>
      rw [if_pos rfl]
      split <;> linarith
    | false =>
      cases colCovered : board.colMask j with
      | true => simpa using nonneg
      | false =>
        have := below i j rowCovered colCovered
        simpa using this
  · -- a mark lies on one covered line, so its number stays
    intro i j marked
    have one : board.colMask j = true ↔ board.rowMask i = false := by
      cases mark : board.maskMatrix i j with
      | normal => exact absurd mark marked
      | star => exact covered.star mark
      | prime => simp [covered.prime mark]
    rw [moved, priced.zero marked]
    cases rowCovered : board.rowMask i <;> cases colCovered : board.colMask j <;> simp_all
  · intro j
    have := priced.cols j
    split <;> linarith
  · intro i
    cases rowCovered : board.rowMask i with
    | true => exact .inl (covered.row rowCovered).1
    | false => simpa [rowCovered] using! priced.rows i
  · intro missing
    refine findUncovered_none missing row col (equals_iff.mpr ?_)
    rw [moved, row, col, same]
    simp

end step

section loop

variable {cost : Matrix (Fin n) (Fin n) K} {board : Board K n} {rank : Fin n → Nat}

/-- How much work is left: stars to set, and for one star rows to cover and matrices to lower. -/
def weight : Phase n × Board K n → Nat
  | (.one, _) => (n + 1) * (3 * n + 6)
  | (.two, board) => (n - (stars board.maskMatrix).card) * (3 * n + 6) + (3 * n + 5)
  | (.three, board) => (n - (stars board.maskMatrix).card) * (3 * n + 6) + 3 * openRows board +
      if findUncovered 0 board = none then 3 else 1
  | (.four _ _, board) => (n - (stars board.maskMatrix).card) * (3 * n + 6)
  | (.five, board) => (n - (stars board.maskMatrix).card) * (3 * n + 6) + 3 * openRows board + 2

/-- What the loop knows besides the shape of its marks. -/
def Exact (cost : Matrix (Fin n) (Fin n) K) (state : Phase n × Board K n) : Prop :=
  (∃ u v, Priced cost state.2 u v) ∧
    match state.1 with
    | .four _ _ => (stars state.2.maskMatrix).card < n
    | .five => findUncovered 0 state.2 = none
    | _ => True

theorem round_exact (small : ∀ i j, cost i j < 100000) (state : Phase n × Board K n) (shaped : Shaped state)
    (exact : Exact cost state) :
    Ends (round state) (Turn.Meets (fun next => Exact cost next ∧ weight next < weight state)
      fun board => ∃ u v, Priced cost board u v) := by
  obtain ⟨phase, board⟩ := state
  obtain ⟨⟨u, v, priced⟩, extra⟩ := exact
  dsimp only at priced extra
  cases phase with
  | one =>
    have starring := step1_starring shaped
    have bare {i j} : board.maskMatrix i j ≠ .star := by simp [shaped.mask]
    refine .pure ⟨⟨⟨u, v, priced.marks starring.same.1 (fun {i j} mark => ?_) fun star => absurd star bare⟩, trivial⟩, ?_⟩
    · cases marked : (step1 board).maskMatrix i j with
      | normal => exact absurd marked mark
      | prime => exact absurd marked (starring.unprimed i j)
      | star =>
        rw [← starring.same.1]
        exact (equals_iff.mp (starring.zero marked)).symm
    · have fewer : n - (stars (step1 board).maskMatrix).card ≤ n := Nat.sub_le _ _
      have scaled := Nat.mul_le_mul_right (3 * n + 6) fewer
      simp only [weight, Nat.add_mul]
      omega
  | two =>
    have same : Priced cost (coverStars board) u v := priced.marks rfl (fun mark => priced.zero mark) fun star => ⟨_, star⟩
    apply Ends.pure
    split
    · exact ⟨u, v, same⟩
    · have rows := openRows_le (coverStars board)
      refine ⟨⟨⟨u, v, same⟩, trivial⟩, ?_⟩
      change _ + 3 * openRows (coverStars board) + _ < _ + (3 * n + 5)
      change (n - (stars board.maskMatrix).card) * (3 * n + 6) + 3 * openRows (coverStars board) + _ < _
      split <;> omega
  | three =>
    obtain ⟨rank, covered⟩ := shaped
    apply Ends.pure
    rcases step3_cases board with ⟨dry, same⟩ | ⟨row, col, found, next⟩
    · rw [same]
      refine ⟨⟨⟨u, v, priced⟩, dry⟩, ?_⟩
      simp only [weight, if_pos dry]
      omega
    · obtain ⟨openRow, openCol, zero⟩ := findUncovered_some found
      have marked {i j} (mark : (primed board (row, col)).maskMatrix i j ≠ .normal) : board.matrix i j = 0 := by
        by_cases new : i = row ∧ j = col
        · rw [new.1, new.2]
          exact equals_iff.mp zero
        · refine priced.zero fun old => mark ?_
          have different : (i, j) ≠ (row, col) := fun same => new (Prod.mk.inj same)
          change setMark _ _ _ i j = _
          rw [setMark_apply, if_neg different]
          exact old
      have kept {i j} (star : board.maskMatrix i j = .star) : ∃ other, (primed board (row, col)).maskMatrix i other = .star :=
        ⟨j, (covered.primed_star openRow openCol).mpr star⟩
      have count := congrArg Finset.card (covered.primed_stars openRow openCol)
      have missing := covered.missing
      have wet : findUncovered 0 board ≠ none := by simp [found]
      rcases next with ⟨_, same⟩ | ⟨ncol, _, same⟩
      · rw [same]
        refine ⟨⟨⟨u, v, priced.marks rfl marked kept⟩, count.trans_lt missing⟩, ?_⟩
        simp only [weight, if_neg wet, count]
        omega
      · rw [same]
        have fewer := openRows_shifted openRow col ncol
        have count : (stars (shifted board (row, col) ncol).maskMatrix).card = (stars board.maskMatrix).card := count
        refine ⟨⟨⟨u, v, priced.marks rfl marked kept⟩, trivial⟩, ?_⟩
        simp only [weight, if_neg wet, count]
        split <;> omega
  | four saverow savecol =>
    obtain ⟨rank, trail⟩ := shaped
    have missing : (stars board.maskMatrix).card < n := extra
    refine (step4_ends trail).bind fun after augmented => .pure ?_
    refine ⟨⟨⟨u, v, priced.marks augmented.matrix (fun {i j} mark => ?_) augmented.remains⟩, trivial⟩, ?_⟩
    · cases marked : after.maskMatrix i j with
      | normal => exact absurd marked mark
      | prime => exact absurd marked (augmented.settled.unprimed i j)
      | star => exact priced.zero (augmented.origin marked)
    · have fewer : n - (stars board.maskMatrix).card = n - (stars after.maskMatrix).card + 1 := by
        rw [augmented.card]
        omega
      simp only [weight, fewer, Nat.add_mul]
      omega
  | five =>
    obtain ⟨rank, covered⟩ := shaped
    obtain ⟨lowered, wet⟩ := priced.lowered covered small extra
    refine .pure ⟨⟨lowered, trivial⟩, ?_⟩
    simp only [weight, if_neg wet]
    change (n - (stars board.maskMatrix).card) * (3 * n + 6) + 3 * openRows board + 1 < _
    omega

/-- The loop ends with a star in every line, where the prices are exact. -/
theorem loop_ends (m : Matrix (Fin rows) (Fin cols) K) (some : 0 < rows ∧ 0 < cols)
    (entries : ∀ i j, 0 ≤ m i j ∧ m i j < 100000) :
    Ends (loop round (.one, start (fun _ => false) m)) fun board =>
      (∃ u v, Priced (padded m (mmax m)) board u v) ∧ Complete board := by
  have greatest : mmax m < 100000 := by
    obtain ⟨k, l, same⟩ := (mmax_greatest m some).2
    exact same ▸ (entries k l).2
  have small (i j) : padded m (mmax m) i j < 100000 :=
    padded_entry m (mmax m) (· < 100000) i j (fun k l => (entries k l).2) greatest
  refine Ends.loop (measure weight).wf (fun state => Shaped state ∧ Exact (padded m (mmax m)) state)
    (fun state held => ?_) ⟨start_blank _ m, start_priced m (fun i j => (entries i j).1) some, trivial⟩
  refine ((round_exact small state held.1 held.2).keep (round_shaped state held.1)).imp fun turn met => ?_
  exact (met.1.both met.2).imp (fun next both => ⟨⟨both.2, both.1.1⟩, both.1.2⟩) fun board => id

end loop

end Yolov5Rknn.Munkres

namespace Yolov5Rknn.HungarianOper
open Program Munkres Assignment

attribute [local instance] Arithmetic.ofField

variable {K : Type} [Field K] [LinearOrder K] [IsStrictOrderedRing K] {rows cols : Nat}

/-- In exact arithmetic the solver ends with a complete assignment of least cost. -/
theorem solve_minimal (costMatrix : Matrix (Fin rows) (Fin cols) K) (some : 0 < rows ∧ 0 < cols)
    (entries : ∀ i j, 0 ≤ costMatrix i j ∧ costMatrix i j < 100000) :
    Ends (solve (fun _ => false) costMatrix) (Minimal costMatrix) := by
  have numbers : replaceNaN costMatrix = costMatrix := by
    funext i j
    exact if_pos ⟨le_rfl, le_rfl⟩
  rw [solve_eq _ costMatrix some, numbers]
  refine (loop_ends costMatrix some entries).bind fun board ended => ?_
  obtain ⟨⟨u, v, priced⟩, complete⟩ := ended
  obtain ⟨places, stars⟩ := complete.places
  rw [starred_inner stars]
  have entry := priced.reduced.entry
  have feasible (i j) : u i + v j ≤ padded costMatrix (mmax costMatrix) i j := by
    have := priced.reduced.nonneg i j
    rw [entry] at this
    linarith
  have tight (i) : u i + v (places i) = padded costMatrix (mmax costMatrix) i (places i) := by
    have star := (stars i (places i)).mpr rfl
    have zero := priced.zero (by rw [star]; simp : board.maskMatrix i (places i) ≠ .normal)
    rw [entry] at zero
    linarith
  exact .pure (minimal_of_tight feasible tight)

end Yolov5Rknn.HungarianOper
