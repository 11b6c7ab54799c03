import Yolov5Rknn.Proofs.MunkresStars
import Mathlib.Data.Finset.Lattice.Fold
import Mathlib.Order.Lattice.Nat

/-! What each step of the solver leaves of its marks, whatever its numbers are, and
so the marks it ends with: a star in every row and in every column. -/

namespace Yolov5Rknn.Munkres
open Program

variable {F : Type} {n : Nat} {board : Board F n} {rank : Fin n → Nat}

/-- The board between `step2` and `step4`: one of a star's lines is covered, a covered
row holds a star and a prime and was covered after the rows of lower rank. -/
structure Covered (board : Board F n) (rank : Fin n → Nat) : Prop where
  matched : Matched board.maskMatrix
  star : ∀ {i j : Fin n}, board.maskMatrix i j = .star → (board.colMask j = true ↔ board.rowMask i = false)
  prime : ∀ {i j : Fin n}, board.maskMatrix i j = .prime → board.rowMask i = true ∧ board.colMask j = false
  single : ∀ {i j k : Fin n}, board.maskMatrix i j = .prime → board.maskMatrix i k = .prime → j = k
  lower : ∀ {i j k : Fin n}, board.maskMatrix i j = .prime → board.maskMatrix k j = .star → rank k < rank i
  row : ∀ {i : Fin n}, board.rowMask i = true →
    (∃ j, board.maskMatrix i j = .star) ∧ ∃ j, board.maskMatrix i j = .prime
  col : ∀ {j : Fin n}, board.colMask j = true → ∃ i, board.maskMatrix i j = .star
  missing : (stars board.maskMatrix).card < n

theorem stars_enough {mask : Matrix (Fin n) (Fin n) Mark} {cell : Fin n → Fin n × Fin n}
    (injective : Function.Injective cell) (star : ∀ line, mask (cell line).1 (cell line).2 = .star) :
    n ≤ (stars mask).card := by
  calc n = (Finset.univ.image cell).card := by
        rw [Finset.card_image_of_injective _ injective, Finset.card_univ, Fintype.card_fin]
    _ ≤ (stars mask).card := by
        refine Finset.card_le_card fun cell member => ?_
        obtain ⟨line, _, rfl⟩ := Finset.mem_image.mp member
        exact Finset.mem_filter.mpr ⟨Finset.mem_univ _, star line⟩

/-- A row and a column without star; neither is covered. -/
theorem Covered.free_row (covered : Covered board rank) :
    ∃ i, board.rowMask i = false ∧ ∀ j, board.maskMatrix i j ≠ .star := by
  by_contra full
  have starred (i : Fin n) : ∃ j, board.maskMatrix i j = .star := by
    by_contra free
    push Not at free
    refine full ⟨i, Bool.eq_false_of_not_eq_true fun closed => ?_, free⟩
    obtain ⟨⟨j, star⟩, _⟩ := covered.row closed
    exact free j star
  choose place star using starred
  have injective : Function.Injective fun i => (i, place i) := fun _ _ same => congrArg Prod.fst same
  exact absurd covered.missing (Nat.not_lt.mpr (stars_enough injective star))

theorem Covered.free_col (covered : Covered board rank) :
    ∃ j, board.colMask j = false ∧ ∀ i, board.maskMatrix i j ≠ .star := by
  by_contra full
  have starred (j : Fin n) : ∃ i, board.maskMatrix i j = .star := by
    by_contra free
    push Not at free
    refine full ⟨j, Bool.eq_false_of_not_eq_true fun closed => ?_, free⟩
    obtain ⟨i, star⟩ := covered.col closed
    exact free i star
  choose place star using starred
  have injective : Function.Injective fun j => (place j, j) := fun _ _ same => congrArg Prod.snd same
  exact absurd covered.missing (Nat.not_lt.mpr (stars_enough injective star))

theorem coverStars_covered (settled : Settled board) (missing : (stars board.maskMatrix).card < n) :
    Covered (coverStars board) fun _ => 0 where
  matched := settled.matched
  star {i j} star := by simpa [coverStars, settled.rows, settled.cols] using ⟨i, star⟩
  prime primed := absurd primed (settled.unprimed _ _)
  single primed := absurd primed (settled.unprimed _ _)
  lower primed := absurd primed (settled.unprimed _ _)
  row covered := by simp [coverStars, settled.rows] at covered
  col covered := by simpa [coverStars, settled.cols] using covered
  missing := missing

/-- The board after `step3` has primed a position. -/
def primed (board : Board F n) (cell : Fin n × Fin n) : Board F n :=
  { board with maskMatrix := setMark board.maskMatrix cell .prime }

/-- A rank above all others for the row of the new prime. -/
def raise (rank : Fin n → Nat) (row : Fin n) : Fin n → Nat :=
  Function.update rank row (Finset.univ.sup rank + 1)

theorem raise_self (row : Fin n) : raise rank row row = Finset.univ.sup rank + 1 := Function.update_self ..

theorem raise_other {row other : Fin n} (different : other ≠ row) : raise rank row other = rank other :=
  Function.update_of_ne different ..

theorem rank_lt_raise (row other : Fin n) (different : other ≠ row) :
    raise rank row other < raise rank row row := by
  rw [raise_self, raise_other different]
  exact Nat.lt_succ_of_le (Finset.le_sup (Finset.mem_univ other))

section priming

variable {row col : Fin n}

theorem Covered.unstarred (covered : Covered board rank) (openRow : board.rowMask row = false)
    (openCol : board.colMask col = false) : board.maskMatrix row col ≠ .star := by
  intro star
  have := (covered.star star).mpr openRow
  rw [openCol] at this
  cases this

theorem Covered.primed_star (covered : Covered board rank) (openRow : board.rowMask row = false)
    (openCol : board.colMask col = false) {i j : Fin n} :
    (primed board (row, col)).maskMatrix i j = .star ↔ board.maskMatrix i j = .star := by
  change setMark _ _ _ i j = _ ↔ _
  rw [setMark_apply]
  by_cases same : (i, j) = (row, col)
  · obtain ⟨rfl, rfl⟩ := Prod.mk.inj same
    simp [covered.unstarred openRow openCol]
  · simp [same]

theorem primed_prime {i j : Fin n} :
    (primed board (row, col)).maskMatrix i j = .prime ↔
      (i = row ∧ j = col) ∨ board.maskMatrix i j = .prime := by
  change setMark _ _ _ i j = _ ↔ _
  rw [setMark_apply]
  by_cases same : (i, j) = (row, col)
  · obtain ⟨rfl, rfl⟩ := Prod.mk.inj same
    simp
  · have different : ¬(i = row ∧ j = col) := fun ⟨one, two⟩ => same (by rw [one, two])
    simp [same, different]

theorem Covered.primed_stars (covered : Covered board rank) (openRow : board.rowMask row = false)
    (openCol : board.colMask col = false) :
    stars (primed board (row, col)).maskMatrix = stars board.maskMatrix := by
  ext cell
  simp only [stars, Finset.mem_filter, Finset.mem_univ, true_and]
  exact covered.primed_star openRow openCol

theorem Covered.primed_matched (covered : Covered board rank) (openRow : board.rowMask row = false)
    (openCol : board.colMask col = false) : Matched (primed board (row, col)).maskMatrix where
  row one two :=
    covered.matched.row ((covered.primed_star openRow openCol).mp one)
      ((covered.primed_star openRow openCol).mp two)
  col one two :=
    covered.matched.col ((covered.primed_star openRow openCol).mp one)
      ((covered.primed_star openRow openCol).mp two)

theorem Covered.primed_single (covered : Covered board rank) (openRow : board.rowMask row = false)
    {i j k : Fin n} (one : (primed board (row, col)).maskMatrix i j = .prime)
    (two : (primed board (row, col)).maskMatrix i k = .prime) : j = k := by
  have closed {j : Fin n} (old : board.maskMatrix row j = .prime) : False := by
    have := (covered.prime old).1
    rw [openRow] at this
    cases this
  obtain ⟨rfl, rfl⟩ | old := primed_prime.mp one
  · obtain ⟨_, rfl⟩ | old := primed_prime.mp two
    · rfl
    · exact (closed old).elim
  · obtain ⟨rfl, rfl⟩ | again := primed_prime.mp two
    · exact (closed old).elim
    · exact covered.single old again

/-- A star in the column of a prime lies in a row covered before. -/
theorem Covered.primed_below (covered : Covered board rank) (openRow : board.rowMask row = false)
    (openCol : board.colMask col = false) {i j k : Fin n}
    (one : (primed board (row, col)).maskMatrix i j = .prime)
    (two : (primed board (row, col)).maskMatrix k j = .star) :
    board.rowMask k = true ∧ raise rank row k < raise rank row i := by
  have star := (covered.primed_star openRow openCol).mp two
  have openLine : board.colMask j = false := by
    obtain ⟨_, rfl⟩ | old := primed_prime.mp one
    · exact openCol
    · exact (covered.prime old).2
  have rowCovered : board.rowMask k = true := by
    have known := covered.star star
    rw [openLine] at known
    simpa using known
  have different : k ≠ row := by
    rintro rfl
    rw [openRow] at rowCovered
    cases rowCovered
  refine ⟨rowCovered, ?_⟩
  obtain ⟨rfl, rfl⟩ | old := primed_prime.mp one
  · exact rank_lt_raise i k different
  · have other : i ≠ row := by
      rintro rfl
      have := (covered.prime old).1
      rw [openRow] at this
      cases this
    rw [raise_other different, raise_other other]
    exact covered.lower old star

/-- The prime that starts a trail. -/
theorem Covered.trail (covered : Covered board rank) (openRow : board.rowMask row = false)
    (openCol : board.colMask col = false)
    (free : ∀ j, (primed board (row, col)).maskMatrix row j ≠ .star) :
    Trail (primed board (row, col)).maskMatrix (row, col) (raise rank row) where
  matched := covered.primed_matched openRow openCol
  primed := primed_prime.mpr (.inl ⟨rfl, rfl⟩)
  free := free
  single := covered.primed_single openRow
  lower one two := (covered.primed_below openRow openCol one two).2
  onward one two := by
    obtain ⟨_, l, old⟩ := covered.row (covered.primed_below openRow openCol one two).1
    exact ⟨l, primed_prime.mpr (.inr old)⟩

/-- The board after `step3` has covered the row of its prime in place of the column of
the row's star. -/
def shifted (board : Board F n) (cell : Fin n × Fin n) (ncol : Fin n) : Board F n :=
  { primed board cell with
    rowMask := Function.update board.rowMask cell.1 true
    colMask := Function.update board.colMask ncol false }

theorem Covered.shift (covered : Covered board rank) (openRow : board.rowMask row = false)
    (openCol : board.colMask col = false) {ncol : Fin n}
    (starred : (primed board (row, col)).maskMatrix row ncol = .star) :
    Covered (shifted board (row, col) ncol) (raise rank row) where
  matched := covered.primed_matched openRow openCol
  star {i j} star := by
    have old := (covered.primed_star openRow openCol).mp star
    have known := covered.star old
    by_cases same : i = row
    · subst same
      obtain rfl := covered.matched.row ((covered.primed_star openRow openCol).mp starred) old
      simp [shifted]
    · have other : j ≠ ncol := by
        rintro rfl
        exact same (covered.matched.col old ((covered.primed_star openRow openCol).mp starred))
      simpa [shifted, same, other] using known
  prime {i j} prime := by
    obtain ⟨rfl, rfl⟩ | old := primed_prime.mp prime
    · simp [shifted, Function.update_apply, openCol]
    · have known := covered.prime old
      simp [shifted, Function.update_apply, known]
  single := covered.primed_single openRow
  lower one two := (covered.primed_below openRow openCol one two).2
  row {i} rowCovered := by
    by_cases same : i = row
    · subst same
      exact ⟨⟨ncol, starred⟩, col, primed_prime.mpr (.inl ⟨rfl, rfl⟩)⟩
    · have before : board.rowMask i = true := by simpa [shifted, same] using rowCovered
      obtain ⟨⟨j, star⟩, k, prime⟩ := covered.row before
      exact ⟨⟨j, (covered.primed_star openRow openCol).mpr star⟩, k, primed_prime.mpr (.inr prime)⟩
  col {j} colCovered := by
    have before : board.colMask j = true := by
      by_cases same : j = ncol
      · simp [shifted, same] at colCovered
      · simpa [shifted, same] using colCovered
    obtain ⟨i, star⟩ := covered.col before
    exact ⟨i, (covered.primed_star openRow openCol).mpr star⟩
  missing := by
    have same := covered.primed_stars openRow openCol
    change (stars (primed board (row, col)).maskMatrix).card < n
    rw [same]
    exact covered.missing

def openRows (board : Board F n) : Nat := (Finset.univ.filter fun line => board.rowMask line = false).card

theorem openRows_le (board : Board F n) : openRows board ≤ n := by
  have := Finset.card_le_univ (Finset.univ.filter fun line => board.rowMask line = false)
  rwa [Fintype.card_fin] at this

theorem openRows_shifted (openRow : board.rowMask row = false) (col ncol : Fin n) :
    openRows (shifted board (row, col) ncol) + 1 = openRows board := by
  have masked (line : Fin n) :
      (shifted board (row, col) ncol).rowMask line = false ↔ line ≠ row ∧ board.rowMask line = false := by
    by_cases same : line = row
    · simp [shifted, same]
    · simp [shifted, same]
  have split : (Finset.univ.filter fun line => board.rowMask line = false) =
      insert row (Finset.univ.filter fun line => (shifted board (row, col) ncol).rowMask line = false) := by
    ext line
    rw [Finset.mem_insert, Finset.mem_filter, Finset.mem_filter, masked]
    by_cases same : line = row
    · simp [same, openRow]
    · simp [same]
  have fresh : row ∉ Finset.univ.filter fun line => (shifted board (row, col) ncol).rowMask line = false := by
    rw [Finset.mem_filter, masked]
    simp
  rw [openRows, openRows, split, Finset.card_insert_of_notMem fresh]

end priming

variable [Arithmetic F]

theorem findUncovered_some {item : F} {row col : Fin n} (found : findUncovered item board = some (row, col)) :
    board.rowMask row = false ∧ board.colMask col = false ∧ Equals (board.matrix row col) item := by
  have picked := List.find?_some found
  simpa [and_assoc] using picked

theorem findUncovered_none {item : F} (found : findUncovered item board = none) {row col : Fin n}
    (openRow : board.rowMask row = false) (openCol : board.colMask col = false) :
    ¬Equals (board.matrix row col) item := by
  have missing := List.find?_eq_none.mp found (row, col) (mem_cells _)
  simpa [openRow, openCol] using missing

/-- Everything `step3` can do. -/
theorem step3_cases (board : Board F n) :
    (findUncovered 0 board = none ∧ step3 board = (.five, board)) ∨
      ∃ row col, findUncovered 0 board = some (row, col) ∧
        ((∀ j, (primed board (row, col)).maskMatrix row j ≠ .star) ∧
            step3 board = (.four row col, primed board (row, col)) ∨
          ∃ ncol, (primed board (row, col)).maskMatrix row ncol = .star ∧
            step3 board = (.three, shifted board (row, col) ncol)) := by
  cases found : findUncovered 0 board with
  | none => exact .inl ⟨rfl, by simp only [step3, found]⟩
  | some cell =>
    obtain ⟨row, col⟩ := cell
    refine .inr ⟨row, col, rfl, ?_⟩
    simp only [step3, found]
    split
    · next missing =>
      refine .inl ⟨fun j => ?_, rfl⟩
      simpa [primed] using List.find?_eq_none.mp missing j (List.mem_finRange j)
    · next ncol picked =>
      refine .inr ⟨ncol, ?_, rfl⟩
      simpa [primed] using List.find?_some picked

section stepOne

/-- While `step1` runs, stars are only in rows it has been to. -/
structure Starring (board : Board F n) (started : Board F n) (visited : List (Fin n)) : Prop where
  matched : Matched board.maskMatrix
  unprimed : ∀ row col, board.maskMatrix row col ≠ .prime
  visited : ∀ {row col}, board.maskMatrix row col = .star → row ∈ visited
  zero : ∀ {row col}, board.maskMatrix row col = .star → Equals 0 (board.matrix row col)
  same : board.matrix = started.matrix ∧ board.rowMask = started.rowMask ∧ board.colMask = started.colMask

theorem Starring.starRow {started : Board F n} {visited : List (Fin n)} {row : Fin n}
    (starring : Starring board started visited) (later : ∀ other ∈ visited, other < row) :
    Starring (starRow board row) started (visited ++ [row]) := by
  cases found : (List.finRange n).find? fun col =>
      decide (Equals 0 (board.matrix row col)) &&
        (List.finRange n).all fun nrow => !(decide (nrow < row) && decide (board.maskMatrix nrow col = .star)) with
  | none =>
    simp only [Munkres.starRow, found]
    exact ⟨starring.matched, starring.unprimed, fun star => List.mem_append_left _ (starring.visited star),
      starring.zero, starring.same⟩
  | some col =>
    simp only [Munkres.starRow, found]
    have picked := List.find?_some found
    simp only [Bool.and_eq_true, decide_eq_true_eq, List.all_eq_true, List.mem_finRange, forall_const] at picked
    obtain ⟨zero, above⟩ := picked
    have free (other : Fin n) : board.maskMatrix other col ≠ .star := by
      intro star
      have := above other
      simp [later other (starring.visited star), star] at this
    have empty (other : Fin n) : board.maskMatrix row other ≠ .star :=
      fun star => absurd (later row (starring.visited star)) (lt_irrefl row)
    have cases_star {i j : Fin n} (star : setMark board.maskMatrix (row, col) .star i j = .star) :
        (i = row ∧ j = col) ∨ board.maskMatrix i j = .star := by
      rw [setMark_apply] at star
      split at star
      · next same => exact .inl (Prod.mk.inj same)
      · exact .inr star
    constructor
    · constructor
      · intro i j k one two
        obtain ⟨rfl, rfl⟩ | old := cases_star one
        · obtain ⟨_, rfl⟩ | old := cases_star two
          · rfl
          · exact absurd old (empty k)
        · obtain ⟨rfl, rfl⟩ | again := cases_star two
          · exact absurd old (empty j)
          · exact starring.matched.row old again
      · intro i j k one two
        obtain ⟨rfl, rfl⟩ | old := cases_star one
        · obtain ⟨rfl, _⟩ | old := cases_star two
          · rfl
          · exact absurd old (free j)
        · obtain ⟨rfl, rfl⟩ | again := cases_star two
          · exact absurd old (free i)
          · exact starring.matched.col old again
    · intro i j prime
      change setMark _ _ _ i j = _ at prime
      rw [setMark_apply] at prime
      split at prime
      · cases prime
      · exact starring.unprimed i j prime
    · intro i j star
      obtain ⟨rfl, rfl⟩ | old := cases_star star
      · simp
      · exact List.mem_append_left _ (starring.visited old)
    · intro i j star
      obtain ⟨rfl, rfl⟩ | old := cases_star star
      · exact zero
      · exact starring.zero old
    · exact starring.same

theorem starRows {started : Board F n} {visited rest : List (Fin n)} (all : visited ++ rest = List.finRange n)
    (starring : Starring board started visited) :
    Starring (rest.foldl starRow board) started (List.finRange n) := by
  induction rest generalizing board visited with
  | nil =>
    rw [List.append_nil] at all
    exact all ▸ starring
  | cons row rest ih =>
    have later : ∀ other ∈ visited, other < row := by
      have ordered := List.pairwise_lt_finRange n
      rw [← all] at ordered
      exact fun other member => (List.pairwise_append.mp ordered).2.2 other member row List.mem_cons_self
    exact ih (by simpa using all) (starring.starRow later)

/-- The board `solve` starts from has no marks. -/
structure Blank (board : Board F n) : Prop where
  mask : ∀ row col, board.maskMatrix row col = .normal
  rows : ∀ row, board.rowMask row = false
  cols : ∀ col, board.colMask col = false

theorem step1_starring (blank : Blank board) : Starring (step1 board) board (List.finRange n) := by
  have bare (row col : Fin n) : board.maskMatrix row col ≠ .star := by simp [blank.mask]
  refine starRows (List.nil_append (List.finRange n)) ⟨⟨?_, ?_⟩, ?_, ?_, ?_, rfl, rfl, rfl⟩
  · exact fun one => absurd one (bare _ _)
  · exact fun one => absurd one (bare _ _)
  · simp [blank.mask]
  · exact fun star => absurd star (bare _ _)
  · exact fun star => absurd star (bare _ _)

theorem step1_settled (blank : Blank board) : Settled (step1 board) := by
  have starring := step1_starring blank
  refine ⟨starring.matched, starring.unprimed, ?_, ?_⟩
  · rw [starring.same.2.1]
    exact blank.rows
  · rw [starring.same.2.2]
    exact blank.cols

end stepOne

/-- The invariant of the loop. -/
def Shaped : Phase n × Board F n → Prop
  | (.one, board) => Blank board
  | (.two, board) => Settled board
  | (.three, board) | (.five, board) => ∃ rank, Covered board rank
  | (.four saverow savecol, board) => ∃ rank, Trail board.maskMatrix (saverow, savecol) rank

/-- The stars it leaves. -/
def Complete (board : Board F n) : Prop :=
  Matched board.maskMatrix ∧ n ≤ (stars board.maskMatrix).card

theorem step5_covered (covered : Covered board rank) : Covered (step5 board) rank :=
  ⟨covered.matched, covered.star, covered.prime, covered.single, covered.lower, covered.row, covered.col,
    covered.missing⟩

theorem round_shaped (state : Phase n × Board F n) (shaped : Shaped state) :
    Keeps (round state) (Turn.Meets Shaped Complete) := by
  obtain ⟨phase, board⟩ := state
  cases phase with
  | one => exact .pure (step1_settled shaped)
  | two =>
    apply Keeps.pure
    rw [covercount_eq]
    split
    · next enough => exact ⟨shaped.matched, enough⟩
    · next missing => exact ⟨_, coverStars_covered shaped (Nat.lt_of_not_le missing)⟩
  | three =>
    obtain ⟨rank, covered⟩ := shaped
    apply Keeps.pure
    obtain ⟨_, same⟩ | ⟨row, col, found, ⟨free, same⟩ | ⟨ncol, star, same⟩⟩ := step3_cases board
    · rw [same]
      exact ⟨rank, covered⟩
    · obtain ⟨openRow, openCol, _⟩ := findUncovered_some found
      rw [same]
      exact ⟨_, covered.trail openRow openCol free⟩
    · obtain ⟨openRow, openCol, _⟩ := findUncovered_some found
      rw [same]
      exact ⟨_, covered.shift openRow openCol star⟩
  | four saverow savecol =>
    obtain ⟨rank, trail⟩ := shaped
    exact (step4_keeps trail).bind fun after augmented => .pure augmented.settled
  | five =>
    obtain ⟨rank, covered⟩ := shaped
    exact .pure ⟨rank, step5_covered covered⟩

theorem start_blank {rows cols : Nat} (infinite : F → Bool) (m : Matrix (Fin rows) (Fin cols) F) :
    Blank (start infinite m) := ⟨fun _ _ => rfl, fun _ => rfl, fun _ => rfl⟩

theorem loop_complete {rows cols : Nat} (infinite : F → Bool) (m : Matrix (Fin rows) (Fin cols) F) :
    Keeps (loop round (.one, start infinite m)) Complete :=
  Keeps.loop Shaped round_shaped (start_blank infinite m)

end Yolov5Rknn.Munkres
