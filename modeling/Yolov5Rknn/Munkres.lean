import Yolov5Rknn.Logic.Arithmetic
import Yolov5Rknn.Logic.Program
import Mathlib.LinearAlgebra.Matrix.Defs
import Mathlib.Data.List.FinRange
import Mathlib.Data.List.ProdSigma

/-! `Munkres` (munkres.h) on the matrices of matrix.h, and `HungarianOper::Solve`
(hungarianoper.cpp). -/

namespace Yolov5Rknn.Munkres
open Program

inductive Mark where
  | normal
  | star
  | prime
  deriving DecidableEq

/-- The members of a solver at work; `saverow` and `savecol` are in the phase that
reads them. -/
structure Board (F : Type) (n : Nat) where
  matrix : Matrix (Fin n) (Fin n) F
  maskMatrix : Matrix (Fin n) (Fin n) Mark
  rowMask : Fin n → Bool
  colMask : Fin n → Bool

/-- The value of `step`. -/
inductive Phase (n : Nat) where
  | one
  | two
  | three
  | four (saverow savecol : Fin n)
  | five

/-- All positions, row by row. -/
def cells (rows cols : Nat) : List (Fin rows × Fin cols) := List.finRange rows ×ˢ List.finRange cols

def setMark {n : Nat} (mask : Matrix (Fin n) (Fin n) Mark) (cell : Fin n × Fin n) (mark : Mark) :
    Matrix (Fin n) (Fin n) Mark :=
  .of fun row col => if (row, col) = cell then mark else mask row col

variable {F : Type} [Arithmetic F] {rows cols n : Nat}

/-- `a == b`, which no value that compares to nothing satisfies. -/
def Equals (a b : F) : Prop := a ≤ b ∧ b ≤ a

instance Equals.decidable (a b : F) : Decidable (Equals a b) := inferInstanceAs (Decidable (_ ∧ _))

/-- `mmax`. -/
def mmax (m : Matrix (Fin rows) (Fin cols) F) : F :=
  match (cells rows cols).map fun cell => m cell.1 cell.2 with
  | [] => 0
  | first :: rest => (first :: rest).foldl (fun max value => if max < value then value else max) first

/-- The square matrix: `resize` with the maximum where the sides differ. -/
def extend (m : Matrix (Fin rows) (Fin cols) F) :
    Matrix (Fin (max rows cols)) (Fin (max rows cols)) F :=
  .of fun row col =>
    if inside : row.val < rows ∧ col.val < cols then m ⟨row, inside.1⟩ ⟨col, inside.2⟩ else mmax m

/-- `replace_infinites`; `infinite` tells the values equal to infinity. -/
def replaceInfinites (infinite : F → Bool) (m : Matrix (Fin n) (Fin n) F) : Matrix (Fin n) (Fin n) F :=
  match (cells n n).map fun cell => m cell.1 cell.2 with
  | [] => m
  | first :: rest =>
    let max := (first :: rest).foldl
      (fun max value =>
        if infinite value then max else if infinite max then value else if value < max then max else value)
      first
    let max := if infinite max then 0 else max + 1
    .of fun row col => if infinite (m row col) then max else m row col

/-- `min` of `minimize_along_direction` for one line. -/
def lineMin : List F → F
  | [] => 0
  | first :: rest => rest.foldl (fun min value => if 0 < min then if min < value then min else value else min) first

/-- One round of the outer loop of `minimize_along_direction`. -/
def minimizeLine (line : Fin n → F) : Fin n → F :=
  let min := lineMin (List.ofFn line)
  if 0 < min then fun position => line position - min else line

def minimizeAlongDirection (m : Matrix (Fin n) (Fin n) F) (overColumns : Bool) : Matrix (Fin n) (Fin n) F :=
  if overColumns then .of fun row col => minimizeLine (fun other => m other col) row
  else .of fun row col => minimizeLine (m row) col

def findUncovered (item : F) (board : Board F n) : Option (Fin n × Fin n) :=
  (cells n n).find? fun (row, col) =>
    !board.rowMask row && !board.colMask col && decide (Equals (board.matrix row col) item)

/-- The star `step1` sets in one row. -/
def starRow (board : Board F n) (row : Fin n) : Board F n :=
  let free := (List.finRange n).find? fun col =>
    decide (Equals 0 (board.matrix row col)) &&
      (List.finRange n).all fun nrow => !(decide (nrow < row) && decide (board.maskMatrix nrow col = .star))
  match free with
  | none => board
  | some col => { board with maskMatrix := setMark board.maskMatrix (row, col) .star }

def step1 (board : Board F n) : Board F n := (List.finRange n).foldl starRow board

/-- `covercount`. -/
def covercount (board : Board F n) : Nat :=
  (cells n n).countP fun (row, col) => decide (board.maskMatrix row col = .star)

/-- The covers `step2` sets. -/
def coverStars (board : Board F n) : Board F n :=
  { board with
    colMask := fun col =>
      board.colMask col || (List.finRange n).any fun row => decide (board.maskMatrix row col = .star) }

def step3 (board : Board F n) : Phase n × Board F n :=
  match findUncovered 0 board with
  | none => (.five, board)
  | some (saverow, savecol) =>
    let board := { board with maskMatrix := setMark board.maskMatrix (saverow, savecol) .prime }
    match (List.finRange n).find? fun ncol => decide (board.maskMatrix saverow ncol = .star) with
    | none => (.four saverow savecol, board)
    | some ncol =>
      (.three, { board with
        rowMask := Function.update board.rowMask saverow true
        colMask := Function.update board.colMask ncol false })

/-- One round of the loop that fills `seq`; the second component is `col`. -/
def extendSeq (mask : Matrix (Fin n) (Fin n) Mark) :
    List (Fin n × Fin n) × Fin n → Turn (List (Fin n × Fin n) × Fin n) (List (Fin n × Fin n))
  | (seq, col) =>
    match (List.finRange n).find? fun row => decide (mask row col = .star) && decide ((row, col) ∉ seq) with
    | none => .done seq
    | some row =>
      let seq := seq ++ [(row, col)]
      match (List.finRange n).find? fun col => decide (mask row col = .prime) && decide ((row, col) ∉ seq) with
      | none => .done seq
      | some col => .again (seq ++ [(row, col)], col)

def toggle : Mark → Mark
  | .star => .normal
  | .prime => .star
  | .normal => .normal

/-- The loop over `seq`. -/
def augment (mask : Matrix (Fin n) (Fin n) Mark) (seq : List (Fin n × Fin n)) : Matrix (Fin n) (Fin n) Mark :=
  seq.foldl (fun mask cell => setMark mask cell (toggle (mask cell.1 cell.2))) mask

def erasePrimes (mask : Matrix (Fin n) (Fin n) Mark) : Matrix (Fin n) (Fin n) Mark :=
  .of fun row col => if mask row col = .prime then .normal else mask row col

def step4 (saverow savecol : Fin n) (board : Board F n) : Prog (Board F n) := do
  let seq ← loop (fun path => pure (extendSeq board.maskMatrix path)) ([(saverow, savecol)], savecol)
  pure { board with
    maskMatrix := erasePrimes (augment board.maskMatrix seq)
    rowMask := fun _ => false
    colMask := fun _ => false }

/-- `h` of `step5`. -/
def smallest (board : Board F n) : F :=
  (cells n n).foldl
    (fun h (row, col) =>
      if !board.rowMask row && !board.colMask col then
        if board.matrix row col < h ∧ ¬Equals (board.matrix row col) 0 then board.matrix row col else h
      else h)
    100000

def step5 (board : Board F n) : Board F n :=
  let h := smallest board
  { board with
    matrix := .of fun row col =>
      let raised := if board.rowMask row then board.matrix row col + h else board.matrix row col
      if board.colMask col then raised else raised - h }

/-- One round of the `while` loop of `solve`. -/
def round : Phase n × Board F n → Prog (Turn (Phase n × Board F n) (Board F n))
  | (.one, board) => pure (.again (.two, step1 board))
  | (.two, board) =>
    pure (if n ≤ covercount board then .done (coverStars board) else .again (.three, coverStars board))
  | (.three, board) => pure (.again (step3 board))
  | (.four saverow savecol, board) => do
    let board ← step4 saverow savecol board
    pure (.again (.two, board))
  | (.five, board) => pure (.again (.three, step5 board))

/-- The solver before its first step. -/
def start (infinite : F → Bool) (m : Matrix (Fin rows) (Fin cols) F) : Board F (max rows cols) :=
  let matrix := replaceInfinites infinite (extend m)
  let matrix := minimizeAlongDirection matrix (decide (cols ≤ rows))
  let matrix := minimizeAlongDirection matrix (decide (rows < cols))
  { matrix
    maskMatrix := .of fun _ _ => .normal
    rowMask := fun _ => false
    colMask := fun _ => false }

/-- `solve`: the matrix of zeros and minus ones it leaves in its argument. -/
def solve (infinite : F → Bool) (m : Matrix (Fin rows) (Fin cols) F) : Prog (Matrix (Fin rows) (Fin cols) Int) :=
  if rows = 0 ∨ cols = 0 then outOfRange
  else do
    let board ← loop round (.one, start infinite m)
    pure (.of fun row col =>
      if board.maskMatrix (row.castLE (le_max_left rows cols)) (col.castLE (le_max_right rows cols)) = .star
      then 0 else -1)

end Yolov5Rknn.Munkres

namespace Yolov5Rknn.HungarianOper
open Program Munkres

variable {F : Type} [Arithmetic F] {rows cols : Nat}

/-- The matrix handed to the solver. -/
def replaceNaN (costMatrix : Matrix (Fin rows) (Fin cols) F) : Matrix (Fin rows) (Fin cols) F :=
  .of fun row col => if Equals (costMatrix row col) (costMatrix row col) then costMatrix row col else 0

/-- `Solve`; a pair is read back from the row of the result it is written to. -/
def solve (infinite : F → Bool) (costMatrix : Matrix (Fin rows) (Fin cols) F) :
    Prog (List (Fin rows × Fin cols)) := do
  let matrix ← Munkres.solve infinite (replaceNaN costMatrix)
  pure ((cells rows cols).filter fun (row, col) => decide (matrix row col = 0))

end Yolov5Rknn.HungarianOper
