import Yolov5Rknn.Munkres
import Yolov5Rknn.Logic.Matching

/-! The solver of lapjv.cpp, and `BYTETracker::lapjv` and
`BYTETracker::linear_assignment` around it. A cell at the index of a loop is read as
it is; any other access may miss its array. `LARGE` is 1000000. -/

namespace Yolov5Rknn.Lapjv
open Program
open Munkres (Equals)

/-- The arrays the phases of a call share. -/
structure Solver (F : Type) (n : Nat) where
  freeRows : Fin n → Int
  x : Fin n → Int
  y : Fin n → Int
  v : Fin n → F

variable {F : Type} {n : Nat}

/-- `cost[i]`. -/
def rowOf (cost : Matrix (Fin n) (Fin n) F) (i : Int) : Prog (Fin n → F) := fetch (fun i j => cost i j) i

@[simp] theorem rowOf_inside (cost : Matrix (Fin n) (Fin n) F) (i : Fin n) :
    rowOf cost i.val = pure fun j => cost i j :=
  fetch_inside (fun i j => cost i j) i

variable [Arithmetic F]

section columns

variable (cost : Matrix (Fin n) (Fin n) F)

/-- The body of the loops that look for the least cost of every column. -/
def lowerColumn (i : Fin n) (solver : Solver F n) (j : Fin n) : Solver F n :=
  if cost i j < solver.v j then
    { solver with v := Function.update solver.v j (cost i j), y := Function.update solver.y j i }
  else solver

def columnMinima : Solver F n :=
  (List.finRange n).foldl (fun solver i => (List.finRange n).foldl (lowerColumn cost i) solver)
    ⟨fun _ => 0, fun _ => -1, fun _ => 0, fun _ => 1000000⟩

/-- The body of the `do` loop. -/
def claimColumn (state : Solver F n × (Fin n → Bool)) (j : Fin n) : Prog (Solver F n × (Fin n → Bool)) := do
  let (solver, unique) := state
  let i := solver.y j
  let taken ← fetch solver.x i
  if taken < 0 then
    let x ← store solver.x i j
    pure ({ solver with x }, unique)
  else
    let unique ← store unique i false
    pure ({ solver with y := Function.update solver.y j (-1) }, unique)

/-- `min` of the reduction transfer: the least reduced cost of a row outside column `j`. -/
def leastBeside (v : Fin n → F) (i : Fin n) (j : Int) : F :=
  (List.finRange n).foldl
    (fun min j2 => if (j2.val : Int) ≠ j ∧ cost i j2 - v j2 < min then cost i j2 - v j2 else min) 1000000

/-- The body of the last loop, with `n_free_rows`. -/
def transferRow (unique : Fin n → Bool) (state : Nat × Solver F n) (i : Fin n) : Prog (Nat × Solver F n) := do
  let (nFreeRows, solver) := state
  if solver.x i < 0 then
    let freeRows ← store solver.freeRows nFreeRows i
    pure (nFreeRows + 1, { solver with freeRows })
  else if unique i then
    let price ← fetch solver.v (solver.x i)
    let v ← store solver.v (solver.x i) (price - leastBeside cost solver.v i (solver.x i))
    pure (nFreeRows, { solver with v })
  else pure state

/-- `_ccrrt_dense`; the first round of its `do` loop reads `y[n - 1]`. -/
def ccrrtDense : Prog (Nat × Solver F n) := do
  if n = 0 then outOfRange
  else
    let (solver, unique) ← (List.finRange n).reverse.foldlM claimColumn (columnMinima cost, fun _ => true)
    (List.finRange n).foldlM (transferRow cost unique) (0, solver)

end columns

section rows

variable (cost : Matrix (Fin n) (Fin n) F)

/-- `j1`, `v1`, `j2` and `v2` of `_carr_dense`. -/
structure LeastTwo (F : Type) where
  j1 : Int
  v1 : F
  j2 : Int
  v2 : F

/-- The body of the loop over the columns. -/
def lowerTwo (reduced : Fin n → F) (least : LeastTwo F) (j : Fin n) : LeastTwo F :=
  if reduced j < least.v2 then
    if least.v1 ≤ reduced j then { least with j2 := j, v2 := reduced j }
    else ⟨j, reduced j, least.j1, least.v1⟩
  else least

/-- The columns with the least reduced costs in a row. -/
def leastTwo (v : Fin n → F) (freeI : Int) : Prog (LeastTwo F) := do
  let row ← rowOf cost freeI
  let first ← fetch (fun j => row j - v j) 0
  pure ((List.finRange n).tail.foldl (lowerTwo fun j => row j - v j) ⟨0, first, -1, 1000000⟩)

/-- The variables of the loop of `_carr_dense`. -/
structure Reduction (F : Type) (n : Nat) where
  current : Nat
  newFreeRows : Nat
  rrCnt : Nat
  solver : Solver F n

variable {cost}

/-- `free_rows[--current] = i0`, if there is a row `i0`. -/
def retry (i0 : Int) (state : Reduction F n) : Prog (Reduction F n) := do
  if 0 ≤ i0 then
    let freeRows ← store state.solver.freeRows (state.current - 1) i0
    pure { state with current := state.current - 1, solver := { state.solver with freeRows } }
  else pure state

/-- `free_rows[new_free_rows++] = i0`, if there is a row `i0`. -/
def postpone (i0 : Int) (state : Reduction F n) : Prog (Reduction F n) := do
  if 0 ≤ i0 then
    let freeRows ← store state.solver.freeRows state.newFreeRows i0
    pure { state with newFreeRows := state.newFreeRows + 1, solver := { state.solver with freeRows } }
  else pure state

/-- `x[free_i] = j1; y[j1] = free_i;`. -/
def assign (freeI j1 : Int) (state : Reduction F n) :
    Prog (Turn (Reduction F n) (Nat × Solver F n)) := do
  let x ← store state.solver.x freeI j1
  let y ← store state.solver.y j1 freeI
  pure (.again { state with solver := { state.solver with x, y } })

/-- What a round does with the columns it found; `rr_cnt` and `current * n` are of 32
bits. -/
def placeRow (freeI : Int) (least : LeastTwo F) (state : Reduction F n) :
    Prog (Turn (Reduction F n) (Nat × Solver F n)) := do
  let i0 ← fetch state.solver.y least.j1
  let price ← fetch state.solver.v least.j1
  let v1New := price - (least.v2 - least.v1)
  if state.rrCnt < state.current * n % 2 ^ 32 then
    if v1New < price then
      let v ← store state.solver.v least.j1 v1New
      let state ← retry i0 { state with solver := { state.solver with v } }
      assign freeI least.j1 state
    else if 0 ≤ i0 ∧ 0 ≤ least.j2 then
      let i0 ← fetch state.solver.y least.j2
      let state ← postpone i0 state
      assign freeI least.j2 state
    else
      let state ← postpone i0 state
      assign freeI least.j1 state
  else
    let state ← postpone i0 state
    assign freeI least.j1 state

variable (cost)

/-- One round of the loop. -/
def carrRound (nFreeRows : Nat) (state : Reduction F n) : Prog (Turn (Reduction F n) (Nat × Solver F n)) := do
  if state.current < nFreeRows then
    let freeI ← fetch state.solver.freeRows state.current
    let least ← leastTwo cost state.solver.v freeI
    placeRow freeI least { state with current := state.current + 1, rrCnt := (state.rrCnt + 1) % 2 ^ 32 }
  else pure (.done (state.newFreeRows, state.solver))

/-- `_carr_dense`. -/
def carrDense (nFreeRows : Nat) (solver : Solver F n) : Prog (Nat × Solver F n) :=
  loop (carrRound cost nFreeRows) ⟨0, 0, 0, solver⟩

end rows

section path

/-- `hi`, `mind` and `cols` in `_find_dense`. -/
structure Nearest (F : Type) (n : Nat) where
  hi : Nat
  mind : F
  cols : Fin n → Int

/-- `cols[k] = cols[hi]; cols[hi] = j;`. -/
def exchange (cols : Fin n → Int) (k hi : Nat) (j : Int) : Prog (Fin n → Int) := do
  let moved ← fetch cols hi
  let cols ← store cols k moved
  store cols hi j

/-- The body of the loop of `_find_dense`. -/
def findStep (d : Fin n → F) (lo : Nat) (nearest : Nearest F n) (k : Nat) : Prog (Nearest F n) := do
  let j ← fetch nearest.cols k
  let dist ← fetch d j
  if dist ≤ nearest.mind then
    if dist < nearest.mind then
      let cols ← exchange nearest.cols k lo j
      pure ⟨lo + 1, dist, cols⟩
    else
      let cols ← exchange nearest.cols k nearest.hi j
      pure ⟨nearest.hi + 1, nearest.mind, cols⟩
  else pure nearest

/-- `_find_dense`. -/
def findDense (lo : Nat) (d : Fin n → F) (cols : Fin n → Int) : Prog (Nearest F n) := do
  let first ← fetch cols lo
  let mind ← fetch d first
  (List.range' (lo + 1) (n - (lo + 1))).foldlM (findStep d lo) ⟨lo + 1, mind, cols⟩

/-- What `_scan_dense` and `find_path_dense` change. -/
structure Search (F : Type) (n : Nat) where
  lo : Nat
  hi : Nat
  d : Fin n → F
  cols : Fin n → Int
  pred : Fin n → Int

variable (cost : Matrix (Fin n) (Fin n) F) (y : Fin n → Int) (v : Fin n → F)

/-- `cost[i][j] - v[j]`. -/
def reduced (i j : Int) : Prog F := do
  let row ← rowOf cost i
  fetch (fun j => row j - v j) j

/-- The body of the inner loop of `_scan_dense`; the loop ends with the column returned. -/
def scanStep (i : Int) (h mind : F) (search : Search F n) (k : Nat) :
    Prog (Turn (Search F n) (Search F n × Int)) := do
  let j ← fetch search.cols k
  let c ← reduced cost v i j
  let dist ← fetch search.d j
  if c - h < dist then
    let d ← store search.d j (c - h)
    let pred ← store search.pred j i
    if Equals (c - h) mind then
      let owner ← fetch y j
      if owner < 0 then pure (.done ({ search with d, pred }, j))
      else
        let cols ← exchange search.cols k search.hi j
        pure (.again ⟨search.lo, search.hi + 1, d, cols, pred⟩)
    else pure (.again { search with d, pred })
  else pure (.again search)

/-- One round of the outer loop. A return from inside leaves `plo` and `phi`. -/
def scanRound (plo phi : Nat) (search : Search F n) : Prog (Turn (Search F n) (Search F n × Int)) := do
  if search.lo ≠ search.hi then
    let j ← fetch search.cols search.lo
    let search := { search with lo := search.lo + 1 }
    let i ← fetch y j
    let mind ← fetch search.d j
    let c ← reduced cost v i j
    let turn ← walk (scanStep cost y v i (c - mind) mind) (List.range' search.hi (n - search.hi)) search
    pure (turn.map id fun found => ({ found.1 with lo := plo, hi := phi }, found.2))
  else pure (.done (search, -1))

/-- `_scan_dense`. -/
def scanDense (search : Search F n) : Prog (Search F n × Int) :=
  loop (scanRound cost y v search.lo search.hi) search

/-- The variables of the loop of `find_path_dense`. -/
structure Path (F : Type) (n : Nat) where
  search : Search F n
  nReady : Nat
  finalJ : Int

/-- The last column from `lo` to `hi` that no row has, or `final_j` as it is. -/
def openColumn (search : Search F n) (finalJ : Int) : Prog Int :=
  (List.range' search.lo (search.hi - search.lo)).foldlM (fun finalJ (k : Nat) => do
    let j ← fetch search.cols k
    let i ← fetch y j
    pure (if i < 0 then j else finalJ)) finalJ

/-- What a round does first when `lo` has reached `hi`. -/
def nextLevel (path : Path F n) : Prog (Path F n) := do
  if path.search.lo = path.search.hi then
    let nearest ← findDense path.search.lo path.search.d path.search.cols
    let search := { path.search with hi := nearest.hi, cols := nearest.cols }
    let finalJ ← openColumn y search path.finalJ
    pure ⟨search, search.lo, finalJ⟩
  else pure path

def pathRound (path : Path F n) : Prog (Turn (Path F n) (Path F n)) := do
  if path.finalJ = -1 then
    let path ← nextLevel y path
    if path.finalJ = -1 then
      let (search, finalJ) ← scanDense cost y v path.search
      pure (.again { path with search, finalJ })
    else pure (.again path)
  else pure (.done path)

/-- The body of the last loop of `find_path_dense`. -/
def raisePrice (search : Search F n) (mind : F) (v : Fin n → F) (k : Nat) : Prog (Fin n → F) := do
  let j ← fetch search.cols k
  let price ← fetch v j
  let dist ← fetch search.d j
  store v j (price + (dist - mind))

/-- `find_path_dense`, with `v` and `pred` as it leaves them. -/
def findPathDense (startI : Int) : Prog (Int × (Fin n → F) × (Fin n → Int)) := do
  let row ← rowOf cost startI
  let path ← loop (pathRound cost y v) ⟨⟨0, 0, fun i => row i - v i, fun i => i, fun _ => startI⟩, 0, -1⟩
  let last ← fetch path.search.cols path.search.lo
  let mind ← fetch path.search.d last
  let v ← (List.range' 0 path.nReady).foldlM (raisePrice path.search mind) v
  pure (path.finalJ, v, path.search.pred)

end path

section augment

/-- The variables of the inner loop of `_ca_dense`. -/
structure Augment (n : Nat) where
  i : Int
  j : Int
  x : Fin n → Int
  y : Fin n → Int

def augmentRound (freeI : Int) (pred : Fin n → Int) (state : Augment n) : Prog (Turn (Augment n) (Augment n)) := do
  if state.i ≠ freeI then
    let i ← fetch pred state.j
    let y ← store state.y state.j i
    let j ← fetch state.x i
    let x ← store state.x i state.j
    pure (.again ⟨i, j, x, y⟩)
  else pure (.done state)

variable (cost : Matrix (Fin n) (Fin n) F)

/-- The body of the loop over the free rows. -/
def augmentRow (solver : Solver F n) (k : Nat) : Prog (Solver F n) := do
  let freeI ← fetch solver.freeRows k
  let (j, v, pred) ← findPathDense cost solver.y solver.v freeI
  let path ← loop (augmentRound freeI pred) ⟨-1, j, solver.x, solver.y⟩
  pure { solver with x := path.x, y := path.y, v }

/-- `_ca_dense`, which returns 0. -/
def caDense (nFreeRows : Nat) (solver : Solver F n) : Prog (Nat × Solver F n) := do
  let solver ← (List.range' 0 nFreeRows).foldlM (augmentRow cost) solver
  pure (0, solver)

/-- `ret`, `x` and `y`. -/
structure Solution (n : Nat) where
  ret : Int
  x : Fin n → Int
  y : Fin n → Int

/-- `lapjv_internal`. -/
def lapjvInternal : Prog (Solution n) := do
  let (ret, solver) ← ccrrtDense cost
  let (ret, solver) ← (List.range' 0 2).foldlM
    (fun (ret, solver) _ => if 0 < ret then carrDense cost ret solver else pure (ret, solver)) (ret, solver)
  let (ret, solver) ← if 0 < ret then caDense cost ret solver else pure (ret, solver)
  pure ⟨ret, solver.x, solver.y⟩

end augment

end Yolov5Rknn.Lapjv

namespace Yolov5Rknn.BYTETracker
open Program Matching

variable {F : Type} [Arithmetic F] {nRows nCols : Nat}

/-- What fills `cost_c_extended` at first. -/
def limitVal (cost : Matrix (Fin nRows) (Fin nCols) F) (costLimit : F) : F :=
  if costLimit < 9223372036854775807 then costLimit / 2
  else
    (Munkres.cells nRows nCols).foldl
      (fun costMax cell => if costMax < cost cell.1 cell.2 then cost cell.1 cell.2 else costMax) (0 - 1) + 1

def costCExtended (cost : Matrix (Fin nRows) (Fin nCols) F) (costLimit : F) :
    Matrix (Fin (nRows + nCols)) (Fin (nRows + nCols)) F :=
  .of fun i j =>
    if inRows : i.val < nRows then
      if inCols : j.val < nCols then cost ⟨i, inRows⟩ ⟨j, inCols⟩ else limitVal cost costLimit
    else if j.val < nCols then limitVal cost costLimit else 0

/-- `rowsol`, `colsol` and the value `lapjv` returns. -/
structure Lap (F : Type) (nRows nCols : Nat) where
  rowsol : Fin nRows → Int
  colsol : Fin nCols → Int
  opt : F

/-- `opt` where only some rows have a column. -/
def optOf (costPtr : Matrix (Fin (nRows + nCols)) (Fin (nRows + nCols)) F) (rowsol : Fin nRows → Int) : Prog F :=
  (List.finRange nRows).foldlM (fun opt i => do
    if 0 ≤ rowsol i then
      let c ← fetch (fun j => costPtr (i.castAdd nCols) j) (rowsol i)
      pure (opt + c)
    else pure opt) 0

/-- `lapjv` with `extend_cost` and `return_cost`; no result stands for `exit(1)`. Without
columns `n` is `n_rows`, and `rowsol` stays as `resize` made it. -/
def lapjv (cost : Matrix (Fin nRows) (Fin nCols) F) (costLimit : F) : Prog (Option (Lap F nRows nCols)) := do
  let costPtr := costCExtended cost costLimit
  let solution ← Lapjv.lapjvInternal costPtr
  if solution.ret ≠ 0 then pure none
  else if nRows + nCols ≠ nRows then
    let xC := fun i => if (nCols : Int) ≤ solution.x i then -1 else solution.x i
    let yC := fun j => if (nRows : Int) ≤ solution.y j then -1 else solution.y j
    let rowsol := fun i : Fin nRows => xC (i.castAdd nCols)
    let colsol := fun j : Fin nCols => yC (j.castLE (Nat.le_add_left nCols nRows))
    let opt ← optOf costPtr rowsol
    pure (some ⟨rowsol, colsol, opt⟩)
  else
    let rowsol := fun _ : Fin nRows => (0 : Int)
    let opt ← (List.finRange nRows).foldlM (fun opt i => do
      let c ← fetch (fun j => costPtr (i.castAdd nCols) j) (rowsol i)
      pure (opt + c)) 0
    pure (some ⟨rowsol, fun _ => 0, opt⟩)

/-- The loops of `linear_assignment` over `rowsol` and `colsol`. -/
def Lap.collect (lap : Lap F nRows nCols) : Assignment where
  matched := (List.finRange nRows).filterMap fun i =>
    if 0 ≤ lap.rowsol i then some (i.val, (lap.rowsol i).toNat) else none
  unmatchedRows := ((List.finRange nRows).filter fun i => !decide (0 ≤ lap.rowsol i)).map Fin.val
  unmatchedCols := ((List.finRange nCols).filter fun j => decide (lap.colsol j < 0)).map Fin.val

/-- `linear_assignment`; the sizes are read when the matrix has no rows. -/
def linearAssignment (costMatrix : Matrix (Fin nRows) (Fin nCols) F) (costMatrixSize costMatrixSizeSize : Nat)
    (thresh : F) : Prog (Option Assignment) := do
  if nRows = 0 then pure (some ⟨[], List.range costMatrixSize, List.range costMatrixSizeSize⟩)
  else
    let lap ← lapjv costMatrix thresh
    pure (lap.map Lap.collect)

end Yolov5Rknn.BYTETracker
