import Yolov5Rknn.Logic.Arithmetic
import Yolov5Rknn.Logic.Program
import Mathlib.Data.List.FinRange
import Mathlib.Data.List.Dedup
import Mathlib.Data.List.Sort
import Mathlib.Data.Int.Order.Basic

/-! Postprocess.cc up to the records: the candidates that `process` pushes for the cells
of a head, their sort, and the `nms` of every class. -/

namespace Yolov5Rknn.PostProcess
open Program

/-- Four entries of `filterBoxes`. -/
structure Box (F : Type) where
  x : F
  y : F
  w : F
  h : F

/-- The entries of `filterBoxes`, `objProbs` and `classId` for one candidate. -/
structure Candidate (F : Type) where
  box : Box F
  prob : F
  classId : Int

variable {F : Type} [Arithmetic F] {n : Nat}

def objClassNum : Nat := 80

def propBoxSize : Nat := 5 + objClassNum

section process

variable (toInt : F → Int)

/-- `__clip`; `toInt` is the conversion to `int32_t`. -/
def clip (val min max : F) : Int := toInt (if val ≤ min then min else if max ≤ val then max else val)

def qntF32ToAffine (f32 : F) (zp : Int) (scale : F) : Int8 :=
  let dstVal := f32 / scale + (zp : F)
  .ofInt (clip toInt dstVal ((-128 : Int) : F) ((127 : Int) : F))

def deqntAffineToF32 (qnt : Int8) (zp : Int) (scale : F) : F := ((qnt.toInt : F) - (zp : F)) * scale

/-- `maxClassProbs` and `maxClassId` after the loop over the classes. -/
def maxClass (prob : Nat → Int8) : Int8 × Nat :=
  (List.range' 1 (objClassNum - 1)).foldl (fun best k => if best.1 < prob k then (prob k, k) else best) (prob 0, 0)

/-- Anchor, row and column of a cell. -/
structure Cell where
  a : Fin 3
  i : Nat
  j : Nat

/-- The cells in the order of the loops. -/
def cells (gridH gridW : Nat) : List Cell :=
  (List.finRange 3).flatMap fun a => (List.range gridH).flatMap fun i => (List.range gridW).map fun j => ⟨a, i, j⟩

/-- The int8 values of one head, with what its call of `process` is given about it. -/
structure Head (F : Type) where
  input : Nat → Int8
  anchor : List Int
  gridH : Nat
  gridW : Nat
  stride : Int
  zp : Int
  scale : F

def Head.gridLen (head : Head F) : Nat := head.gridH * head.gridW

def Head.boxConfidence (head : Head F) (cell : Cell) : Int8 :=
  head.input ((propBoxSize * cell.a + 4) * head.gridLen + cell.i * head.gridW + cell.j)

/-- `in_ptr[k * grid_len]`. -/
def Head.inPtr (head : Head F) (cell : Cell) (k : Nat) : Int8 :=
  head.input (propBoxSize * cell.a * head.gridLen + cell.i * head.gridW + cell.j + k * head.gridLen)

def Head.deqnt (head : Head F) (qnt : Int8) : F := deqntAffineToF32 qnt head.zp head.scale

/-- The box pushed for a cell. -/
def Head.box (head : Head F) (cell : Cell) : Box F :=
  let boxX := head.deqnt (head.inPtr cell 0) * 2 - 1 / 2
  let boxY := head.deqnt (head.inPtr cell 1) * 2 - 1 / 2
  let boxW := head.deqnt (head.inPtr cell 2) * 2
  let boxH := head.deqnt (head.inPtr cell 3) * 2
  let boxX := (boxX + (cell.j : F)) * (head.stride : F)
  let boxY := (boxY + (cell.i : F)) * (head.stride : F)
  let boxW := boxW * boxW * (head.anchor.getD (cell.a * 2) 0 : F)
  let boxH := boxH * boxH * (head.anchor.getD (cell.a * 2 + 1) 0 : F)
  ⟨boxX - boxW / 2, boxY - boxH / 2, boxW, boxH⟩

/-- `maxClassProbs` and `maxClassId` of a cell. -/
def Head.maxClass (head : Head F) (cell : Cell) : Int8 × Nat :=
  PostProcess.maxClass fun k => head.inPtr cell (5 + k)

/-- The candidate pushed for a cell. -/
def Head.candidate (head : Head F) (cell : Cell) : Candidate F where
  box := head.box cell
  prob := head.deqnt (head.maxClass cell).1 * head.deqnt (head.boxConfidence cell)
  classId := (head.maxClass cell).2

/-- The body of the loops. -/
def processCell (threshold : F) (head : Head F) (cell : Cell) : Option (Candidate F) :=
  let thresI8 := qntF32ToAffine toInt threshold head.zp head.scale
  if thresI8 ≤ head.boxConfidence cell then
    if thresI8 < (head.maxClass cell).1 then some (head.candidate cell) else none
  else none

def process (threshold : F) (head : Head F) : List (Candidate F) :=
  (cells head.gridH head.gridW).filterMap (processCell toInt threshold head)

end process

def calculateOverlap (xmin0 ymin0 xmax0 ymax0 xmin1 ymin1 xmax1 ymax1 : F) : F :=
  let fmax := fun a b : F => if a < b then b else a
  let fmin := fun a b : F => if b < a then b else a
  let w := fmax 0 (fmin xmax0 xmax1 - fmax xmin0 xmin1 + 1)
  let h := fmax 0 (fmin ymax0 ymax1 - fmax ymin0 ymin1 + 1)
  let i := w * h
  let u := (xmax0 - xmin0 + 1) * (ymax0 - ymin0 + 1) + (xmax1 - xmin1 + 1) * (ymax1 - ymin1 + 1) - i
  if u ≤ 0 then 0 else i / u

/-- The overlap of two entries of `outputLocations`. -/
def overlap (a b : Box F) : F :=
  calculateOverlap a.x a.y (a.x + a.w) (a.y + a.h) b.x b.y (b.x + b.w) (b.y + b.h)

/-- The two vectors `quick_sort_indice_inverse` works on. -/
structure Sorting (F : Type) (n : Nat) where
  input : Fin n → F
  indices : Fin n → Int

section sort

/-! The sort, which may access the positions of `window` only. -/

variable (window : Int → Prop) [DecidablePred window]

/-- The first inner loop: `high` moves down. -/
def scanDown (key : F) (input : Fin n → F) (low high : Int) : Prog Int :=
  loop (fun high =>
    if low < high then do
      let value ← checked window high (fetch input high)
      pure (if value ≤ key then .again (high - 1) else .done high)
    else pure (.done high)) high

/-- The second one: `low` moves up. -/
def scanUp (key : F) (input : Fin n → F) (low high : Int) : Prog Int :=
  loop (fun low =>
    if low < high then do
      let value ← checked window low (fetch input low)
      pure (if key ≤ value then .again (low + 1) else .done low)
    else pure (.done low)) low

/-- `input[to] = input[from]; indices[to] = indices[from];`. -/
def move (target source : Int) (sorting : Sorting F n) : Prog (Sorting F n) := do
  let value ← checked window source (fetch sorting.input source)
  let input ← checked window target (store sorting.input target value)
  let index ← checked window source (fetch sorting.indices source)
  let indices ← checked window target (store sorting.indices target index)
  pure ⟨input, indices⟩

/-- One round of the outer loop. -/
def partitionRound (key : F) (state : Int × Int × Sorting F n) :
    Prog (Turn (Int × Int × Sorting F n) (Int × Sorting F n)) :=
  let (low, high, sorting) := state
  if low < high then do
    let high ← scanDown window key sorting.input low high
    let sorting ← move window low high sorting
    let low ← scanUp window key sorting.input low high
    let sorting ← move window high low sorting
    pure (.again (low, high, sorting))
  else pure (.done (low, sorting))

/-- `quick_sort_indice_inverse` with a bound on the depth of its recursion. -/
def quickSort : Nat → Int → Int → Sorting F n → Prog (Sorting F n)
  | 0, _, _, _ => fun _ => .error .rounds
  | depth + 1, left, right, sorting =>
    if left < right then do
      let keyIndex ← checked window left (fetch sorting.indices left)
      let key ← checked window left (fetch sorting.input left)
      let (low, sorting) ← loop (partitionRound window key) (left, right, sorting)
      let input ← checked window low (store sorting.input low key)
      let indices ← checked window low (store sorting.indices low keyIndex)
      let sorting ← quickSort depth left (low - 1) ⟨input, indices⟩
      quickSort depth (low + 1) right sorting
    else pure sorting

end sort

/-- No access is checked. -/
def quickSortIndiceInverse (left right : Int) (sorting : Sorting F n) : Prog (Sorting F n) :=
  fun depth => quickSort (fun _ => True) depth left right sorting depth

/-- The body of the inner loop of `nms`. -/
def nmsAgainst (outputLocations : Fin n → Box F) (classIds : Fin n → Int) (filterId : Int) (threshold : F)
    (i : Fin n) (kept : Int) (order : Fin n → Int) (j : Fin n) : Prog (Fin n → Int) :=
  let m := order j
  if m = -1 ∨ classIds i ≠ filterId then pure order
  else do
    let box0 ← fetch outputLocations kept
    let box1 ← fetch outputLocations m
    pure (if threshold < overlap box0 box1 then Function.update order j (-1) else order)

/-- The body of its outer loop. -/
def nmsFrom (outputLocations : Fin n → Box F) (classIds : Fin n → Int) (filterId : Int) (threshold : F)
    (order : Fin n → Int) (i : Fin n) : Prog (Fin n → Int) :=
  if order i = -1 ∨ classIds i ≠ filterId then pure order
  else
    ((List.finRange n).filter fun j => decide (i < j)).foldlM
      (nmsAgainst outputLocations classIds filterId threshold i (order i)) order

def nms (outputLocations : Fin n → Box F) (classIds : Fin n → Int) (filterId : Int) (threshold : F)
    (order : Fin n → Int) : Prog (Fin n → Int) :=
  (List.finRange n).foldlM (nmsFrom outputLocations classIds filterId threshold) order

variable (candidates : Fin n → Candidate F)

/-- The sort `post_process` makes. -/
def sortCandidates : Prog (Sorting F n) :=
  quickSortIndiceInverse 0 (n - 1) ⟨fun i => (candidates i).prob, fun i => i⟩

/-- `class_set`: every class once, in ascending order. -/
def classSet : List Int := ((List.ofFn fun i => (candidates i).classId).dedup).insertionSort (· ≤ ·)

/-- The loop over `class_set`. -/
def suppress (nmsThreshold : F) (indexArray : Fin n → Int) : Prog (Fin n → Int) :=
  (classSet candidates).foldlM
    (fun order c => nms (fun i => (candidates i).box) (fun i => (candidates i).classId) c nmsThreshold order) indexArray

/-- `indexArray` where the records are read from it. -/
def surviving (nmsThreshold : F) : Prog (Fin n → Int) := do
  let sorted ← sortCandidates candidates
  suppress candidates nmsThreshold sorted.indices

end Yolov5Rknn.PostProcess
