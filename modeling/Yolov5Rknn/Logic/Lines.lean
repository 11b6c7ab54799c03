import Mathlib.Data.List.Basic

/-! The lines of a text: the pieces that end in a newline, and what follows the last
newline unless it is empty. -/

namespace Yolov5Rknn.Lines

variable {α : Type} [DecidableEq α] (newline : α)

def lines : List α → List (List α)
  | [] => []
  | item :: rest =>
    if item = newline then [] :: lines rest
    else match lines rest with
      | [] => [[item]]
      | line :: others => (item :: line) :: others

/-- The first line and what follows it. -/
def firstLine (text : List α) : List α := text.takeWhile (· ≠ newline)

def afterLine (text : List α) : List α := text.drop ((firstLine newline text).length + 1)

variable {newline}

theorem firstLine_cons {item : α} (other : item ≠ newline) (rest : List α) :
    firstLine newline (item :: rest) = item :: firstLine newline rest :=
  List.takeWhile_cons_of_pos (decide_eq_true other)

theorem firstLine_newline (rest : List α) : firstLine newline (newline :: rest) = [] :=
  List.takeWhile_cons_of_neg (by simp)

theorem afterLine_cons {item : α} (other : item ≠ newline) (rest : List α) :
    afterLine newline (item :: rest) = afterLine newline rest := by
  rw [afterLine, firstLine_cons other]
  rfl

theorem afterLine_newline (rest : List α) : afterLine newline (newline :: rest) = rest := by
  rw [afterLine, firstLine_newline]
  rfl

theorem afterLine_shorter {text : List α} (some : text ≠ []) : (afterLine newline text).length < text.length := by
  have := List.length_pos_iff.mpr some
  rw [afterLine, List.length_drop]
  omega

/-- A text is read one line at a time. -/
theorem lines_next {text : List α} (some : text ≠ []) :
    lines newline text = firstLine newline text :: lines newline (afterLine newline text) := by
  induction text with
  | nil => exact absurd rfl some
  | cons item rest ih =>
    rw [lines]
    split
    · next same => rw [same, firstLine_newline, afterLine_newline]
    · next other =>
      rw [firstLine_cons other, afterLine_cons other]
      cases rest with
      | nil => rfl
      | cons next rest => rw [ih (List.cons_ne_nil next rest)]

end Yolov5Rknn.Lines
