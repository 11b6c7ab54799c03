import Yolov5Rknn.PostProcessLabels
import Yolov5Rknn.DeepSortWrapper
import Yolov5Rknn.Logic.Lines
import Mathlib.Data.List.TakeWhile

/-! The names `post_process` and `Update` write for a class. Both loaders read the lines of
the file; `post_process` keeps a carriage return at the end of a line and has no label for a
line that is missing. -/

namespace Yolov5Rknn.PostProcess
open Lines DeepSort DeepSortWrapper
open ByteTrackerWrapper (objNameMaxSize)

/-- The name written for a class by a call of `post_process`: `some none` for a copy from the
null pointer, and none where the call returned an error. -/
def postProcessName (file : Option (List UInt8)) (id : Fin objClassNum) : Option (Option (List UInt8)) :=
  (requestLabels file).map fun labels => (labels id).map fun label => label.take (objNameMaxSize - 1)

/-- The one written by `Update`. -/
def updateName (file : Option (List UInt8)) (id : Fin objClassNum) : List UInt8 :=
  (lookupLabel (loadLabels file) id.val).take (objNameMaxSize - 1)

/-- A call of `post_process` fails or writes the name that `Update` writes. -/
def SameName (file : Option (List UInt8)) (id : Fin objClassNum) : Prop :=
  ∀ name, postProcessName file id = some name → name = some (updateName file id)

/-- A carriage return that ends a line and is part of the name. -/
def ShowsReturn (line : List UInt8) : Prop :=
  line.getLast? = some 13 ∧ 0 ∉ line.dropLast ∧ line.dropLast.length < objNameMaxSize - 1

instance (line : List UInt8) : Decidable (ShowsReturn line) := inferInstanceAs (Decidable (_ ∧ _))

section names

variable {F Raw Pixel : Type} [Arithmetic F]

theorem record_name (toInt : F → Int) (request : Request F) (candidate : Candidate F) (label : List UInt8)
    (objConf : F) : (record toInt request candidate label objConf).name = label.take (objNameMaxSize - 1) := rfl

theorem out_name (convert : Conversions Raw Pixel F) (file : Option (List UInt8)) (id : Fin objClassNum)
    (track : Track F) : (out convert (loadLabels file) { track with cls := id.val }).name = updateName file id := rfl

end names

/-! ### The lines -/

theorem readChars_eq (file : List UInt8) :
    readChars file = (firstLine 10 file, decide (10 ∈ file), afterLine 10 file) := by
  induction file with
  | nil => rfl
  | cons ch rest ih =>
    rw [readChars]
    split
    · next same =>
      rw [same, firstLine_newline, afterLine_newline]
      simp
    · next other =>
      rw [ih, firstLine_cons other, afterLine_cons other]
      simp [Ne.symm other]

theorem readLine_eq {file : List UInt8} (some : file ≠ []) :
    readLine file = .some (firstLine 10 file, afterLine 10 file) := by
  unfold readLine
  rw [readChars_eq]
  dsimp only
  rw [if_neg]
  rintro ⟨missing, empty⟩
  cases file with
  | nil => exact some rfl
  | cons ch rest =>
    by_cases newline : ch = 10
    · simp [newline] at missing
    · rw [firstLine_cons newline] at empty
      cases empty

theorem readUpTo_eq (maxLine : Nat) (file : List UInt8) : readUpTo maxLine file = (lines 10 file).take maxLine := by
  induction maxLine generalizing file with
  | zero => rfl
  | succ more ih =>
    cases file with
    | nil => rfl
    | cons ch rest =>
      have some : ch :: rest ≠ [] := List.cons_ne_nil ch rest
      rw [readUpTo, readLine_eq some, lines_next some, List.take_succ_cons]
      exact congrArg _ (ih _)

theorem loadLines_eq (file : List UInt8) : loadLines file = (lines 10 file).map chomp := by
  induction size : file.length using Nat.strong_induction_on generalizing file with
  | _ size ih =>
    by_cases some : file = []
    · subst some
      rw [loadLines]
      rfl
    · have read : getline file = .some (firstLine 10 file, afterLine 10 file) := if_neg some
      rw [loadLines, lines_next some, List.map_cons]
      split
      · next none =>
        rw [read] at none
        cases none
      · next line rest found =>
        rw [read] at found
        cases found
        exact congrArg _ (ih _ (size ▸ afterLine_shorter some) _ rfl)

/-! ### The names -/

theorem postProcessName_eq (content : List UInt8) (id : Fin objClassNum) :
    postProcessName (some content) id =
      some ((lines 10 content)[id.val]?.map fun line => (cString line).take (objNameMaxSize - 1)) := by
  have kept : (readLines (some content) objClassNum).2[id.val]? = (lines 10 content)[id.val]? := by
    dsimp only [readLines]
    rw [readUpTo_eq, List.getElem?_take_of_lt id.isLt]
  refine congrArg some ?_
  dsimp only [loadLabelName]
  rw [kept, Option.map_map]
  rfl

theorem updateName_eq {content line : List UInt8} {id : Fin objClassNum}
    (found : (lines 10 content)[id.val]? = some line) :
    updateName (some content) id = (cString (chomp line)).take (objNameMaxSize - 1) := by
  have loaded : (loadLabels (some content))[id.val]? = some (chomp line) := by
    dsimp only [loadLabels, Option.getD_some]
    rw [loadLines_eq, List.getElem?_map, found]
    rfl
  unfold updateName lookupLabel
  rw [if_neg (by omega), Int.toNat_natCast, loaded]
  rfl

theorem cString_eq_self {body : List UInt8} : cString body = body ↔ 0 ∉ body := by
  unfold cString
  rw [List.takeWhile_eq_self_iff]
  constructor
  · intro all zero
    exact absurd (all 0 zero) (by decide)
  · intro free byte mem
    refine decide_eq_true ?_
    rintro rfl
    exact free mem

/-- Nothing is read behind a terminator. -/
theorem cString_append {body : List UInt8} (last : UInt8) (ended : 0 ∈ body) :
    cString (body ++ [last]) = cString body := by
  refine List.takeWhile_append.trans (if_neg fun whole => ?_)
  have same : cString body = body := (List.takeWhile_prefix _).eq_of_length whole
  exact cString_eq_self.mp same ended

/-- Removing the carriage return changes the name when it is shown. -/
theorem chomp_name (line : List UInt8) :
    (cString line).take (objNameMaxSize - 1) = (cString (chomp line)).take (objNameMaxSize - 1) ↔
      ¬ShowsReturn line := by
  by_cases ends : line.getLast? = some 13
  · have body : line.dropLast ++ [13] = line := List.dropLast_append_getLast? 13 ends
    rw [chomp, if_pos ends]
    unfold ShowsReturn
    generalize line.dropLast = start at body ⊢
    subst body
    by_cases ended : 0 ∈ start
    · rw [cString_append 13 ended]
      simp [ended]
    · have whole : cString (start ++ [13]) = start ++ [13] := cString_eq_self.mpr (by simp [ended])
      rw [whole, cString_eq_self.mpr ended]
      by_cases short : start.length < objNameMaxSize - 1
      · rw [List.take_of_length_le (by simpa using Nat.succ_le_of_lt short), List.take_of_length_le short.le]
        simp [ended, short]
      · rw [List.take_append_of_le_length (not_lt.mp short)]
        simp [short]
  · rw [chomp, if_neg ends]
    exact iff_of_true rfl fun shows => ends shows.1

/-- The two names of a class are the same exactly for a line of the file whose carriage return
is not part of the name. -/
theorem sameName_iff (file : Option (List UInt8)) (id : Fin objClassNum) :
    SameName file id ↔
      ∃ content line, file = some content ∧ (lines 10 content)[id.val]? = some line ∧ ¬ShowsReturn line := by
  unfold SameName
  cases file with
  | none =>
    refine iff_of_false (fun same => ?_) (by simp)
    cases same none rfl
  | some content =>
    rw [postProcessName_eq]
    cases found : (lines 10 content)[id.val]? with
    | none =>
      refine iff_of_false (fun same => ?_) ?_
      · cases same none rfl
      · rintro ⟨_, line, same, read, _⟩
        cases same
        rw [found] at read
        cases read
    | some line =>
      rw [updateName_eq found]
      have named := chomp_name line
      constructor
      · intro same
        exact ⟨content, line, rfl, found, named.mp (Option.some.inj (same _ rfl))⟩
      · rintro ⟨_, other, same, read, hidden⟩ name written
        cases same
        rw [found] at read
        cases read
        cases written
        exact congrArg some (named.mpr hidden)

/-- Of a file with a carriage return in its line ends, one loader keeps it. -/
theorem sameName_fails : ¬SameName (some [97, 13, 10]) ⟨0, by decide⟩ := by
  intro same
  have line : (lines (10 : UInt8) [97, 13, 10])[(⟨0, by decide⟩ : Fin objClassNum).val]? = some [97, 13] := by decide
  have name := same _ (postProcessName_eq ..)
  rw [updateName_eq line, line] at name
  exact absurd name (by decide)

end Yolov5Rknn.PostProcess
