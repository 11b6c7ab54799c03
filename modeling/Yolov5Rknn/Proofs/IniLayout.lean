import Yolov5Rknn.Proofs.IniCalls

/-! A document can be laid out in many ways, with padding, comments, either separator, a
byte order mark and continuation lines. `ini_parse` reads every layout as the document. -/

namespace Yolov5Rknn.Ini
open Trimming

/-- What may follow a value on its line: whitespace, or whitespace and an inline comment. -/
inductive Tail : List UInt8 → Prop where
  | blank {tail : List UInt8} (blank : Blank isspace tail) : Tail tail
  | comment {gap : List UInt8} (blank : Blank isspace gap) (some : gap ≠ []) (text : List UInt8) :
    Tail (gap ++ 59 :: text)

/-- The lines that lay out an entry of a document. `inName` says that a line which starts
with whitespace would continue the value before it. -/
inductive Prints (inName : Bool) : Meaning → List UInt8 → Prop where
  | blank {pad} (padding : Blank isspace pad) : Prints inName .nothing pad
  | comment {pad mark} (padding : Blank isspace pad) (marks : mark = 59 ∨ mark = 35) (text : List UInt8) :
    Prints inName .nothing (pad ++ mark :: text)
  | sectionStart {pad name} (padding : Blank isspace pad) (flush : inName = true → pad = []) (unclosed : 93 ∉ name)
      (plain : NoComment name) (rest : List UInt8) :
    Prints inName (.sectionStart name) (pad ++ 91 :: (name ++ 93 :: rest))
  | continuation {pad c value tail} (continues : inName = true) (padding : Blank isspace pad) (indented : pad ≠ [])
      (trimmed : Trimmed isspace (c :: value)) (plain : NoComment (c :: value)) (starts : c ≠ 59 ∧ c ≠ 35)
      (ends : Tail tail) : Prints inName (.continuation (c :: value)) (pad ++ c :: (value ++ tail))
  | pair {pad c name gap sep lead value tail} (padding : Blank isspace pad) (flush : inName = true → pad = [])
      (named : Trimmed isspace (c :: name)) (unseparated : ∀ b ∈ c :: name, b ≠ 61 ∧ b ≠ 58)
      (plainName : NoComment (c :: name)) (starts : c ≠ 59 ∧ c ≠ 35 ∧ c ≠ 91) (spaced : Blank isspace gap)
      (separates : sep = 61 ∨ sep = 58) (leads : Blank isspace lead) (trimmed : Trimmed isspace value)
      (plain : NoComment value) (uncommented : lead ≠ [] → ∀ others, value ≠ 59 :: others) (ends : Tail tail) :
    Prints inName (.pair (c :: name) value) (pad ++ c :: (name ++ gap ++ sep :: (lead ++ value ++ tail)))

/-! ### The scans over a layout -/

variable {first inName bom : Bool} {c : UInt8} {pad gap lead name value tail line rest : List UInt8}

theorem clear_append (chars : List UInt8) (wasSpace : Bool) (first last : List UInt8) :
    Clear chars wasSpace (first ++ last) ↔
      Clear chars wasSpace first ∧ Clear chars (endsInSpace wasSpace first) last := by
  induction first generalizing wasSpace with
  | nil => exact (iff_of_eq (true_and _)).symm
  | cons c first ih =>
    simp only [List.cons_append, Clear, endsInSpace, ih]
    exact and_assoc.symm

theorem clear_blank {chars : List UInt8} (sought : ∀ c ∈ chars, isspace c = false) (blank : Blank isspace gap)
    (wasSpace : Bool) : Clear chars wasSpace gap := by
  apply (clear_iff chars wasSpace gap).mpr
  refine ⟨?_, ?_, ?_⟩
  · intro c member among
    have space := blank c member
    rw [sought c among] at space
    cases space
  · intro front space back same
    have semicolon := blank 59 (by rw [same]; simp)
    cases semicolon
  · intro _ others same
    have semicolon := blank 59 (by rw [same]; simp)
    cases semicolon

theorem endsInSpace_append (wasSpace : Bool) (first last : List UInt8) :
    endsInSpace wasSpace (first ++ last) = endsInSpace (endsInSpace wasSpace first) last := by
  induction first generalizing wasSpace with
  | nil => rfl
  | cons c first ih => exact ih (isspace c)

theorem endsInSpace_blank (blank : Blank isspace gap) (some : gap ≠ []) (wasSpace : Bool) :
    endsInSpace wasSpace gap = true := by
  induction gap generalizing wasSpace with
  | nil => exact absurd rfl some
  | cons c gap ih =>
    cases gap with
    | nil => exact blank c List.mem_cons_self
    | cons d gap => exact ih (fun b member => blank b (.tail _ member)) (by simp) (isspace c)

/-- A value on its line, whatever padding and comment surround it. -/
theorem value_read (leads : Blank isspace lead) (trimmed : Trimmed isspace value) (plain : NoComment value)
    (uncommented : lead ≠ [] → ∀ others, value ≠ 59 :: others) (ends : Tail tail) :
    rstrip (lskip (cutComment (rstrip (lead ++ value ++ tail)))) = value := by
  have none : ∀ c ∈ ([] : List UInt8), isspace c = false := fun _ member => by cases member
  have clear : Clear [] false (lead ++ value) := by
    refine (clear_append [] false lead value).mpr ⟨clear_blank none leads false, ?_⟩
    refine (clear_iff [] _ value).mpr ⟨fun _ _ => List.not_mem_nil, plain, ?_⟩
    intro spaced
    apply uncommented
    rintro rfl
    cases spaced
  cases ends with
  | blank blank =>
    have whole : Clear [] false (lead ++ value ++ tail) :=
      (clear_append [] false _ tail).mpr ⟨clear, clear_blank none blank _⟩
    obtain ⟨cut, same⟩ := List.rdropWhile_prefix isspace (lead ++ value ++ tail)
    have kept : Clear [] false (rstrip (lead ++ value ++ tail)) := by
      rw [← same] at whole
      exact ((clear_append [] false _ cut).mp whole).1
    have uncut : cutComment (rstrip (lead ++ value ++ tail)) = rstrip (lead ++ value ++ tail) := by
      have split : findCharsOrComment [] false (rstrip (lead ++ value ++ tail) ++ []) =
          (rstrip (lead ++ value ++ tail), []) := find_split kept trivial
      rw [List.append_nil] at split
      rw [cutComment, split]
    rw [uncut]
    have core : lskip (rstrip (lead ++ value ++ tail)) = value := skip_strip trimmed leads blank
    rw [core]
    exact trimmed.strip
  | @comment gap blank some text =>
    have stripped : rstrip (lead ++ value ++ (gap ++ 59 :: text)) = (lead ++ value ++ gap) ++ 59 :: rstrip text := by
      rw [← List.append_assoc]
      exact rdropWhile_append_cons _ rfl text
    have goes : Clear [] false (lead ++ value ++ gap) :=
      (clear_append [] false _ _).mpr ⟨clear, clear_blank none blank _⟩
    have stops : Stops [] (endsInSpace false (lead ++ value ++ gap)) (59 :: rstrip text) := by
      rw [endsInSpace_append, endsInSpace_blank blank some]
      rfl
    rw [stripped, cutComment, find_split goes stops]
    exact strip_skip trimmed leads blank

/-! ### The lines of a layout -/

/-- The first item of a line that is no padding. -/
theorem front_read (padding : Blank isspace pad) (own : isspace c = false) (rest : List UInt8) :
    lskip (rstrip (pad ++ c :: rest ++ [10])) = c :: rstrip rest := by
  have newline : Blank isspace [10] := fun b member => by rw [List.mem_singleton.mp member]; rfl
  have stripped : rstrip (pad ++ c :: rest ++ [10]) = pad ++ c :: rstrip rest :=
    (rdropWhile_blank newline _).trans (rdropWhile_append_cons pad own rest)
  rw [stripped, lskip, dropWhile_blank padding]
  exact List.dropWhile_cons_of_neg (by rw [own]; simp)

theorem unindented (flush : inName = true → pad = []) (marked : inName = true → bom = false) (own : isspace c = false)
    (rest : List UInt8) : (inName && (bom || (pad ++ c :: rest ++ [10]).head?.any isspace)) = false := by
  cases inName with
  | false => rfl
  | true =>
    rw [flush rfl, marked rfl]
    exact own

/-- A line is read as the entry it lays out. -/
theorem prints_read {entry : Meaning} (prints : Prints inName entry line)
    (skips : skipBom first rest = (line ++ [10], bom)) (marked : inName = true → bom = false) :
    meaning first inName rest = entry := by
  cases prints with
  | blank padding =>
    have whole : Blank isspace (line ++ [10]) := by
      intro b member
      rcases List.mem_append.mp member with inside | newline
      · exact padding b inside
      · rw [List.mem_singleton.mp newline]
        rfl
    have nothing : rstrip (line ++ [10]) = [] := List.rdropWhile_eq_nil_iff.mpr whole
    simp only [meaning, skips, nothing]
    rfl
  | @comment pad mark padding marks text =>
    have own : isspace mark = false := by
      cases marks with
      | inl same => rw [same]; rfl
      | inr same => rw [same]; rfl
    simp only [meaning, skips, front_read padding own text, marks, ↓reduceIte]
  | @sectionStart pad name padding flush unclosed plain text =>
    have stripped : rstrip (name ++ 93 :: text) = name ++ 93 :: rstrip text := rdropWhile_append_cons name rfl text
    have clear : Clear [93] false name := by
      apply (clear_iff [93] false name).mpr
      refine ⟨?_, plain, fun spaced => by cases spaced⟩
      intro b member among
      exact unclosed (List.mem_singleton.mp among ▸ member)
    have inside : findCharsOrComment [93] false (name ++ 93 :: rstrip text) = (name, 93 :: rstrip text) :=
      find_split clear rfl
    have starts := unindented (c := 91) flush marked rfl (name ++ 93 :: text)
    simp only [meaning, skips, front_read padding (c := 91) rfl, stripped, inside, starts]
    rfl
  | @continuation pad c value tail continues padding indented trimmed plain starts ends =>
    have own : isspace c = false := trimmed.front c value rfl
    have unpadded : Blank isspace [] := fun _ member => by cases member
    have kept := value_read unpadded trimmed plain (fun some => absurd rfl some) ends
    have stripped : rstrip ([] ++ (c :: value) ++ tail) = c :: rstrip (value ++ tail) :=
      rdropWhile_append_cons [] own (value ++ tail)
    have space : (pad ++ c :: (value ++ tail) ++ [10]).head?.any isspace = true := by
      cases pad with
      | nil => exact absurd rfl indented
      | cons b pad => exact padding b List.mem_cons_self
    rw [stripped, cutComment_unskipped own] at kept
    simp only [meaning, skips, front_read padding own, space, starts, continues, or_self, ↓reduceIte, Bool.or_true,
      Bool.and_self, kept]
  | @pair pad c name gap sep lead value tail padding flush named unseparated plainName starts spaced separates leads
      trimmed plain uncommented ends =>
    have own : isspace c = false := named.front c name rfl
    have ownSep : isspace sep = false := by
      cases separates with
      | inl same => rw [same]; rfl
      | inr same => rw [same]; rfl
    have stripped : rstrip (name ++ gap ++ sep :: (lead ++ value ++ tail)) =
        name ++ gap ++ sep :: rstrip (lead ++ value ++ tail) := rdropWhile_append_cons _ ownSep _
    have clear : Clear [61, 58] false (c :: name ++ gap) := by
      apply (clear_append _ false _ gap).mpr
      constructor
      · apply (clear_iff [61, 58] false _).mpr
        refine ⟨?_, plainName, fun spaced => by cases spaced⟩
        intro b member among
        have different := unseparated b member
        simp only [List.mem_cons, List.not_mem_nil, or_false] at among
        cases among with
        | inl same => exact different.1 same
        | inr same => exact different.2 same
      · exact clear_blank (by simp [isspace]) spaced _
    have separated : findCharsOrComment [61, 58] false (c :: (name ++ gap ++ sep :: rstrip (lead ++ value ++ tail))) =
        (c :: name ++ gap, sep :: rstrip (lead ++ value ++ tail)) := by
      have stops : Stops [61, 58] (endsInSpace false (c :: name ++ gap)) (sep :: rstrip (lead ++ value ++ tail)) := by
        cases separates with
        | inl same => rw [same]; rfl
        | inr same => rw [same]; rfl
      have split := find_split clear stops
      rw [List.append_assoc] at split ⊢
      exact split
    have begins := unindented flush marked own (name ++ gap ++ sep :: (lead ++ value ++ tail))
    have nameRead : rstrip (c :: name ++ gap) = c :: name := (rdropWhile_blank spaced _).trans named.strip
    have valueRead := value_read leads trimmed plain uncommented ends
    simp only [meaning, skips, front_read padding own, stripped, separated, begins, starts, or_self, ↓reduceIte,
      Bool.false_eq_true]
    cases separates with
    | inl same =>
      subst same
      simp only [nameRead, valueRead]
    | inr same =>
      subst same
      simp only [nameRead, valueRead]

/-! ### Documents -/

/-- The lines that lay out a sequence of entries, one each. -/
inductive Layout : Bool → List Meaning → List (List UInt8) → Prop where
  | nil (inName : Bool) : Layout inName [] []
  | cons {inName : Bool} {entry : Meaning} {line : List UInt8} {entries : List Meaning} {lines : List (List UInt8)}
      (prints : Prints inName entry line) (rest : Layout (entry.inName inName) entries lines) :
    Layout inName (entry :: entries) (line :: lines)

variable {entries : List Meaning} {lines : List (List UInt8)} {mark : List UInt8}

theorem Layout.read (layout : Layout inName entries lines) : reads false inName (lines.map (· ++ [10])) = entries := by
  induction layout with
  | nil => rfl
  | @cons _ _ line _ _ prints rest ih =>
    have unmarked : skipBom false (line ++ [10]) = (line ++ [10], false) := rfl
    have own := prints_read prints unmarked (fun _ => rfl)
    simp only [List.map_cons, reads, own, ih]

theorem Layout.clean (layout : Layout inName entries lines) : .bad ∉ entries := by
  induction layout with
  | nil => exact List.not_mem_nil
  | cons prints rest ih =>
    intro member
    cases member with
    | head => cases prints
    | tail _ later => exact ih later

def byteOrderMark : List UInt8 := [0xEF, 0xBB, 0xBF]

/-- A mark, or none, before the first line. -/
def markFirst (mark : List UInt8) : List (List UInt8) → List (List UInt8)
  | [] => []
  | line :: lines => (mark ++ line) :: lines

theorem skipBom_marked (line : List UInt8) : skipBom true (byteOrderMark ++ line) = (line, true) := by
  simp [skipBom, byteOrderMark]

theorem skipBom_unmarked (unmarked : ¬byteOrderMark <+: line) :
    skipBom true (line ++ [10]) = (line ++ [10], false) := by
  rw [skipBom, if_neg]
  intro marked
  apply unmarked
  have whole := List.isPrefixOf_iff_prefix.mp (Bool.and_eq_true_iff.mp marked).2
  rcases List.prefix_concat_iff.mp whole with same | inside
  · have last := congrArg List.getLast? same
    simp at last
  · exact inside

theorem Layout.readMarked (layout : Layout false entries lines) (marks : mark = [] ∨ mark = byteOrderMark)
    (unmarked : mark = [] → ∀ line ∈ lines.head?, ¬byteOrderMark <+: line) :
    reads true false ((markFirst mark lines).map (· ++ [10])) = entries := by
  cases layout with
  | nil => rfl
  | @cons _ entry line entries lines prints rest =>
    have own : meaning true false (mark ++ line ++ [10]) = entry := by
      cases marks with
      | inl none =>
        have plain := skipBom_unmarked (unmarked none line rfl)
        rw [none]
        exact prints_read prints plain (fun named => by cases named)
      | inr some =>
        have skips : skipBom true (mark ++ line ++ [10]) = (line ++ [10], true) := by
          rw [some, List.append_assoc]
          exact skipBom_marked _
        exact prints_read prints skips (fun named => by cases named)
    simp only [markFirst, List.map_cons, reads, own, rest.read]

/-- A text that lays out a document: its lines fit into the buffer and end in newlines. -/
structure LaidOut (entries : List Meaning) (mark : List UInt8) (lines : List (List UInt8)) : Prop where
  layout : Layout false entries lines
  marks : mark = [] ∨ mark = byteOrderMark
  unmarked : mark = [] → ∀ line ∈ lines.head?, ¬byteOrderMark <+: line
  fits : ∀ line ∈ markFirst mark lines, 10 ∉ line ∧ 0 ∉ line ∧ line.length < iniMaxLine - 1

def document (mark : List UInt8) (lines : List (List UInt8)) : List UInt8 :=
  ((markFirst mark lines).map (· ++ [10])).flatten

theorem LaidOut.meanings (laid : LaidOut entries mark lines) : meanings (document mark lines) = entries := by
  rw [Ini.meanings, document, bufferedLines_text laid.fits]
  exact laid.layout.readMarked laid.marks laid.unmarked

theorem LaidOut.clean (laid : LaidOut entries mark lines) : firstBad 0 entries = 0 := by
  rcases firstBad_spec 0 entries with ⟨clean, _⟩ | ⟨index, _, there, _⟩
  · exact clean
  · exact absurd (List.mem_of_getElem? there) laid.layout.clean

/-- However a document is laid out, `ini_parse` returns 0 for its text and has called a handler
that accepts every call once for each of its values, in order, under its section and name. -/
theorem layout_parsed {User : Type} {handler : User → Call → User × Bool}
    (accepts : ∀ user call, (handler user call).2 = true) (user : User) (laid : LaidOut entries mark lines) :
    iniParse handler user (some (document mark lines)) =
      (0, (callsOf [] [] entries).foldl (fun user call => (handler user call).1) user) := by
  rw [iniParse_calls accepts, calls, laid.meanings, laid.clean]
  rfl

/-- `[s]`, `a : b ; c` and ` d`, behind a mark. -/
theorem sampleLayout : LaidOut [.sectionStart [115], .pair [97] [98], .continuation [100]] byteOrderMark
    [[91, 115, 93], [97, 32, 58, 32, 98, 32, 59, 32, 99], [32, 100]] where
  layout := by
    have space : Blank isspace [32] := List.all_eq_true.mp rfl
    have none : Blank isspace [] := List.all_eq_true.mp rfl
    have plain (c : UInt8) : NoComment [c] := ((clear_iff [] false [c]).mp ⟨rfl, trivial⟩).2.1
    apply Layout.cons
    · exact @Prints.sectionStart _ [] [115] none (fun _ => rfl) (by decide) (plain 115) []
    apply Layout.cons
    · exact @Prints.pair _ [] 97 [] [32] 58 [32] [98] _ none (fun _ => rfl) (.of_kept (by decide)) (by simp) (plain 97)
        (by decide) space (.inr rfl) space (.of_kept (by decide)) (plain 98) (fun _ _ same => by cases same)
        (.comment space (by decide) [32, 99])
    apply Layout.cons
    · exact @Prints.continuation _ [32] 100 [] [] rfl space (by decide) (.of_kept (by decide)) (plain 100) (by decide)
        (.blank none)
    exact .nil _
  marks := .inr rfl
  unmarked := by decide
  fits := by decide

theorem layout_parsed_sample : iniParse record [] (some (document byteOrderMark
    [[91, 115, 93], [97, 32, 58, 32, 98, 32, 59, 32, 99], [32, 100]])) =
      (0, [⟨[115], [97], [98]⟩, ⟨[115], [97], [100]⟩]) :=
  layout_parsed (fun _ _ => rfl : ∀ user call, (record user call).2 = true) [] sampleLayout

end Yolov5Rknn.Ini
