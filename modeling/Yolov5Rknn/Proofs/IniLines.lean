import Yolov5Rknn.Ini
import Yolov5Rknn.Logic.Trimming

/-! The scans of ini.c over one line, the lines that `fgets` cuts a file into, and the
parse of a file as the sequence of what its lines mean. -/

namespace Yolov5Rknn.Ini
open Trimming

variable {chars text before after line : List UInt8} {wasSpace : Bool}

/-! ### `find_chars_or_comment` -/

/-- The scan goes on at every byte of the text. -/
def Clear (chars : List UInt8) : Bool → List UInt8 → Prop
  | _, [] => True
  | wasSpace, c :: rest => (chars.contains c || (wasSpace && c == 59)) = false ∧ Clear chars (isspace c) rest

/-- `was_space` behind the text. -/
def endsInSpace : Bool → List UInt8 → Bool
  | wasSpace, [] => wasSpace
  | _, c :: rest => endsInSpace (isspace c) rest

def Stops (chars : List UInt8) (wasSpace : Bool) : List UInt8 → Prop
  | [] => True
  | c :: _ => (chars.contains c || (wasSpace && c == 59)) = true

theorem find_split (clear : Clear chars wasSpace before) (stops : Stops chars (endsInSpace wasSpace before) after) :
    findCharsOrComment chars wasSpace (before ++ after) = (before, after) := by
  induction before generalizing wasSpace with
  | nil =>
    cases after with
    | nil => rfl
    | cons c rest =>
      simp only [Stops, endsInSpace] at stops
      rw [List.nil_append, findCharsOrComment, if_pos stops]
  | cons c before ih =>
    obtain ⟨goes, clear⟩ := clear
    rw [List.cons_append, findCharsOrComment, if_neg (by rw [goes]; simp), ih clear stops]

theorem find_spec (chars : List UInt8) (wasSpace : Bool) (text : List UInt8) :
    text = (findCharsOrComment chars wasSpace text).1 ++ (findCharsOrComment chars wasSpace text).2 ∧
      Clear chars wasSpace (findCharsOrComment chars wasSpace text).1 ∧
      Stops chars (endsInSpace wasSpace (findCharsOrComment chars wasSpace text).1)
        (findCharsOrComment chars wasSpace text).2 := by
  induction text generalizing wasSpace with
  | nil => exact ⟨rfl, trivial, trivial⟩
  | cons c rest ih =>
    rw [findCharsOrComment]
    split
    next stops => exact ⟨rfl, trivial, stops⟩
    next goes =>
      obtain ⟨whole, clear, stops⟩ := ih (isspace c)
      exact ⟨congrArg (c :: ·) whole, ⟨Bool.eq_false_iff.mpr goes, clear⟩, stops⟩

/-- No `;` behind whitespace. -/
def NoComment (text : List UInt8) : Prop :=
  ∀ front space back, text = front ++ space :: 59 :: back → isspace space = false

theorem NoComment.of_infix (plain : NoComment text) {front back : List UInt8} (inside : front ++ line ++ back = text) :
    NoComment line := by
  intro first space last same
  apply plain (front ++ first) space (last ++ back)
  rw [← inside, same]
  simp

/-- The scan goes over a text without the bytes sought and without an inline comment. -/
theorem clear_iff (chars : List UInt8) (wasSpace : Bool) (text : List UInt8) :
    Clear chars wasSpace text ↔ (∀ c ∈ text, c ∉ chars) ∧ NoComment text ∧
      (wasSpace = true → ∀ rest, text ≠ 59 :: rest) := by
  induction text generalizing wasSpace with
  | nil =>
    refine iff_of_true trivial ⟨by simp, ?_, by simp⟩
    intro front space back same
    simp at same
  | cons c rest ih =>
    simp only [Clear, ih, Bool.or_eq_false_iff, Bool.and_eq_false_iff, List.contains_eq_mem, decide_eq_false_iff_not,
      beq_eq_false_iff_ne]
    constructor
    · rintro ⟨⟨absent, first⟩, others, plain, second⟩
      refine ⟨?_, ?_, ?_⟩
      · intro other member
        cases member with
        | head => exact absent
        | tail _ later => exact others other later
      · intro front space back same
        cases front with
        | nil =>
          obtain ⟨rfl, rfl⟩ := List.cons.inj same
          by_contra spaced
          exact second (Bool.not_eq_false _ ▸ spaced) back rfl
        | cons _ front => exact plain front space back (List.cons.inj same).2
      · intro spaced other same
        obtain ⟨rfl, rfl⟩ := List.cons.inj same
        rcases first with unspaced | different
        · rw [spaced] at unspaced; cases unspaced
        · exact different rfl
    · rintro ⟨others, plain, first⟩
      refine ⟨⟨others c List.mem_cons_self, ?_⟩, fun other member => others other (.tail _ member), ?_, ?_⟩
      · cases spaced : wasSpace with
        | false => exact .inl rfl
        | true =>
          right
          intro same
          exact first spaced rest (by rw [same])
      · intro front space back same
        exact plain (c :: front) space back (by rw [same]; rfl)
      · intro spaced back same
        have unspaced := plain [] c back (by rw [same]; rfl)
        rw [spaced] at unspaced
        cases unspaced

/-! ### `fgets` -/

theorem fgets_line {size left : Nat} {buffer rest : List UInt8} (unbroken : 10 ∉ line) (fits : line.length < left) :
    fgets size left buffer (line ++ 10 :: rest) = (buffer ++ line ++ [10]) :: fgets size size [] rest := by
  induction line generalizing left buffer with
  | nil => rw [List.nil_append, fgets, if_pos (.inl rfl), List.append_nil]
  | cons c line ih =>
    simp only [List.mem_cons, not_or] at unbroken
    simp only [List.length_cons] at fits
    have goes : ¬(c = 10 ∨ left ≤ 1) := by
      rintro (same | full)
      · exact unbroken.1 same.symm
      · omega
    rw [List.cons_append, fgets, if_neg goes, ih unbroken.2 (by omega), List.append_assoc buffer]
    rfl

/-- What `fgets` returns has its newline, if any, at its end, and comes from the file. -/
theorem fgets_pieces {size left : Nat} {buffer : List UInt8} (unbroken : 10 ∉ buffer) (stream : List UInt8) :
    ∀ piece ∈ fgets size left buffer stream, ∃ text, 10 ∉ text ∧ (piece = text ∨ piece = text ++ [10]) := by
  induction stream generalizing left buffer with
  | nil =>
    intro piece member
    simp only [fgets] at member
    split at member
    · cases member
    · rw [List.mem_singleton.mp member]
      exact ⟨buffer, unbroken, .inl rfl⟩
  | cons c stream ih =>
    intro piece member
    rw [fgets] at member
    split at member
    next full =>
      cases member with
      | tail _ later => exact ih (List.not_mem_nil) piece later
      | head =>
        by_cases newline : c = 10
        · exact ⟨buffer, unbroken, .inr (by rw [newline])⟩
        · refine ⟨buffer ++ [c], ?_, .inl rfl⟩
          simp only [List.mem_append, List.mem_singleton, not_or]
          exact ⟨unbroken, fun same => newline same.symm⟩
    next goes =>
      apply ih ?_ piece member
      simp only [List.mem_append, List.mem_singleton, not_or]
      exact ⟨unbroken, fun same => goes (.inl same.symm)⟩

/-- The lines of a file whose lines all fit into the buffer. -/
theorem bufferedLines_text {lines : List (List UInt8)}
    (fit : ∀ line ∈ lines, 10 ∉ line ∧ 0 ∉ line ∧ line.length < iniMaxLine - 1) :
    bufferedLines (lines.map (· ++ [10])).flatten = lines.map (· ++ [10]) := by
  have pieces : fgets (iniMaxLine - 1) (iniMaxLine - 1) [] (lines.map (· ++ [10])).flatten = lines.map (· ++ [10]) := by
    induction lines with
    | nil => rfl
    | cons line lines ih =>
      obtain ⟨unbroken, _, short⟩ := fit line List.mem_cons_self
      rw [List.map_cons, List.flatten_cons, List.append_assoc, List.singleton_append, fgets_line unbroken short,
        ih fun other member => fit other (.tail _ member)]
      rfl
  rw [bufferedLines, pieces, List.map_map]
  apply List.map_congr_left
  intro line member
  obtain ⟨_, unterminated, _⟩ := fit line member
  simp only [Function.comp_apply]
  apply List.takeWhile_eq_self_iff.mpr
  intro c inside
  rcases List.mem_append.mp inside with own | newline
  · exact decide_eq_true fun same => unterminated (same ▸ own)
  · rw [List.mem_singleton.mp newline]
    decide

/-! ### The parse as the meanings of the lines -/

/-- `*prev_name` behind a line. -/
def Meaning.inName (inName : Bool) : Meaning → Bool
  | .nothing | .continuation _ | .bad => inName
  | .sectionStart _ => false
  | .pair name _ => strncpy0 name maxName != []

def reads (first inName : Bool) : List (List UInt8) → List Meaning
  | [] => []
  | line :: rest =>
    let taken := meaning first inName line
    taken :: reads false (taken.inName inName) rest

/-- The calls of the handler that a sequence of meanings stands for. -/
def callsOf (sectionName prevName : List UInt8) : List Meaning → List Call
  | [] => []
  | .nothing :: rest | .bad :: rest => callsOf sectionName prevName rest
  | .sectionStart name :: rest => callsOf (strncpy0 name maxSection) [] rest
  | .continuation value :: rest => ⟨sectionName, prevName, value⟩ :: callsOf sectionName prevName rest
  | .pair name value :: rest => ⟨sectionName, name, value⟩ :: callsOf sectionName (strncpy0 name maxName) rest

/-- The number of the first bad line, counted from `lineno`. -/
def firstBad (lineno : Nat) : List Meaning → Nat
  | [] => 0
  | .bad :: _ => lineno + 1
  | _ :: rest => firstBad (lineno + 1) rest

variable {User : Type} {handler : User → Call → User × Bool}

theorem call_accepted (accepts : ∀ user call, (handler user call).2 = true) (name value : List UInt8)
    (parser : Parser User) : parser.call handler name value =
      { parser with user := (handler parser.user ⟨parser.sectionName, name, value⟩).1 } := by
  simp only [Parser.call, accepts, ↓reduceIte]

/-- A handler that accepts every call sees exactly the calls of the meanings. -/
theorem parse_reads (accepts : ∀ user call, (handler user call).2 = true) (lines : List (List UInt8))
    (parser : Parser User) :
    (lines.foldl (fun parser line => parseLine handler line parser) parser).user =
        (callsOf parser.sectionName parser.prevName (reads (parser.lineno == 0) (parser.prevName != []) lines)).foldl
          (fun user call => (handler user call).1) parser.user ∧
      (lines.foldl (fun parser line => parseLine handler line parser) parser).error =
        if parser.error = 0 then firstBad parser.lineno (reads (parser.lineno == 0) (parser.prevName != []) lines)
        else parser.error := by
  induction lines generalizing parser with
  | nil =>
    refine ⟨rfl, ?_⟩
    simp only [List.foldl_nil, reads, firstBad]
    split <;> simp_all
  | cons line lines ih =>
    have later : (parser.lineno + 1 == 0) = false := rfl
    have now : (parser.lineno + 1 == 1) = (parser.lineno == 0) := by simp
    rw [List.foldl_cons, reads]
    obtain ⟨user, error⟩ := ih (parseLine handler line parser)
    rw [user, error]
    simp only [parseLine, now]
    cases taken : meaning (parser.lineno == 0) (parser.prevName != []) line with
    | nothing => exact ⟨rfl, rfl⟩
    | sectionStart name => exact ⟨rfl, rfl⟩
    | continuation value =>
      simp only [call_accepted accepts]
      exact ⟨rfl, rfl⟩
    | pair name value =>
      simp only [call_accepted accepts]
      exact ⟨rfl, rfl⟩
    | bad =>
      refine ⟨rfl, ?_⟩
      simp only [Parser.fail, firstBad]
      split
      next clean => rw [if_neg (Nat.succ_ne_zero _)]
      next failed => rfl

end Yolov5Rknn.Ini
