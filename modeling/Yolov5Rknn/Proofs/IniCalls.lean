import Yolov5Rknn.Proofs.IniLines

/-! What `ini_parse` accepts is well formed: every call of the handler, for every file,
and the error it returns. -/

namespace Yolov5Rknn.Ini
open Trimming

variable {first inName : Bool} {line text name value : List UInt8}

/-- Bytes that a C string read by `fgets` can hold before its newline. -/
def Printable (text : List UInt8) : Prop := ∀ c ∈ text, c ≠ 0 ∧ c ≠ 10

theorem Printable.subset (printable : Printable text) (inside : ∀ c ∈ value, c ∈ text) : Printable value :=
  fun c member => printable c (inside c member)

structure NameFormed (name : List UInt8) : Prop where
  printable : Printable name
  unpadded : ∀ c rest, name = c :: rest → isspace c = false
  unseparated : ∀ c ∈ name, c ≠ 61 ∧ c ≠ 58
  plain : NoComment name

structure ValueFormed (value : List UInt8) : Prop where
  printable : Printable value
  trimmed : Trimmed isspace value
  plain : NoComment value

structure SectionFormed (sectionName : List UInt8) : Prop where
  printable : Printable sectionName
  unclosed : 93 ∉ sectionName
  plain : NoComment sectionName
  short : sectionName.length < maxSection

structure Call.Formed (call : Call) : Prop where
  sectionName : SectionFormed call.sectionName
  name : NameFormed call.name
  value : ValueFormed call.value

theorem NoComment.inside (plain : NoComment text) (inside : value <:+: text) : NoComment value := by
  obtain ⟨front, back, same⟩ := inside
  exact plain.of_infix same

theorem NoComment.nil : NoComment [] := by
  intro front space back same
  simp at same

theorem NameFormed.nil : NameFormed [] where
  printable := fun _ member => by cases member
  unpadded := fun _ _ same => by cases same
  unseparated := fun _ member => by cases member
  plain := .nil

theorem SectionFormed.nil : SectionFormed [] where
  printable := fun _ member => by cases member
  unclosed := List.not_mem_nil
  plain := .nil
  short := by decide

theorem NameFormed.take (formed : NameFormed name) (size : Nat) : NameFormed (name.take size) where
  printable := formed.printable.subset fun _ member => List.mem_of_mem_take member
  unpadded := by
    intro c rest same
    cases name with
    | nil => simp at same
    | cons first name =>
      cases size with
      | zero => cases same
      | succ size =>
        obtain ⟨rfl, _⟩ := List.cons.inj same
        exact formed.unpadded first name rfl
  unseparated := fun c member => formed.unseparated c (List.mem_of_mem_take member)
  plain := formed.plain.inside (List.take_prefix _ _).isInfix

theorem cutComment_plain (text : List UInt8) : NoComment (cutComment text) :=
  ((clear_iff [] false _).mp (find_spec [] false text).2.1).2.1

theorem cutComment_starts (text : List UInt8) : cutComment text <+: text :=
  ⟨_, (find_spec [] false text).1.symm⟩

theorem cutComment_unskipped {c : UInt8} (front : isspace c = false) (rest : List UInt8) :
    lskip (cutComment (c :: rest)) = cutComment (c :: rest) := by
  obtain ⟨tail, cut⟩ := cutComment_starts (c :: rest)
  cases kept : cutComment (c :: rest) with
  | nil => rfl
  | cons b others =>
    rw [kept] at cut
    obtain ⟨rfl, _⟩ := List.cons.inj cut
    exact List.dropWhile_cons_of_neg (by rw [front]; simp)

theorem strip_inside (text : List UInt8) : rstrip (lskip text) <:+: text :=
  (List.rdropWhile_prefix _ _).isInfix.trans (List.dropWhile_suffix _).isInfix

/-- A value behind `=`, whatever stands there. -/
theorem valueFormed (printable : Printable text) : ValueFormed (rstrip (lskip (cutComment text))) where
  printable := printable.subset fun _ member =>
    ((strip_inside _).trans (cutComment_starts text).isInfix).subset member
  trimmed := strip_skip_trimmed isspace _
  plain := (cutComment_plain text).inside (strip_inside _)

/-- What a line may be read as. -/
def Meaning.Formed : Meaning → Prop
  | .nothing | .bad => True
  | .sectionStart name => Printable name ∧ 93 ∉ name ∧ NoComment name
  | .continuation value => ValueFormed value
  | .pair name value => NameFormed name ∧ ValueFormed value

/-- A line as `fgets` leaves it. -/
def Buffered (line : List UInt8) : Prop :=
  ∃ text, Printable text ∧ (line = text ∨ line = text ++ [10])

theorem Buffered.stripped (buffered : Buffered line) : Printable (lskip (rstrip line)) := by
  obtain ⟨text, printable, rfl | rfl⟩ := buffered
  · exact printable.subset fun c member =>
      (List.rdropWhile_prefix _ _).subset ((List.dropWhile_suffix _).subset member)
  · have same : rstrip (text ++ [10]) = rstrip text :=
      List.rdropWhile_concat_pos isspace text 10 rfl
    rw [same]
    exact printable.subset fun c member =>
      (List.rdropWhile_prefix _ _).subset ((List.dropWhile_suffix _).subset member)

theorem Buffered.skipBom (buffered : Buffered line) : Buffered (skipBom first line).1 := by
  unfold Ini.skipBom
  split
  next marked =>
    obtain ⟨text, printable, rfl | rfl⟩ := buffered
    · exact ⟨_, printable.subset fun _ member => List.mem_of_mem_drop member, .inl rfl⟩
    · have long : 3 ≤ text.length := by
        have whole := List.isPrefixOf_iff_prefix.mp (Bool.and_eq_true_iff.mp marked).2
        by_contra short
        have inside := whole.length_le
        simp only [List.length_cons, List.length_nil, List.length_append] at inside
        have last : (text ++ [10])[2]? = some 10 := by
          rw [List.getElem?_append_right (by omega)]
          simp [show 2 - text.length = 0 by omega]
        obtain ⟨rest, same⟩ := whole
        rw [← same] at last
        simp at last
      refine ⟨text.drop 3, printable.subset fun _ member => List.mem_of_mem_drop member, .inr ?_⟩
      exact List.drop_append_of_le_length long
  next => exact buffered

theorem meaning_formed (buffered : Buffered line) : (meaning first inName line).Formed := by
  have printable := (@Buffered.skipBom first line buffered).stripped
  have trimmed := skip_strip_trimmed isspace (skipBom first line).1
  unfold meaning
  simp only
  split
  next => trivial
  next c rest whole =>
    rw [whole] at printable
    have front : isspace c = false := trimmed.front c rest whole
    have later : Printable rest := printable.subset fun _ member => .tail _ member
    split
    · trivial
    · split
      · have formed := valueFormed printable
        rw [cutComment_unskipped front rest] at formed
        exact formed
      · split
        · split
          next inside _ found =>
            obtain ⟨same, clear, _⟩ := find_spec [93] false rest
            rw [found] at same clear
            obtain ⟨absent, plain, _⟩ := (clear_iff [93] false inside).mp clear
            refine ⟨later.subset fun _ member => ?_, ?_, plain⟩
            · rw [same]
              exact List.mem_append_left _ member
            · exact fun member => absent 93 member (List.mem_singleton.mpr rfl)
          next => trivial
        · have named (name value : List UInt8) (sep : UInt8)
              (found : findCharsOrComment [61, 58] false (c :: rest) = (name, sep :: value)) :
              NameFormed (rstrip name) ∧ ValueFormed (rstrip (lskip (cutComment value))) := by
            obtain ⟨same, clear, _⟩ := find_spec [61, 58] false (c :: rest)
            rw [found] at same clear
            obtain ⟨absent, plain, _⟩ := (clear_iff [61, 58] false name).mp clear
            have own : rstrip name <+: name := List.rdropWhile_prefix _ _
            constructor
            · constructor
              case printable =>
                apply printable.subset
                intro b member
                rw [same]
                exact List.mem_append_left _ (own.subset member)
              case unpadded =>
                intro b others whole
                obtain ⟨tail, starts⟩ := own
                rw [whole] at starts
                rw [← starts] at same
                obtain ⟨rfl, _⟩ := List.cons.inj same
                exact front
              case unseparated =>
                intro b member
                have outside := absent b (own.subset member)
                simp only [List.mem_cons, List.not_mem_nil, or_false, not_or] at outside
                exact outside
              case plain => exact plain.inside own.isInfix
            · apply valueFormed
              apply printable.subset
              intro b member
              rw [same]
              exact List.mem_append_right _ (.tail _ member)
          split
          next name value found => exact named name value 61 found
          next name value found => exact named name value 58 found
          next => trivial

theorem reads_formed (lines : List (List UInt8)) (buffered : ∀ line ∈ lines, Buffered line) :
    ∀ taken ∈ reads first inName lines, taken.Formed := by
  induction lines generalizing first inName with
  | nil => exact fun _ member => by cases member
  | cons line lines ih =>
    intro taken member
    cases member with
    | head => exact meaning_formed (buffered line List.mem_cons_self)
    | tail _ later => exact ih (fun other inside => buffered other (.tail _ inside)) taken later

theorem callsOf_formed (taken : List Meaning) (formed : ∀ one ∈ taken, one.Formed)
    {sectionName prevName : List UInt8} (opened : SectionFormed sectionName) (named : NameFormed prevName) :
    ∀ call ∈ callsOf sectionName prevName taken, call.Formed := by
  induction taken generalizing sectionName prevName with
  | nil => exact fun _ member => by cases member
  | cons one rest ih =>
    have own := formed one List.mem_cons_self
    have others : ∀ other ∈ rest, other.Formed := fun other inside => formed other (.tail _ inside)
    intro call member
    cases one with
    | nothing | bad => exact ih others opened named call member
    | sectionStart name =>
      refine ih others ?_ .nil call member
      have inside : strncpy0 name maxSection <+: name := List.take_prefix _ _
      constructor
      case printable => exact own.1.subset fun _ inner => inside.subset inner
      case unclosed => exact fun inner => own.2.1 (inside.subset inner)
      case plain => exact own.2.2.inside inside.isInfix
      case short => exact Nat.lt_of_le_of_lt (List.length_take_le _ _) (by decide)
    | continuation value =>
      cases member with
      | head => exact ⟨opened, named, own⟩
      | tail _ later => exact ih others opened named call later
    | pair name value =>
      cases member with
      | head => exact ⟨opened, own.1, own.2⟩
      | tail _ later => exact ih others opened (own.1.take _) call later

theorem bufferedLines_buffered (stream : List UInt8) : ∀ line ∈ bufferedLines stream, Buffered line := by
  intro line member
  obtain ⟨piece, cut, rfl⟩ := List.mem_map.mp member
  obtain ⟨text, unbroken, same⟩ := fgets_pieces List.not_mem_nil stream piece cut
  by_cases whole : 0 ∈ text
  · refine ⟨piece.takeWhile (· ≠ 0), ?_, .inl rfl⟩
    have inside : piece.takeWhile (· ≠ 0) <+: text := by
      rcases same with rfl | rfl
      · exact List.takeWhile_prefix _
      · rw [List.takeWhile_append, if_neg]
        · exact List.takeWhile_prefix _
        · intro full
          have every := List.takeWhile_eq_self_iff.mp ((List.takeWhile_prefix _).eq_of_length full) 0 whole
          simp at every
    intro c inner
    refine ⟨by simpa using List.mem_takeWhile_imp inner, ?_⟩
    rintro rfl
    exact unbroken (inside.subset inner)
  · have printable : Printable text := by
      intro c inside
      exact ⟨fun same => whole (same ▸ inside), fun same => unbroken (same ▸ inside)⟩
    refine ⟨text, printable, ?_⟩
    have kept : piece.takeWhile (· ≠ 0) = piece := by
      apply List.takeWhile_eq_self_iff.mpr
      intro c inside
      rcases same with rfl | rfl
      · simpa using (printable c inside).1
      · rcases List.mem_append.mp inside with own | newline
        · simpa using (printable c own).1
        · rw [List.mem_singleton.mp newline]
          decide
    rw [kept]
    exact same

/-- What the lines of a file mean. -/
def meanings (stream : List UInt8) : List Meaning := reads true false (bufferedLines stream)

/-- The calls `ini_parse` makes, in order. -/
def calls (stream : List UInt8) : List Call := callsOf [] [] (meanings stream)

theorem iniParse_calls {User : Type} {handler : User → Call → User × Bool}
    (accepts : ∀ user call, (handler user call).2 = true) (user : User) (stream : List UInt8) :
    iniParse handler user (some stream) =
      (((firstBad 0 (meanings stream) : Nat) : Int),
        (calls stream).foldl (fun user call => (handler user call).1) user) := by
  obtain ⟨called, failed⟩ := parse_reads accepts (bufferedLines stream) (Parser.start user)
  simp only [iniParse, iniParseStream, called, failed]
  rfl

theorem firstBad_spec (lineno : Nat) (taken : List Meaning) :
    (firstBad lineno taken = 0 ∧ .bad ∉ taken) ∨
      ∃ index, firstBad lineno taken = lineno + index + 1 ∧ taken[index]? = some .bad ∧ .bad ∉ taken.take index := by
  induction taken generalizing lineno with
  | nil => exact .inl ⟨rfl, List.not_mem_nil⟩
  | cons one rest ih =>
    by_cases bad : one = .bad
    · subst bad
      exact .inr ⟨0, rfl, rfl, List.not_mem_nil⟩
    · have next : firstBad lineno (one :: rest) = firstBad (lineno + 1) rest := by
        cases one <;> first | rfl | exact absurd rfl bad
      rw [next]
      rcases ih (lineno + 1) with ⟨clean, absent⟩ | ⟨index, found, there, before⟩
      · refine .inl ⟨clean, ?_⟩
        simp only [List.mem_cons, not_or]
        exact ⟨Ne.symm bad, absent⟩
      · refine .inr ⟨index + 1, by omega, there, ?_⟩
        simp only [List.take_succ_cons, List.mem_cons, not_or]
        exact ⟨Ne.symm bad, before⟩

theorem calls_formed (stream : List UInt8) : ∀ call ∈ calls stream, call.Formed := by
  apply callsOf_formed
  · exact reads_formed _ (bufferedLines_buffered stream)
  · exact .nil
  · exact .nil

/-- For every file, whatever its bytes, and a handler that accepts every call: the calls
are those of the lines that are not bad, each of them well formed, and the value
returned is the number of the first bad line, or 0 where there is none. -/
theorem accepted_formed {User : Type} {handler : User → Call → User × Bool}
    (accepts : ∀ user call, (handler user call).2 = true) (user : User) (stream : List UInt8) :
    (iniParse handler user (some stream)).2 = (calls stream).foldl (fun user call => (handler user call).1) user ∧
      (∀ call ∈ calls stream, call.Formed) ∧
      ((iniParse handler user (some stream)).1 = 0 ∧ .bad ∉ meanings stream ∨
        ∃ index : Nat, (iniParse handler user (some stream)).1 = index + 1 ∧
          (meanings stream)[index]? = some .bad ∧ .bad ∉ (meanings stream).take index) := by
  rw [iniParse_calls accepts]
  refine ⟨rfl, calls_formed stream, ?_⟩
  rcases firstBad_spec 0 (meanings stream) with ⟨clean, absent⟩ | ⟨index, found, there, before⟩
  · exact .inl ⟨by rw [clean]; rfl, absent⟩
  · exact .inr ⟨index, by rw [found]; push_cast; omega, there, before⟩

/-- The handler that records its calls. -/
def record (calls : List Call) (call : Call) : List Call × Bool := (calls ++ [call], true)

/-- `[s]`, a line that is neither, `a = b ; c`, and ` d` that continues it. -/
def sampleFile : List UInt8 := [91, 115, 93, 10, 122, 10, 97, 32, 61, 32, 98, 32, 59, 32, 99, 10, 32, 100]

theorem accepted_formed_sample : (iniParse record [] (some sampleFile)).1 = 2 ∧
    ∀ call ∈ [⟨[115], [97], [98]⟩, ⟨[115], [97], [100]⟩], Call.Formed call := by
  have formed := (accepted_formed (fun _ _ => rfl : ∀ user call, (record user call).2 = true) [] sampleFile).2.1
  have recorded : calls sampleFile = [⟨[115], [97], [98]⟩, ⟨[115], [97], [100]⟩] := by decide
  rw [recorded] at formed
  exact ⟨by decide, formed⟩

end Yolov5Rknn.Ini
