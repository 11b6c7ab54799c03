import Yolov5Rknn.INIReader
import Yolov5Rknn.Proofs.IniCalls

/-! What a query of an `INIReader` finds, for every file: the values of the calls with the
section and the name asked for, whatever the case of their letters. -/

namespace Yolov5Rknn
open Ini

variable {sectionName name otherSection otherName : List UInt8}

/-! ### Keys -/

theorem tolower_separator (c : UInt8) : tolower c = 61 ↔ c = 61 := by
  constructor
  · intro same
    unfold tolower at same
    split at same
    next upper =>
      simp only [Bool.and_eq_true, decide_eq_true_eq, UInt8.le_iff_toNat_le] at upper
      have value := congrArg UInt8.toNat same
      rw [UInt8.toNat_add] at value
      simp only [UInt8.reduceToNat] at upper value
      omega
    next => exact same
  · rintro rfl
    rfl

theorem lowered_separator (text : List UInt8) : 61 ∈ text.map tolower ↔ 61 ∈ text := by
  rw [List.mem_map]
  constructor
  · rintro ⟨c, member, same⟩
    rw [(tolower_separator c).mp same] at member
    exact member
  · exact fun member => ⟨61, member, rfl⟩

/-- The last separator of a text splits it in one way. -/
theorem last_separator {α : Type} {sep : α} {first last otherFirst otherLast : List α} (absent : sep ∉ last)
    (otherAbsent : sep ∉ otherLast) :
    first ++ sep :: last = otherFirst ++ sep :: otherLast ↔ first = otherFirst ∧ last = otherLast := by
  constructor
  · intro same
    have reach {front back back' : List α} (absent : sep ∉ back) (whole : sep :: back = front ++ sep :: back') :
        front = [] ∧ back = back' := by
      cases front with
      | nil => exact ⟨rfl, (List.cons.inj whole).2⟩
      | cons c front =>
        apply absurd _ absent
        rw [(List.cons.inj whole).2]
        simp
    rcases List.append_eq_append_iff.mp same with ⟨middle, whole, rest⟩ | ⟨middle, whole, rest⟩
    · obtain ⟨rfl, same⟩ := reach absent rest
      exact ⟨by rw [whole, List.append_nil], same⟩
    · obtain ⟨rfl, same⟩ := reach otherAbsent rest
      exact ⟨by rw [whole, List.append_nil], same.symm⟩
  · rintro ⟨rfl, rfl⟩
    rfl

/-- Names without `=` keep the keys of different sections and names apart. -/
theorem makeKey_eq (separable : 61 ∉ name) (otherSeparable : 61 ∉ otherName) :
    INIReader.makeKey otherSection otherName = INIReader.makeKey sectionName name ↔
      otherSection.map tolower = sectionName.map tolower ∧ otherName.map tolower = name.map tolower := by
  unfold INIReader.makeKey
  rw [List.map_append, List.map_append, List.map_cons, List.map_cons]
  apply last_separator
  · exact fun member => otherSeparable ((lowered_separator otherName).mp member)
  · exact fun member => separable ((lowered_separator name).mp member)

/-- The key of a section alone starts the keys of the section, and of the sections whose names
go on with `=`. -/
theorem makeKey_starts (separable : 61 ∉ name) :
    INIReader.makeKey sectionName [] <+: INIReader.makeKey otherSection name ↔
      otherSection.map tolower = sectionName.map tolower ∨
        sectionName.map tolower ++ [61] <+: otherSection.map tolower := by
  unfold INIReader.makeKey
  rw [List.map_append, List.map_append, List.map_cons, List.map_cons, List.map_nil]
  have absent : 61 ∉ name.map tolower := fun member => separable ((lowered_separator name).mp member)
  constructor
  · rintro ⟨rest, same⟩
    rw [List.append_assoc] at same
    rcases List.append_eq_append_iff.mp same with ⟨middle, whole, later⟩ | ⟨middle, whole, later⟩
    · cases middle with
      | nil =>
        left
        rw [whole, List.append_nil]
      | cons c middle =>
        right
        have first : c = 61 := (List.cons.inj later).1.symm
        refine ⟨middle, ?_⟩
        rw [whole, first, List.append_assoc]
        rfl
    · cases middle with
      | nil =>
        left
        rw [whole, List.append_nil]
      | cons c middle =>
        apply absurd _ absent
        rw [(List.cons.inj later).2]
        simp [tolower]
  · intro starts
    cases starts with
    | inl same =>
      rw [same]
      exact ⟨name.map tolower, by rw [List.append_assoc]; rfl⟩
    | inr inside => exact inside.trans (List.prefix_append _ _)

/-! ### Values -/

/-- The values of one key: empty ones before the first that is not are lost. -/
def joined (values : List (List UInt8)) : List UInt8 := List.intercalate [10] (values.dropWhile (·.isEmpty))

/-- `ValueHandler` on the value of its key. -/
def appendValue (old value : List UInt8) : List UInt8 := (if old.length > 0 then old ++ [10] else old) ++ value

theorem appendValue_some {old : List UInt8} (some : old ≠ []) (values : List (List UInt8)) :
    values.foldl appendValue old = List.intercalate [10] (old :: values) := by
  induction values generalizing old with
  | nil => simp [List.intercalate]
  | cons value values ih =>
    have grown : appendValue old value = old ++ 10 :: value := by
      rw [appendValue, if_pos (List.length_pos_iff.mpr some), List.append_assoc]
      rfl
    rw [List.foldl_cons, grown, ih (by simp)]
    cases values with
    | nil => simp [List.intercalate]
    | cons next values => simp [List.intercalate]

theorem appendValue_joined (values : List (List UInt8)) : values.foldl appendValue [] = joined values := by
  induction values with
  | nil => rfl
  | cons value values ih =>
    cases value with
    | nil => exact ih
    | cons c value => exact appendValue_some (List.cons_ne_nil c value) values

/-- Whether a call is for a section and a name, whatever the case. -/
def asksFor (sectionName name : List UInt8) (call : Call) : Bool :=
  call.sectionName.map tolower == sectionName.map tolower && call.name.map tolower == name.map tolower

/-- The values of the calls with a section and a name. -/
def valuesOf (sectionName name : List UInt8) (calls : List Call) : List (List UInt8) :=
  (calls.filter (asksFor sectionName name)).map (·.value)

namespace INIReader

/-- `ValueHandler` on what its key had. -/
def store (call : Call) (old : Option (List UInt8)) : List UInt8 := appendValue (old.getD []) call.value

theorem store_fold (old : List UInt8) (calls : List Call) :
    calls.foldl (fun old call => some (store call old)) (some old) =
      some ((calls.map (·.value)).foldl appendValue old) := by
  induction calls generalizing old with
  | nil => rfl
  | cons call calls ih => exact ih (appendValue old call.value)

theorem load_values (stream : List UInt8) :
    (load (some stream)).values =
      (calls stream).foldl (fun values call => values.update (makeKey call.sectionName call.name) (store call)) .empty := by
  rw [load, iniParse_calls fun _ _ => rfl]
  rfl

theorem calls_named (stream : List UInt8) (call : Call) (member : call ∈ calls stream) : 61 ∉ call.name := by
  intro separator
  have formed := calls_formed stream call member
  exact (formed.name.unseparated 61 separator).1 rfl

theorem load_find? (stream : List UInt8) (separable : 61 ∉ name) :
    (load (some stream)).values.find? (makeKey sectionName name) =
      if valuesOf sectionName name (calls stream) = [] then none
      else some (joined (valuesOf sectionName name (calls stream))) := by
  have chooses : ∀ call ∈ calls stream,
      asksFor sectionName name call = true ↔ makeKey call.sectionName call.name = makeKey sectionName name := by
    intro call member
    rw [makeKey_eq separable (calls_named stream call member), asksFor, Bool.and_eq_true, beq_iff_eq, beq_iff_eq]
  rw [load_values, Dictionary.find?_updates chooses, Dictionary.find?_empty, valuesOf]
  cases (calls stream).filter (asksFor sectionName name) with
  | nil => rfl
  | cons call rest =>
    rw [List.map_cons, if_neg (List.cons_ne_nil _ _), ← appendValue_joined]
    exact store_fold _ rest

theorem hasSection_starts (reader : INIReader) (sectionName : List UInt8) :
    reader.hasSection sectionName = true ↔
      ∃ entry ∈ reader.values.entries, makeKey sectionName [] <+: entry.1 := by
  rw [← Dictionary.lowerBound_starts]
  cases found : reader.values.lowerBound (makeKey sectionName []) with
  | none => simp [hasSection, found]
  | some pos =>
    simp only [hasSection, found, beq_iff_eq, Option.some.injEq, exists_eq_left']
    rw [List.prefix_iff_eq_take]
    exact eq_comm

theorem load_hasSection (stream : List UInt8) (sectionName : List UInt8) :
    (load (some stream)).hasSection sectionName = true ↔
      ∃ call ∈ calls stream, call.sectionName.map tolower = sectionName.map tolower ∨
        sectionName.map tolower ++ [61] <+: call.sectionName.map tolower := by
  rw [hasSection_starts]
  constructor
  · rintro ⟨entry, member, starts⟩
    have found := Dictionary.mem_keys.mp ⟨entry.2, member⟩
    rw [load_values, Dictionary.updates_isSome] at found
    rcases found with none | ⟨call, called, same⟩
    · cases none
    · refine ⟨call, called, ?_⟩
      rw [← same] at starts
      exact (makeKey_starts (calls_named stream call called)).mp starts
  · rintro ⟨call, called, starts⟩
    have found : ((load (some stream)).values.find? (makeKey call.sectionName call.name)).isSome := by
      rw [load_values, Dictionary.updates_isSome]
      exact .inr ⟨call, called, rfl⟩
    obtain ⟨value, member⟩ := Dictionary.mem_keys.mpr found
    exact ⟨_, member, (makeKey_starts (calls_named stream call called)).mpr starts⟩

theorem load_get (stream sectionName : List UInt8) (separable : 61 ∉ name) (defaultValue : List UInt8) :
    (load (some stream)).get sectionName name defaultValue =
      if valuesOf sectionName name (calls stream) = [] then defaultValue
      else joined (valuesOf sectionName name (calls stream)) := by
  rw [get, load_find? stream separable]
  split
  · rfl
  · rfl

/-- For every file: a query finds the values that the lines with its section and name have,
joined by newlines once the first is not empty, and a section is found where some line
lies in it, or in one whose name goes on with `=`. -/
theorem load_answers (stream sectionName : List UInt8) (separable : 61 ∉ name) (defaultValue : List UInt8) :
    (load (some stream)).get sectionName name defaultValue =
        (if valuesOf sectionName name (calls stream) = [] then defaultValue
          else joined (valuesOf sectionName name (calls stream))) ∧
      ((load (some stream)).hasValue sectionName name = true ↔ valuesOf sectionName name (calls stream) ≠ []) ∧
      ((load (some stream)).hasSection sectionName = true ↔
        ∃ call ∈ calls stream, call.sectionName.map tolower = sectionName.map tolower ∨
          sectionName.map tolower ++ [61] <+: call.sectionName.map tolower) := by
  refine ⟨load_get stream sectionName separable defaultValue, ?_, load_hasSection stream sectionName⟩
  rw [hasValue, load_find? stream separable]
  split
  next none => simp [none]
  next some => simp [some]

/-- `sampleFile` has two values for `a` in `s`. -/
theorem load_answers_sample : (load (some sampleFile)).get [83] [65] [] = [98, 10, 100] ∧
    (load (some sampleFile)).hasSection [83] = true := by
  have answers := @load_answers [65] sampleFile [83] (by decide) []
  have recorded : calls sampleFile = [⟨[115], [97], [98]⟩, ⟨[115], [97], [100]⟩] := by decide
  rw [recorded] at answers
  exact ⟨answers.1, answers.2.2.mpr ⟨_, List.mem_cons_self, .inl rfl⟩⟩

end INIReader

end Yolov5Rknn
