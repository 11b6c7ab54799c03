import Yolov5Rknn.Proofs.IniLayout
import Yolov5Rknn.Proofs.ReaderValues
import Mathlib.Data.Nat.Digits.Defs
import Mathlib.Data.Nat.Digits.Lemmas

/-! An integer written to a file in decimal is the integer `GetInteger` reads from it. -/

namespace Yolov5Rknn
open Ini Trimming

variable {digits : List Nat} {rest : List UInt8} {c : UInt8}

/-! ### Decimal text -/

def digitByte (digit : Nat) : UInt8 := UInt8.ofNat (48 + digit)

def decimalNat (n : Nat) : List UInt8 := if n = 0 then [48] else (Nat.digits 10 n).reverse.map digitByte

def decimal (n : Int) : List UInt8 := if n < 0 then 45 :: decimalNat n.natAbs else decimalNat n.natAbs

/-- What fits into `long`. -/
def saturate (n : Int) : Int := max longMin (min longMax n)

/-- What may follow a number in the value of its key. -/
def Ended (rest : List UInt8) : Prop := ∀ c tail, rest = c :: tail → isspace c = true

theorem digitByte_toNat {digit : Nat} (small : digit < 10) : (digitByte digit).toNat = 48 + digit := by
  rw [digitByte, UInt8.toNat_ofNat']
  omega

theorem digitValue_digitByte {digit : Nat} (small : digit < 10) : digitValue (digitByte digit) = digit := by
  unfold digitValue
  rw [if_pos, digitByte_toNat small]
  · omega
  · simp only [Bool.and_eq_true, decide_eq_true_eq, UInt8.le_iff_toNat_le, digitByte_toNat small, UInt8.reduceToNat]
    omega

theorem space_low (space : isspace c = true) : c.toNat ≤ 32 := by
  simp only [isspace, Bool.or_eq_true, Bool.and_eq_true, beq_iff_eq, decide_eq_true_eq, UInt8.le_iff_toNat_le,
    ← UInt8.toNat_inj, UInt8.reduceToNat] at space
  omega

theorem tolower_low (low : c.toNat < 65) : tolower c = c := by
  rw [tolower, if_neg]
  simp only [Bool.and_eq_true, decide_eq_true_eq, UInt8.le_iff_toNat_le, UInt8.reduceToNat]
  omega

theorem digitValue_space (space : isspace c = true) : digitValue c = 36 := by
  have low := space_low space
  rw [digitValue, tolower_low (by omega), if_neg, if_neg]
  · simp only [Bool.and_eq_true, decide_eq_true_eq, UInt8.le_iff_toNat_le, UInt8.reduceToNat]
    omega
  · simp only [Bool.and_eq_true, decide_eq_true_eq, UInt8.le_iff_toNat_le, UInt8.reduceToNat]
    omega

theorem digitsOf_digits {base : Nat} (small : ∀ digit ∈ digits, digit < 10 ∧ digit < base) (limit : base ≤ 36)
    (ended : Ended rest) : digitsOf base (digits.map digitByte ++ rest) = digits := by
  induction digits with
  | nil =>
    cases rest with
    | nil => rfl
    | cons c tail =>
      have value := digitValue_space (ended c tail rfl)
      simp only [digitsOf, List.map_nil, List.nil_append, List.map_cons, value]
      exact List.takeWhile_cons_of_neg (by simp; omega)
  | cons digit digits ih =>
    obtain ⟨decimal, below⟩ := small digit List.mem_cons_self
    have later := ih fun other member => small other (.tail _ member)
    rw [digitsOf] at later ⊢
    simp only [List.map_cons, List.cons_append, digitValue_digitByte decimal]
    rw [List.takeWhile_cons_of_pos (by simpa using below), later]

theorem ofDigits_reverse (base : Nat) (digits : List Nat) : ofDigits base digits.reverse = Nat.ofDigits base digits := by
  rw [ofDigits, List.foldl_reverse, Nat.ofDigits_eq_foldr]
  congr 1
  funext digit value
  rw [Nat.cast_id]
  ring

/-! ### `strtol` -/

/-- The decimal digits of a number that is not 0. -/
theorem digits_split {n : Nat} (positive : n ≠ 0) :
    ∃ digit digits, (Nat.digits 10 n).reverse = digit :: digits ∧ digit ≠ 0 ∧
      (∀ other ∈ digit :: digits, other < 10) ∧ ofDigits 10 (digit :: digits) = n := by
  have value : ofDigits 10 (Nat.digits 10 n).reverse = n := by rw [ofDigits_reverse, Nat.ofDigits_digits]
  have small : ∀ other ∈ (Nat.digits 10 n).reverse, other < 10 := fun other member =>
    Nat.digits_lt_base (by decide) (List.mem_reverse.mp member)
  have first := Nat.getLast_digit_ne_zero 10 positive
  rw [← List.head_reverse (List.reverse_ne_nil_iff.mpr (Nat.digits_ne_nil_iff_ne_zero.mpr positive))] at first
  cases same : (Nat.digits 10 n).reverse with
  | nil => exact absurd (List.reverse_eq_nil_iff.mp same) (Nat.digits_ne_nil_iff_ne_zero.mpr positive)
  | cons digit digits =>
    simp only [same, List.head_cons] at first value small
    exact ⟨digit, digits, rfl, first, small, value⟩

theorem strtolBase_zero (ended : Ended rest) : strtolBase (48 :: rest) = (8, 48 :: rest) := by
  cases rest with
  | nil => rfl
  | cons c tail =>
    have space := ended c tail rfl
    have plain : (tolower c == 120) = false := by
      have low := space_low space
      rw [tolower_low (by omega), beq_eq_false_iff_ne]
      rintro rfl
      simp only [UInt8.reduceToNat] at low
      omega
    cases tail with
    | nil => rfl
    | cons d tail => simp only [strtolBase, plain, Bool.false_and, Bool.false_eq_true, ↓reduceIte]

theorem strtolBase_decimal (notZero : c ≠ 48) : strtolBase (c :: rest) = (10, c :: rest) := by
  unfold strtolBase
  split
  next same => exact absurd (List.cons.inj same).1 notZero
  next same => exact absurd (List.cons.inj same).1 notZero
  next => rfl

theorem strtolSign_plain (plain : c ≠ 45 ∧ c ≠ 43) : strtolSign (c :: rest) = (false, c :: rest) := by
  unfold strtolSign
  split
  next same => exact absurd (List.cons.inj same).1 plain.1
  next same => exact absurd (List.cons.inj same).1 plain.2
  next => rfl

/-- The magnitude is read back, in whatever base it seems to be. -/
theorem decimalNat_read (n : Nat) (ended : Ended rest) :
    ∃ base digit digits, strtolBase (decimalNat n ++ rest) = (base, decimalNat n ++ rest) ∧
      digitsOf base (decimalNat n ++ rest) = digit :: digits ∧ ofDigits base (digit :: digits) = n := by
  by_cases zero : n = 0
  · refine ⟨8, 0, [], ?_, ?_, ?_⟩
    · rw [decimalNat, if_pos zero]
      exact strtolBase_zero ended
    · rw [decimalNat, if_pos zero]
      exact @digitsOf_digits [0] rest 8 (by decide) (by decide) ended
    · exact zero.symm
  · obtain ⟨digit, digits, same, first, small, value⟩ := digits_split zero
    refine ⟨10, digit, digits, ?_, ?_, value⟩
    · rw [decimalNat, if_neg zero, same]
      apply strtolBase_decimal
      intro zeroByte
      have number := digitByte_toNat (small digit List.mem_cons_self)
      rw [zeroByte] at number
      simp only [UInt8.reduceToNat] at number
      omega
    · rw [decimalNat, if_neg zero, same]
      exact digitsOf_digits (fun other member => ⟨small other member, small other member⟩) (by decide) ended

/-- The first byte of a magnitude is a digit. -/
theorem decimalNat_front (n : Nat) : ∃ digit tail, digit < 10 ∧ decimalNat n = digitByte digit :: tail := by
  by_cases zero : n = 0
  · exact ⟨0, [], by decide, by rw [decimalNat, if_pos zero]; rfl⟩
  · obtain ⟨digit, digits, same, _, small, _⟩ := digits_split zero
    refine ⟨digit, digits.map digitByte, small digit List.mem_cons_self, ?_⟩
    rw [decimalNat, if_neg zero, same]
    rfl

theorem digitByte_plain {digit : Nat} (small : digit < 10) :
    isspace (digitByte digit) = false ∧ digitByte digit ≠ 45 ∧ digitByte digit ≠ 43 := by
  have value := digitByte_toNat small
  refine ⟨?_, ?_, ?_⟩
  · apply Bool.eq_false_iff.mpr
    intro space
    have low := space_low space
    omega
  · intro same
    simp only [same, UInt8.reduceToNat] at value
    omega
  · intro same
    simp only [same, UInt8.reduceToNat] at value
    omega

/-- `strtol` reads the decimal text of an integer, up to what `long` can hold. -/
theorem strtol_decimal (n : Int) (ended : Ended rest) : strtol (decimal n ++ rest) = some (saturate n) := by
  obtain ⟨base, digit, digits, based, found, value⟩ := decimalNat_read n.natAbs ended
  obtain ⟨first, tail, small, front⟩ := decimalNat_front n.natAbs
  obtain ⟨unspaced, unsigned⟩ := digitByte_plain small
  by_cases negative : n < 0
  · have text : decimal n = 45 :: decimalNat n.natAbs := by rw [decimal, if_pos negative]
    have skipped : lskip (decimal n ++ rest) = decimal n ++ rest := by
      rw [text]
      exact List.dropWhile_cons_of_neg (by decide)
    have signed : strtolSign (decimal n ++ rest) = (true, decimalNat n.natAbs ++ rest) := by
      rw [text]
      rfl
    simp only [strtol, skipped, signed, based, found, value, ↓reduceIte, saturate]
    rw [show -(n.natAbs : Int) = n by omega]
  · have text : decimal n = decimalNat n.natAbs := by rw [decimal, if_neg negative]
    have skipped : lskip (decimal n ++ rest) = decimal n ++ rest := by
      rw [text, front]
      exact List.dropWhile_cons_of_neg (by rw [unspaced]; simp)
    have signed : strtolSign (decimal n ++ rest) = (false, decimalNat n.natAbs ++ rest) := by
      rw [text, front]
      exact strtolSign_plain unsigned
    simp only [strtol, skipped, signed, based, found, value, ↓reduceIte, Bool.false_eq_true, saturate]
    rw [show (n.natAbs : Int) = n by omega]

/-! ### Written and read -/

variable {entries : List Meaning} {lines : List (List UInt8)} {mark sectionName name : List UInt8}

theorem joined_first {values more : List (List UInt8)} {value : List UInt8}
    (first : values.dropWhile (·.isEmpty) = value :: more) :
    ∃ rest, joined values = value ++ rest ∧ Ended rest := by
  rw [joined, first]
  cases more with
  | nil => exact ⟨[], by simp [List.intercalate], fun _ _ same => by cases same⟩
  | cons next more =>
    refine ⟨10 :: List.intercalate [10] (next :: more), by simp [List.intercalate], ?_⟩
    intro c tail same
    rw [← (List.cons.inj same).1]
    rfl

/-- An integer that a document gives in decimal under some section and name, as the first value
there that is not empty, is read from any layout of the document, whatever the default. -/
theorem integer_read (laid : LaidOut entries mark lines) (separable : 61 ∉ name) {n : Int} {more : List (List UInt8)}
    (given : (valuesOf sectionName name (callsOf [] [] entries)).dropWhile (·.isEmpty) = decimal n :: more)
    (defaultValue : Int) :
    (INIReader.load (some (document mark lines))).parseError = 0 ∧
      (INIReader.load (some (document mark lines))).getInteger sectionName name defaultValue = saturate n := by
  obtain ⟨rest, whole, ended⟩ := joined_first given
  have some : valuesOf sectionName name (callsOf [] [] entries) ≠ [] := by
    intro none
    rw [none] at given
    cases given
  constructor
  · rw [INIReader.load, iniParse_calls fun _ _ => rfl, laid.meanings, laid.clean]
    rfl
  · have found := INIReader.load_get (document mark lines) sectionName separable []
    rw [calls, laid.meanings, if_neg some, whole] at found
    rw [INIReader.getInteger, found, strtol_decimal n ended]
    rfl

/-- `a=-7`, in no section. -/
theorem integerLayout : LaidOut [.pair [97] [45, 55]] [] [[97, 61, 45, 55]] where
  layout := by
    have none : Blank isspace [] := List.all_eq_true.mp rfl
    have plain : NoComment [45, 55] := ((clear_iff [] false [45, 55]).mp ⟨rfl, rfl, trivial⟩).2.1
    have plainName : NoComment [97] := ((clear_iff [] false [97]).mp ⟨rfl, trivial⟩).2.1
    apply Layout.cons
    · exact @Prints.pair _ [] 97 [] [] 61 [] [45, 55] [] none (fun _ => rfl) (.of_kept (by decide)) (by simp) plainName
        (by decide) none (.inl rfl) none (.of_kept (by decide)) plain (fun some => absurd rfl some) (.blank none)
    exact .nil _
  marks := .inl rfl
  unmarked := fun _ => by decide
  fits := by decide

theorem integer_read_sample : (INIReader.load (some (document [] [[97, 61, 45, 55]]))).getInteger [] [97] 4 = -7 :=
  (integer_read integerLayout (by decide) (show _ = decimal (-7) :: [] from by decide) 4).2

end Yolov5Rknn
