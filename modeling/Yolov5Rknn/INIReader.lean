import Yolov5Rknn.Ini
import Yolov5Rknn.Logic.Dictionary
import Mathlib.Data.Int.Init

/-! `INIReader`. Strings are their bytes, `_values` is the dictionary of the lowered keys,
and `long` has 64 bits. -/

namespace Yolov5Rknn

/-- `char_traits<char>` compares bytes as unsigned. -/
instance byteOrder : LinearOrder UInt8 where
  le_refl := UInt8.le_refl
  le_trans := fun _ _ _ => UInt8.le_trans
  le_antisymm := fun _ _ => UInt8.le_antisymm
  le_total := UInt8.le_total
  lt_iff_le_not_ge := fun a b => by rw [UInt8.le_iff_toNat_le, UInt8.le_iff_toNat_le, UInt8.lt_iff_toNat_lt]; omega
  toDecidableLE := inferInstance

/-- The bytes of a literal of the source. -/
def bytes (literal : String) : List UInt8 := literal.toList.map fun c => UInt8.ofNat c.toNat

/-- `tolower` of the C locale. -/
def tolower (c : UInt8) : UInt8 := if 65 ≤ c && c ≤ 90 then c + 32 else c

/-! ### `strtol` -/

/-- What a byte is worth as a digit, or 36. -/
def digitValue (c : UInt8) : Nat :=
  if 48 ≤ c && c ≤ 57 then c.toNat - 48
  else if 97 ≤ tolower c && tolower c ≤ 122 then (tolower c).toNat - 87
  else 36

def longMax : Int := 9223372036854775807
def longMin : Int := -9223372036854775808

/-- The digits at the start of a text, and the value they denote. -/
def digitsOf (base : Nat) (text : List UInt8) : List Nat := (text.map digitValue).takeWhile (· < base)

def ofDigits (base : Nat) (digits : List Nat) : Nat := digits.foldl (fun value digit => value * base + digit) 0

def strtolSign : List UInt8 → Bool × List UInt8
  | 45 :: rest => (true, rest)
  | 43 :: rest => (false, rest)
  | text => (false, text)

/-- What base 0 stands for, and where the digits start. -/
def strtolBase : List UInt8 → Nat × List UInt8
  | 48 :: x :: digit :: rest =>
    if tolower x == 120 && digitValue digit < 16 then (16, digit :: rest) else (8, 48 :: x :: digit :: rest)
  | 48 :: rest => (8, 48 :: rest)
  | text => (10, text)

/-- `strtol` in base 0. None where `end` is `value`. -/
def strtol (text : List UInt8) : Option Int :=
  let (negative, unsigned) := strtolSign (Ini.lskip text)
  let (base, digits) := strtolBase unsigned
  match digitsOf base digits with
  | [] => none
  | digit :: rest =>
    let magnitude : Int := ofDigits base (digit :: rest)
    some (max longMin (min longMax (if negative then -magnitude else magnitude)))

/-! ### The reader -/

structure INIReader where
  error : Int
  values : Dictionary (List UInt8) (List UInt8)

namespace INIReader

def makeKey (sectionName name : List UInt8) : List UInt8 := (sectionName ++ 61 :: name).map tolower

def valueHandler (values : Dictionary (List UInt8) (List UInt8)) (call : Ini.Call) :
    Dictionary (List UInt8) (List UInt8) × Bool :=
  -- `operator[]` makes the value empty where there is none
  (values.update (makeKey call.sectionName call.name) fun old =>
    let value := old.getD []
    (if value.length > 0 then value ++ [10] else value) ++ call.value, true)

/-- The constructor from a filename. -/
def load (file : Option (List UInt8)) : INIReader :=
  let (error, values) := Ini.iniParse valueHandler .empty file
  { error, values }

variable (reader : INIReader)

def parseError : Int := reader.error

def get (sectionName name defaultValue : List UInt8) : List UInt8 :=
  (reader.values.find? (makeKey sectionName name)).getD defaultValue

def getInteger (sectionName name : List UInt8) (defaultValue : Int) : Int :=
  (strtol (reader.get sectionName name [])).getD defaultValue

/-- `strtod` gives none where `end` is `value`. -/
def getReal {Double : Type} (strtod : List UInt8 → Option Double) (sectionName name : List UInt8)
    (defaultValue : Double) : Double :=
  (strtod (reader.get sectionName name [])).getD defaultValue

def getBoolean (sectionName name : List UInt8) (defaultValue : Bool) : Bool :=
  let valstr := (reader.get sectionName name []).map tolower
  if valstr = bytes "true" ∨ valstr = bytes "yes" ∨ valstr = bytes "on" ∨ valstr = bytes "1" then true
  else if valstr = bytes "false" ∨ valstr = bytes "no" ∨ valstr = bytes "off" ∨ valstr = bytes "0" then false
  else defaultValue

def hasSection (sectionName : List UInt8) : Bool :=
  let key := makeKey sectionName []
  match reader.values.lowerBound key with
  | none => false
  | some pos => pos.1.take key.length == key

def hasValue (sectionName name : List UInt8) : Bool := (reader.values.find? (makeKey sectionName name)).isSome

end INIReader

end Yolov5Rknn
