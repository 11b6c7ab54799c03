import Yolov5Rknn.Logic.Arithmetic
import Mathlib.Algebra.Order.Field.Basic

/-! The exact numbers of an ordered field and a value that is none. Operations on it
give it back and comparisons with it fail; so does a division by zero. -/

namespace Yolov5Rknn

inductive WithNaN (K : Type) where
  | number (value : K)
  | nan
  deriving DecidableEq

namespace WithNaN

variable {K : Type}

def lift (operation : K → K → K) : WithNaN K → WithNaN K → WithNaN K
  | .number a, .number b => .number (operation a b)
  | _, _ => .nan

def compare (relation : K → K → Prop) : WithNaN K → WithNaN K → Prop
  | .number a, .number b => relation a b
  | _, _ => False

def divide [DivisionRing K] [DecidableEq K] : WithNaN K → WithNaN K → WithNaN K
  | .number a, .number b => if b = 0 then .nan else .number (a / b)
  | _, _ => .nan

def decideCompare (relation : K → K → Prop) [DecidableRel relation] :
    (a b : WithNaN K) → Decidable (compare relation a b)
  | .number a, .number b => inferInstanceAs (Decidable (relation a b))
  | .number _, .nan => isFalse id
  | .nan, .number _ => isFalse id
  | .nan, .nan => isFalse id

variable [Field K] [order : LinearOrder K]

instance arithmetic : Arithmetic (WithNaN K) where
  zero := .number 0
  one := .number 1
  add := lift (· + ·)
  sub := lift (· - ·)
  mul := lift (· * ·)
  div := divide
  natCast n := .number n
  intCast n := .number n
  lt := compare order.lt
  le := compare order.le
  decidableLT := decideCompare order.lt
  decidableLE := decideCompare order.le

variable {a b : WithNaN K} {x y : K}

@[simp] theorem number_lt : (number x : WithNaN K) < number y ↔ x < y := Iff.rfl
@[simp] theorem number_le : (number x : WithNaN K) ≤ number y ↔ x ≤ y := Iff.rfl
@[simp] theorem number_add : (number x : WithNaN K) + number y = number (x + y) := rfl
@[simp] theorem number_sub : (number x : WithNaN K) - number y = number (x - y) := rfl
@[simp] theorem number_mul : (number x : WithNaN K) * number y = number (x * y) := rfl
@[simp] theorem not_lt_nan : ¬a < nan := by cases a <;> exact id
@[simp] theorem not_nan_lt : ¬(nan : WithNaN K) < b := id
@[simp] theorem not_le_nan : ¬a ≤ nan := by cases a <;> exact id
@[simp] theorem not_nan_le : ¬(nan : WithNaN K) ≤ b := id

theorem number_div (nonzero : y ≠ 0) : (number x : WithNaN K) / number y = number (x / y) :=
  if_neg nonzero

omit [Field K] order in
theorem number_ite (condition : Prop) [Decidable condition] :
    (if condition then number x else number y : WithNaN K) = number (if condition then x else y) := by
  split <;> rfl

/-- Only numbers are below a value. -/
theorem le_iff : a ≤ b ↔ a ≠ nan ∧ b ≠ nan ∧ ¬b < a := by
  cases a <;> cases b <;> simp

/-- Exact arithmetic moves a number that is above another one. -/
theorem lt_add_of_lt [IsStrictOrderedRing K] {step : K} (positive : 0 < step) (below : a < b) :
    a < a + .number step := by
  cases a with
  | nan => exact absurd below not_nan_lt
  | number value => exact lt_add_of_pos_right value positive

end WithNaN
end Yolov5Rknn
