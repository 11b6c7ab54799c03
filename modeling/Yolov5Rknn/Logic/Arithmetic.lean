import Mathlib.Algebra.Field.Rat
import Mathlib.Algebra.Order.Ring.Rat

/-! The operations a program has on its numbers. No law is assumed: an ordered
field has them, and so has a rounding arithmetic with values that compare to
nothing. -/

namespace Yolov5Rknn

class Arithmetic (F : Type) extends
    Zero F, One F, Add F, Sub F, Mul F, Div F, NatCast F, IntCast F, LT F, LE F where
  decidableLT (a b : F) : Decidable (a < b)
  decidableLE (a b : F) : Decidable (a ≤ b)

namespace Arithmetic

variable {F : Type}

instance [Arithmetic F] (a b : F) : Decidable (a < b) := decidableLT a b

instance [Arithmetic F] (a b : F) : Decidable (a ≤ b) := decidableLE a b

/-- Numerals are converted integers. -/
instance literal [Arithmetic F] (n : Nat) : OfNat F (n + 2) := ⟨((n + 2 : Nat) : F)⟩

/-- Exact arithmetic. -/
abbrev ofField [Field F] [order : LinearOrder F] : Arithmetic F where
  toLT := order.toLT
  toLE := order.toLE
  decidableLT := order.toDecidableLT
  decidableLE := order.toDecidableLE

instance rational : Arithmetic ℚ := .ofField

end Arithmetic

/-- No two numbers compare both ways; a value that compares to nothing does not. -/
def Compares (F : Type) [Arithmetic F] : Prop := ∀ a b : F, a ≤ b → ¬b < a

theorem compares_ofField {F : Type} [Field F] [LinearOrder F] : @Compares F .ofField :=
  fun _ _ => not_lt_of_ge

end Yolov5Rknn
