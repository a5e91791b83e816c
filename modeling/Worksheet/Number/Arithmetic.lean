import Worksheet.Number.Written

/-! # Arithmetic

What an expression needs of its numbers: the four operations, a sign, a unit to count by, and a
value for every numeral.
-/
namespace Worksheet

class Arithmetic (α : Type) extends Add α, Sub α, Mul α, Div α, Neg α where
  unit : α
  ofNumeral : Numeral → α

/-- Doubles divide by zero to an infinity or to no number. -/
instance : Arithmetic Float where
  unit := 1.0
  ofNumeral := Number.ofNumeral

end Worksheet
