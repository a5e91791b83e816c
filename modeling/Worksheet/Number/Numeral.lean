import Worksheet.Text.Blank

/-! # Numerals

A numeral is an optional sign, decimal digits with at most one point among them or at an end, and
an optional exponent with an optional sign. Only ASCII digits count.
-/
namespace Worksheet

/-- The significand times a power of ten, negated or not. -/
structure Numeral where
  negative : Bool
  significand : Nat
  exponent : Int
deriving DecidableEq, Repr

namespace Numeral

def natOfDigits (digits : Text) : Nat :=
  digits.foldl (fun n d => 10 * n + (d.toNat - '0'.toNat)) 0

def readSign : Text → Bool × Text
  | '-' :: rest => (true, rest)
  | '+' :: rest => (false, rest)
  | s => (false, s)

def readDigits (s : Text) : Text × Text :=
  (s.takeWhile Char.isDigit, s.dropWhile Char.isDigit)

def readFraction : Text → Text × Text
  | '.' :: rest => readDigits rest
  | s => ([], s)

def readExponent? : Text → Option Int
  | [] => some 0
  | c :: rest =>
    let (negative, digits) := readSign rest
    if (c = 'e' ∨ c = 'E') ∧ digits ≠ [] ∧ digits.all Char.isDigit then
      some (if negative then -natOfDigits digits else natOfDigits digits)
    else none

def ofText? (s : Text) : Option Numeral :=
  let (negative, s) := readSign s
  let (whole, s) := readDigits s
  let (fraction, s) := readFraction s
  if whole = [] ∧ fraction = [] then none
  else (readExponent? s).map fun e =>
    ⟨negative, natOfDigits (whole ++ fraction), e - fraction.length⟩

example : ofText? "1.50".toList = some ⟨false, 150, -2⟩ := by decide
example : ofText? "+.5E-3".toList = some ⟨false, 5, -4⟩ := by decide
example : ofText? "1e".toList = none ∧ ofText? ".".toList = none := by decide

end Numeral

end Worksheet
