import Worksheet.Number.Numeral
import Worksheet.Number.Shortest

/-! # Written numbers

A double is written with the fewest digits that read back. Its first digit's exponent decides the
form: positional, with at least one digit after the point, from -4 up to 15, and otherwise one
digit before the point and an exponent of at least two digits with its sign. A result is shown
as a plain integer whenever its value is one.
-/
namespace Worksheet.Number

open Float.Model (UnpackedFloat)

def infinity : Text := "inf".toList

def notANumber : Text := "nan".toList

def withSign (s : UnpackedFloat.Sign) (text : Text) : Text :=
  match s with
  | .positive => text
  | .negative => '-' :: text

def writeExponent (e : Int) : Text :=
  let digits := digitsOf e.natAbs
  'e' :: (if e < 0 then '-' else '+') :: List.replicate (2 - digits.length) '0' ++ digits

def Decimal.positional (d : Decimal) : Text :=
  if d.exponent < 0 then
    '0' :: '.' :: List.replicate (-d.exponent - 1).toNat '0' ++ d.digits
  else
    let whole := d.exponent.toNat + 1
    let fraction := d.digits.drop whole
    d.digits.take whole ++ List.replicate (whole - d.digits.length) '0' ++
      '.' :: if fraction.isEmpty then ['0'] else fraction

def Decimal.scientific (d : Decimal) : Text :=
  let fraction := d.digits.drop 1
  d.digits.take 1 ++ (if fraction.isEmpty then [] else '.' :: fraction) ++ writeExponent d.exponent

def Decimal.text (d : Decimal) : Text :=
  if -4 ≤ d.exponent ∧ d.exponent < 16 then d.positional else d.scientific

def text (x : Float) : Text :=
  match x.toModel.unpack with
  | .infinity s => withSign s infinity
  | .notANumber => notANumber
  | .zero s => withSign s "0.0".toList
  | .finite s m e _ => withSign s (shortest m e).text

def natural? (m : Nat) (e : Int) : Option Nat :=
  let (num, den) := power 2 e
  if m * num % den = 0 then some (m * num / den) else none

/-- A result as it is shown: integers exactly and without a point, zero without a sign. -/
def shown (x : Float) : Text :=
  match x.toModel.unpack with
  | .zero _ => ['0']
  | .finite s m e _ =>
    match natural? m e with
    | some n => withSign s (digitsOf n)
    | none => text x
  | _ => text x

def ofNumeral (n : Numeral) : Float :=
  let x := Float.ofScientific n.significand (n.exponent < 0) n.exponent.natAbs
  if n.negative then -x else x

/-- Reads every written double, and every numeral. -/
def ofText? (s : Text) : Option Float :=
  if s = notANumber then some (0.0 / 0.0)
  else if s = infinity then some (1.0 / 0.0)
  else if s = '-' :: infinity then some (-1.0 / 0.0)
  else (Numeral.ofText? s).map ofNumeral

end Worksheet.Number
