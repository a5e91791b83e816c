import Worksheet.Text.Blank

/-! # Shortest decimals

A positive binary number `m * 2 ^ e` of 53 bits stands for every real number that rounds to it.
Among the decimals in that interval the shortest are taken, of those the nearest to the number
itself, and at a tie the even one. The ends of the interval belong to it when `m` is even. Below a
power of two the neighbour is half as far, save at the least exponent.
-/
namespace Worksheet.Number

/-- A decimal by its significant digits, the first of which has weight `10 ^ exponent`. -/
structure Decimal where
  digits : Text
  exponent : Int
deriving DecidableEq, Repr

def power (base : Nat) (e : Int) : Nat × Nat :=
  if 0 ≤ e then (base.pow e.toNat, 1) else (1, base.pow (-e).toNat)

def digitsOf (n : Nat) : Text :=
  Nat.toDigits 10 n

def leadingExponent (a b : Nat) : Int :=
  let guess : Int := (digitsOf a).length - (digitsOf b).length
  let (num, den) := power 10 guess
  if num * b ≤ a * den then guess else guess - 1

/-- The numbers that round to `centre`, in the same unit. -/
structure Interval where
  low : Nat
  centre : Nat
  high : Nat
  closed : Bool

def leastNormal : Nat := 0x10000000000000

/-- The interval of `m * 2 ^ e` in units of `2 ^ (e - 2)`. -/
def Interval.around (m : Nat) (e : Int) : Interval where
  low := 4 * m - if m = leastNormal ∧ -1074 < e then 1 else 2
  centre := 4 * m
  high := 4 * m + 2
  closed := m % 2 = 0

def Interval.reaches (i : Interval) (a b : Nat) : Bool :=
  if i.closed then a ≤ b else a < b

/-- The multiple of `step` to write for the interval scaled by `scale`, if one lies in it. -/
def Interval.multiple? (i : Interval) (scale step : Nat) : Option Nat :=
  let q := i.centre * scale / step
  let below := i.reaches (i.low * scale) (q * step)
  let above := i.reaches ((q + 1) * step) (i.high * scale)
  if below && above then
    let twice := 2 * (i.centre * scale)
    let middle := (2 * q + 1) * step
    some (if twice < middle then q else if middle < twice then q + 1 else q + q % 2)
  else if below then some q
  else if above then some (q + 1)
  else none

def decimalOf (q : Nat) (p : Int) : Decimal :=
  let digits := digitsOf q
  ⟨(digits.reverse.dropWhile (· = '0')).reverse, p + digits.length - 1⟩

/-- Seventeen digits always suffice. -/
def maxDigits : Nat := 17

def shortest (m : Nat) (e : Int) : Decimal :=
  let interval := Interval.around m e
  let unit := power 2 (e - 2)
  let lead := leadingExponent (interval.centre * unit.1) unit.2
  let grid (k : Nat) : Option Decimal :=
    let p := lead - k
    let ten := power 10 p
    (interval.multiple? (unit.1 * ten.2) (ten.1 * unit.2)).map (decimalOf · p)
  ((List.range maxDigits).findSome? grid).getD ⟨digitsOf m, e⟩

example : shortest 7205759403792794 (-56) = ⟨['1'], -1⟩ := by decide +kernel
example : shortest 1 (-1074) = ⟨['5'], -324⟩ := by decide +kernel

end Worksheet.Number
