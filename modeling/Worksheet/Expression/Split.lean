import Worksheet.Expression.Operator

/-! # Splits

A text is split at an operator either at its first occurrence, or at the last occurrence that has
an operand on its left. The loosest operator that gives a split decides how a text is read.

Both searches move a cursor through the text. What lies before the cursor is held reversed.
-/
namespace Worksheet.Expression
open Text

abbrev Halves := Text × Text

def cutFirst (op : BinaryOp) : (before after : Text) → Option Halves
  | _, [] => none
  | before, c :: after =>
    if op.occursAt before.head? c after.head? then
      if isBlank before || isBlank after then none else some (before.reverse, after)
    else cutFirst op (c :: before) after

def splitFirst (op : BinaryOp) (s : Text) : Option Halves :=
  cutFirst op [] s

/-- Whether an operand ends where a reversed text begins: behind white space there is a character
that is no operator, or a doubled sign. -/
def endsOperand (before : Text) : Bool :=
  match before.dropWhile isSpace with
  | [] => false
  | c :: rest =>
    if c ∈ ['+', '-', '*', '/'] then (c = '+' || c = '-') && rest.head? = some c else true

def cutLast (op : BinaryOp) : (before after : Text) → Option Halves
  | [], _ => none
  | c :: before, after =>
    if op.occursAt before.head? c after.head? then
      if isBlank after then none
      else if endsOperand before then some (before.reverse, after)
      else cutLast op before (c :: after)
    else cutLast op before (c :: after)

/-- The split at the last occurrence with an operand on its left, unless nothing but white space
follows the last occurrence of all. An operator without such an operand is a sign. -/
def splitLast (op : BinaryOp) (s : Text) : Option Halves :=
  cutLast op s.reverse []

def splitAt (op : BinaryOp) (s : Text) : Option Halves :=
  match op.grouping with
  | .fromRight => splitFirst op s
  | .fromLeft => splitLast op s

structure Split where
  op : BinaryOp
  left : Text
  right : Text
deriving DecidableEq, Repr

/-- The split at the loosest operator that gives one. -/
def split? (s : Text) : Option Split :=
  BinaryOp.all.findSome? fun op => (splitAt op s).map fun h => ⟨op, h.1, h.2⟩

theorem cutFirst_eq {op : BinaryOp} {before after : Text} {h : Halves}
    (hs : cutFirst op before after = some h) :
    before.reverse ++ after = h.1 ++ op.char :: h.2 := by
  fun_induction cutFirst op before after with
  | case1 => simp at hs
  | case2 => simp at hs
  | case3 before c after hc _ =>
    obtain rfl := Option.some.inj hs
    rw [BinaryOp.eq_char_of_occursAt hc]
  | case4 before c after _ ih => simpa using ih hs

theorem cutLast_eq {op : BinaryOp} {before after : Text} {h : Halves}
    (hs : cutLast op before after = some h) :
    before.reverse ++ after = h.1 ++ op.char :: h.2 := by
  fun_induction cutLast op before after with
  | case1 => simp at hs
  | case2 => simp at hs
  | case3 c before after hc _ _ =>
    obtain rfl := Option.some.inj hs
    simp [BinaryOp.eq_char_of_occursAt hc]
  | case4 c before after _ _ _ ih => simpa using ih hs
  | case5 c before after _ ih => simpa using ih hs

/-- A split takes out one operator and nothing else. -/
theorem splitAt_eq {op : BinaryOp} {s : Text} {h : Halves} (hs : splitAt op s = some h) :
    s = h.1 ++ op.char :: h.2 := by
  unfold splitAt at hs
  split at hs
  · simpa using cutFirst_eq hs
  · simpa using cutLast_eq hs

theorem splitAt_of_split? {s : Text} {p : Split} (h : split? s = some p) :
    splitAt p.op s = some (p.left, p.right) := by
  obtain ⟨op, -, hop⟩ := List.exists_of_findSome?_eq_some h
  obtain ⟨halves, hh, rfl⟩ := Option.map_eq_some_iff.mp hop
  exact hh

theorem split?_eq {s : Text} {p : Split} (h : split? s = some p) :
    s = p.left ++ p.op.char :: p.right :=
  splitAt_eq (splitAt_of_split? h)

theorem length_lt_of_split? {s : Text} {p : Split} (h : split? s = some p) :
    p.left.length < s.length ∧ p.right.length < s.length := by
  have := congrArg List.length (split?_eq h)
  simp only [List.length_append, List.length_cons] at this
  omega

end Worksheet.Expression
