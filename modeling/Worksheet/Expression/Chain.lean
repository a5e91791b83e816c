import Worksheet.Expression.Split

/-! # Chains

A chain is a run of one operator at the top of a text. It is taken apart from the side at which
the operator splits, as long as what remains splits at the same operator. Its operands are listed
in text order, and their values are combined as the grouping says.
-/
namespace Worksheet.Expression

structure Operands where
  first : Text
  later : List Text
deriving DecidableEq, Repr

/-- The operands of the chain of `op` that a text is; a text that is no such chain is one operand
by itself. -/
def operands (op : BinaryOp) (s : Text) : Operands :=
  match h : split? s with
  | none => ⟨s, []⟩
  | some p =>
    have := length_lt_of_split? h
    if p.op = op then
      match op.grouping with
      | .fromRight =>
        let rest := operands op p.right
        ⟨p.left, rest.first :: rest.later⟩
      | .fromLeft =>
        let rest := operands op p.left
        ⟨rest.first, rest.later ++ [p.right]⟩
    else ⟨s, []⟩
termination_by s.length
decreasing_by all_goals omega

/-- Applies `f` between neighbours, beginning at the end that the grouping names. -/
def combine {α : Type} (f : α → α → α) : Grouping → α → List α → α
  | .fromLeft, first, later => later.foldl f first
  | .fromRight, first, [] => first
  | .fromRight, first, second :: later => f first (combine f .fromRight second later)

end Worksheet.Expression
