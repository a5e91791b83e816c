import Worksheet.Text.Letter
import Worksheet.Expression.Chain
import Worksheet.Expression.Operand
import Worksheet.Variables

/-! # Values of expressions

An expression is evaluated over variables, which its steps change. The operands of a chain are
evaluated in text order, each seeing the steps before it, and then combined. A failure stops the
evaluation and leaves the steps that were made before it.

Signs and chains nest: a sign is one level, and a chain is two, itself and its operands. The
nesting is bounded, the length of a chain is not. The bound is one for all calls that are open at
once, so an evaluation has fewer levels when other calls are around it.
-/
namespace Worksheet.Expression
open Text

/-- Why an expression has no value. -/
inductive Failure
  | unknownVariable (name expression : Text)
  | notANumber (text : Text)
  | tooDeep
deriving DecidableEq, Repr

abbrev Evaluation (α : Type) := ExceptT Failure (StateM (Variables α))

variable {α : Type} [Arithmetic α]

def Step.delta (step : Step) : α :=
  match step.direction with
  | .up => Arithmetic.unit
  | .down => -Arithmetic.unit

def takeStep (step : Step) (name term : Text) : Evaluation α α := do
  let name := trim name
  match (← get).get? name with
  | none => throw (.unknownVariable name term)
  | some old =>
    let new := old + step.delta
    modify (·.insert name new)
    return if step.yieldsNew then new else old

/-- The number that a term spells. A term that begins with a letter was meant as a name. -/
def numberOf (term expression : Text) : Evaluation α α :=
  if term.head?.any isLetter then throw (.unknownVariable term expression)
  else match Numeral.ofText? term with
    | none => throw (.notANumber term)
    | some n => return Arithmetic.ofNumeral n

def lookUp (term expression : Text) : Evaluation α α := do
  match (← get).get? term with
  | some value => return value
  | none => numberOf term expression

def chainValue (op : BinaryOp) (chain : Operands) (value : Text → Evaluation α α) :
    Evaluation α α := do
  let first ← value chain.first
  let later ← chain.later.mapM value
  return combine op.apply op.grouping first later

/-- The value of an expression that nests less than `depth` levels deep. -/
def evaluateWithin : (depth : Nat) → Text → Evaluation α α
  | 0, _ => throw .tooDeep
  | depth + 1, expression =>
    match split? expression with
    | some split =>
      match depth with
      | 0 => throw .tooDeep
      | inner + 1 =>
        chainValue split.op (operands split.op expression) (evaluateWithin inner)
    | none =>
      let term := trim expression
      match Operand.ofTerm term with
      | .negated rest => do return -(← evaluateWithin depth rest)
      | .stepped step name => takeStep step name term
      | .plain text => lookUp text expression

/-- The levels of an evaluation that no other call is around. -/
def maxDepth : Nat := 996

def evaluate (expression : Text) (vars : Variables α) (depth : Nat := maxDepth) :
    Except Failure α × Variables α :=
  (evaluateWithin depth expression).run.run vars

end Worksheet.Expression
