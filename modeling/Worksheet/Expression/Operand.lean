import Worksheet.Text.Blank

/-! # Operands

What a text asks for when it has no binary operator: the negative of another text, a step of a
variable up or down, or a plain name or numeral.
-/
namespace Worksheet.Expression

inductive Direction
  | up
  | down
deriving DecidableEq, Repr

/-- A step counts a variable up or down by one. Written before the name it yields the new value,
written after the name the old one. -/
structure Step where
  direction : Direction
  yieldsNew : Bool
deriving DecidableEq, Repr

def Direction.mark : Direction → Text
  | .up => ['+', '+']
  | .down => ['-', '-']

inductive Operand
  | negated (rest : Text)
  | stepped (step : Step) (name : Text)
  | plain (text : Text)
deriving DecidableEq, Repr

def marked? (d : Direction) (term : Text) : Option (Step × Text) :=
  (d.mark.isPrefixOf? term).map fun name => (⟨d, true⟩, name)

def markedAfter? (d : Direction) (term : Text) : Option (Step × Text) :=
  (d.mark.isSuffixOf? term).map fun name => (⟨d, false⟩, name)

def step? (term : Text) : Option (Step × Text) :=
  marked? .up term <|> markedAfter? .up term <|> marked? .down term <|> markedAfter? .down term

/-- Reads a term without white space around it. A single minus in front is a sign. -/
def Operand.ofTerm (term : Text) : Operand :=
  if term.head? = some '-' ∧ term.tail.head? ≠ some '-' then .negated term.tail
  else match step? term with
    | some (step, name) => .stepped step name
    | none => .plain term

example : Operand.ofTerm "-a++".toList = .negated "a++".toList := by decide
example : Operand.ofTerm "--a++".toList = .stepped ⟨.up, false⟩ "--a".toList := by decide
example : Operand.ofTerm "++".toList = .stepped ⟨.up, true⟩ [] := by decide

end Worksheet.Expression
