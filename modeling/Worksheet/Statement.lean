import Worksheet.Text.Letter
import Worksheet.Fault
import Worksheet.Expression.Padding

/-! # Statements

A statement assigns the value of an expression to a target. Every equals sign of a line marks an
assignment, a compound addition or a compound subtraction, depending on the character before it.
A line is read by the first of these kinds of which it has exactly one mark.
-/
namespace Worksheet
open Text

inductive Assignment
  | plain
  | adding
  | subtracting
deriving DecidableEq, Repr

namespace Assignment

/-- In the order in which a line is tried. -/
def all : List Assignment :=
  [plain, adding, subtracting]

def label : Assignment → Text
  | plain => "ASSIGN".toList
  | adding => "ADD_ASSIGN".toList
  | subtracting => "SUB_ASSIGN".toList

def after : Option Char → Assignment
  | some '+' => adding
  | some '-' => subtracting
  | _ => plain

/-- The reversed text before an equals sign without the rest of its mark. -/
def dropSign : Assignment → Text → Text
  | plain, before => before
  | adding, before | subtracting, before => before.tail

/-- A compound assignment stands for an assignment of a sum or a difference. -/
def expand : Assignment → (target right : Text) → Text
  | plain, _, right => right
  | adding, target, right => target ++ " + ".toList ++ right
  | subtracting, target, right => target ++ " - ".toList ++ right

end Assignment

structure Statement where
  kind : Assignment
  target : Text
  expression : Text
deriving DecidableEq, Repr

namespace Statement

structure Mark where
  kind : Assignment
  left : Text
  right : Text
deriving DecidableEq, Repr

/-- The marks of a text that follows `before`, which is reversed. -/
def marksAfter (before : Text) : Text → List Mark
  | [] => []
  | c :: rest =>
    let later := marksAfter (c :: before) rest
    if c = '=' then
      let kind := Assignment.after before.head?
      ⟨kind, (kind.dropSign before).reverse, rest⟩ :: later
    else later

def marks (line : Text) : List Mark :=
  marksAfter [] line

/-- The only mark of a kind. -/
def soleMark? (marks : List Mark) (kind : Assignment) : Option Mark :=
  match marks.filter (·.kind = kind) with
  | [mark] => some mark
  | _ => none

def badTarget : Text := "target must start with a letter".toList

def missingExpression : Text := "missing expression".toList

def noAssignment : Text := "expected 'name = expr', 'name += expr' or 'name -= expr'".toList

def ofLine (line : Text) : Except Fault Statement :=
  match Assignment.all.findSome? (soleMark? (marks line)) with
  | none => .error (.malformed line noAssignment)
  | some mark =>
    let target := trim mark.left
    if !target.head?.any isAsciiLetter then .error (.malformed line badTarget)
    else if isBlank mark.right then .error (.malformed line missingExpression)
    else .ok ⟨mark.kind, target, Expression.pad (mark.kind.expand target mark.right)⟩

def text (s : Statement) : Text :=
  "Statement(kind=".toList ++ s.kind.label ++ ", target=".toList ++ quote s.target ++
    ", expression=".toList ++ quote s.expression ++ [')']

end Statement

end Worksheet
