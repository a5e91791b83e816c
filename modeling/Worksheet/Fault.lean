import Worksheet.Text.Quoted
import Worksheet.Expression.Value

/-! # Faults

What can go wrong with a worksheet, each cause with what its message needs. A fault is fatal when
nothing of the input can be processed.
-/
namespace Worksheet
open Text

inductive Fault
  | noStatements
  | sourceUnavailable (path reason : Text)
  | malformed (line reason : Text)
  | unknownVariable (name expression : Text)
  | notANumber (text : Text)
  | tooDeep (expression : Text)
deriving DecidableEq, Repr

inductive Diagnostic
  | noEquationsFound
  | problemReadingFile
  | malformedFile
  | unknownVariable
  | notANumber
  | tooDeep
deriving DecidableEq, Repr

def Diagnostic.label : Diagnostic → Text
  | noEquationsFound => "NO_EQUATIONS_FOUND".toList
  | problemReadingFile => "PROBLEM_READING_FILE".toList
  | malformedFile => "MALFORMED_FILE".toList
  | unknownVariable => "UNKNOWN_VARIABLE".toList
  | notANumber => "NOT_A_NUMBER".toList
  | tooDeep => "TOO_DEEP".toList

def Diagnostic.isFatal (d : Diagnostic) : Bool :=
  d = .noEquationsFound || d = .problemReadingFile

namespace Fault

def excerptLength : Nat := 40

def message : Fault → Text
  | noStatements => "Did not find any equations to evaluate!".toList
  | sourceUnavailable path reason =>
    "Could not read file, please check file exists and has read permissions. (".toList ++
      path ++ ": ".toList ++ reason ++ [')']
  | malformed line reason =>
    "Something went wrong, file structure is malformed. (".toList ++
      reason ++ ": ".toList ++ quote line ++ [')']
  | unknownVariable name expression =>
    "Reference to unknown variable ".toList ++ quote name ++ " in ".toList ++
      quote (trim expression)
  | notANumber text => "Not a number: ".toList ++ quote (trim text)
  | tooDeep expression =>
    "Expression is nested too deeply to evaluate: ".toList ++
      quote ((trim expression).take excerptLength) ++ "...".toList

def diagnostic : Fault → Diagnostic
  | noStatements => .noEquationsFound
  | sourceUnavailable _ _ => .problemReadingFile
  | malformed _ _ => .malformedFile
  | unknownVariable _ _ => .unknownVariable
  | notANumber _ => .notANumber
  | tooDeep _ => .tooDeep

def isFatal (f : Fault) : Bool :=
  f.diagnostic.isFatal

def ofFailure (expression : Text) : Expression.Failure → Fault
  | .unknownVariable name context => unknownVariable name context
  | .notANumber text => notANumber text
  | .tooDeep => tooDeep expression

end Fault

/-- A failure outside the diagnostics: a kind, and at most one text. -/
structure ForeignFault where
  kind : Text
  detail : Option Text
deriving DecidableEq, Repr

namespace ForeignFault

def message (f : ForeignFault) : Text :=
  f.detail.getD []

/-- What is said when a diagnostic is asked for and there is none. -/
def complaint (f : ForeignFault) : Text :=
  "Unexpected error type: ".toList ++ f.kind ++ '(' :: f.detail.elim [] quote ++ [')']

end ForeignFault

inductive Raised
  | fault (f : Fault)
  | foreign (f : ForeignFault)
deriving DecidableEq, Repr

namespace Raised

def message : Raised → Text
  | fault f => f.message
  | foreign f => f.message

/-- Asking for a diagnostic that there is none of is an error of its own. -/
def diagnostic : Raised → Except ForeignFault Diagnostic
  | fault f => .ok f.diagnostic
  | foreign f => .error ⟨"RuntimeError".toList, some f.complaint⟩

def isFatal (e : Raised) : Except ForeignFault Bool :=
  e.diagnostic.map Diagnostic.isFatal

end Raised

end Worksheet
