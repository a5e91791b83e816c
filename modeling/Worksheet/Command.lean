import Worksheet.Command.Arguments
import Worksheet.Session.Log
import Worksheet.Source

/-! # The command

Evaluates a file of equations: the diagnostics of its lines are printed first, then all variables.
A fatal fault is printed instead.
-/
namespace Worksheet.Command

def printLines (texts : List Text) : Text :=
  texts.flatMap (· ++ ['\n'])

def usage : Text := "usage: equations [-h] [--verbose] filename".toList

def helpText : List Text := [
  usage,
  [],
  "Evaluate a file of equations and print the resulting variables".toList,
  [],
  "positional arguments:".toList,
  "  filename    Path to a file with one equation per line".toList,
  [],
  "options:".toList,
  "  -h, --help  show this help message and exit".toList,
  "  --verbose   Log every statement as it is evaluated".toList]

/-- What a command does: its exit code, what it prints and logs, and the error that it does not
handle, if there is one. -/
structure Outcome where
  exit : Nat
  printed : Text
  logged : Text
  escaped? : Option Raised := none
deriving DecidableEq, Repr

namespace Outcome

def escaping (e : Raised) : Outcome :=
  { exit := 1, printed := [], logged := [], escaped? := some e }

/-- Only fatal faults are handled where they end a run. -/
def ofFault (fault : Fault) : Outcome :=
  match (Raised.fault fault).isFatal with
  | .ok true => { exit := 1, printed := printLines [fault.message], logged := [] }
  | .ok false => escaping (.fault fault)
  | .error other => escaping (.foreign other)

end Outcome

def evaluateFile (path : Text) (verbose : Bool) (contents : Except OpenFault Bytes) : Outcome :=
  match Session.solve path contents (fun heard _ => heard) () .command with
  | .error fault => .ofFault fault
  | .ok run =>
    let log := match verbose, sourceLines path contents with
      | true, .ok lines => Session.log { caller := .command } lines
      | _, _ => []
    { exit := 0
      printed := printLines (run.faults.map Fault.message ++ [run.session.output])
      logged := printLines (log.map LogEntry.text) }

def Invocation.perform (readFile : Text → Except OpenFault Bytes) : Invocation → Outcome
  | usageError => { exit := 2, printed := [], logged := printLines [usage] }
  | help => { exit := 0, printed := printLines helpText, logged := [] }
  | evaluate path verbose => evaluateFile path verbose (readFile path)

/-- The command with its arguments, over a way to read files. -/
def run (readFile : Text → Except OpenFault Bytes) (args : List Text) : Outcome :=
  (Invocation.ofArguments args).perform readFile

end Worksheet.Command
