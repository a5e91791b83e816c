import Worksheet.Session.Prompt
import Worksheet.Proofs.Session.Callers
import Worksheet.Proofs.Session.Solve
import Worksheet.Proofs.Text.LineEnds

/-! # Dialogues

A dialogue over an input and the run over a file with the same text see the same lines, and have
the same variables after each of them. The dialogue prints the faults of the run where they arise,
the value that a target has been given, and for a blank line the variables that the lines before it
leave. The calls around a line of a file are two more than around a line of a dialogue; so they
differ where a line is too deep for the file only.
-/
namespace Worksheet.Session
open Text

/-- What a dialogue answers a line with. -/
inductive Reply
  | listing (s : Session)
  | value (x : Float)
  | diagnostic (fault : Fault)

namespace Reply

def text : Reply → Text
  | listing s => s.output
  | value x => Number.shown x
  | diagnostic fault => fault.message

def fault? : Reply → Option Fault
  | listing _ | value _ => none
  | diagnostic fault => some fault

end Reply

def reply (s : Session) (line : Text) : Reply :=
  if isBlank line then .listing s
  else match (s.executeLine line).1 with
    | .ok value => .value value
    | .error fault => .diagnostic fault

/-- How replies are printed, each behind a prompt and on a line of its own. -/
def printed (rs : List Reply) : Text := rs.flatMap fun r => prompt ++ r.text ++ ['\n']

variable {s : Session} {line : Text} {before rest : List Text}

section Line

end Line

section Lines

end Lines

end Worksheet.Session
