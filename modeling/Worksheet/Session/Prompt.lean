import Worksheet.Text.Lines
import Worksheet.Session

/-! # The prompt

A dialogue reads one line after each prompt. It answers a blank line with all variables, a
statement with its value, and a line that fails with the message.
-/
namespace Worksheet.Session
open Text

def prompt : Text := "> ".toList

def answer (s : Session) (line : Text) : Text × Session :=
  if isBlank line then (s.output, s)
  else match s.executeLine line with
    | (.ok value, s) => (Number.shown value, s)
    | (.error fault, s) => (fault.message, s)

/-- Everything a dialogue over the given lines prints, up to the prompt that no line follows. -/
def dialogue : Session → List Text → Text
  | _, [] => prompt
  | s, line :: rest =>
    let (reply, s) := s.answer line
    prompt ++ reply ++ '\n' :: dialogue s rest

def transcript (input : Text) : Text :=
  dialogue {} (lines input)

end Worksheet.Session
