import Worksheet.Session

/-! # Logs

What a run notes about its lines: each statement that was read, each value that was stored, and
each line that was skipped because of a fault.
-/
namespace Worksheet
open Text

inductive LogEntry
  | parsed (line : Text) (statement : Statement)
  | stored (target : Text) (value : Float)
  | skipped (line : Text) (fault : Fault)

namespace LogEntry

def text : LogEntry → Text
  | parsed line statement =>
    "DEBUG equations.parser: Parsed ".toList ++ quote line ++ " as ".toList ++ statement.text
  | stored target value =>
    "DEBUG equations.solver: ".toList ++ target ++ " = ".toList ++ Number.shown value
  | skipped line fault =>
    "WARNING equations.solver: Skipping statement ".toList ++ quote line ++ ": ".toList ++
      fault.message

end LogEntry

namespace Session

def logLine (s : Session) (line : Text) : List LogEntry :=
  match Statement.ofLine line with
  | .error fault => [.skipped line fault]
  | .ok statement =>
    match (s.execute statement).1 with
    | .ok value => [.parsed line statement, .stored statement.target value]
    | .error fault => [.parsed line statement, .skipped line fault]

/-- The entries for a run of lines. -/
def log : Session → List Text → List LogEntry
  | _, [] => []
  | s, line :: rest =>
    if isBlank line then log s rest
    else logLine s line ++ log (s.executeLine line).2 rest

end Session

end Worksheet
