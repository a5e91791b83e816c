import Worksheet.Text.Lines
import Worksheet.Text.Utf8
import Worksheet.Source.Folder
import Worksheet.Session

/-! # Sources

A source is a file of statements, one on each line. It is read as a whole before its first line
is run.
-/
namespace Worksheet
open Text

/-- The lines of the file at `path`, given what opening it came to. -/
def sourceLines (path : Text) : Except OpenFault Bytes → Except Fault (List Text)
  | .error fault => .error (.sourceUnavailable path (fault.message path))
  | .ok bytes =>
    match Utf8.decode bytes with
    | .error fault => .error (.sourceUnavailable path fault.message)
    | .ok text => .ok (lines text)

def Session.solve {σ : Type} (path : Text) (contents : Except OpenFault Bytes)
    (listen : σ → Fault → σ) (heard : σ) (caller : Caller := .file) :
    Except Fault (Session.Run σ) :=
  match sourceLines path contents with
  | .error fault => .error fault
  | .ok lines => Session.run { caller } listen heard lines

end Worksheet
