import Worksheet.Source
import Worksheet.Proofs.Session.Trace
import Worksheet.Proofs.Text.Encoding
import Worksheet.Proofs.Text.Lines

/-! # Runs over files

A file whose bytes can be decoded is run line by line. Only a file without any lines is refused.
-/
namespace Worksheet
open Text

variable {bytes : Bytes} {text : Text}

theorem sourceLines_ok (path : Text) (h : Utf8.decode bytes = .ok text) :
    sourceLines path (.ok bytes) = .ok (lines text) := by
  unfold sourceLines
  dsimp only
  rw [h]

theorem sourceLines_encode (path text : Text) :
    sourceLines path (.ok (Utf8.encode text)) = .ok (lines text) :=
  sourceLines_ok path (Utf8.decode_encode text)

namespace Session

variable {σ : Type} (path : Text) (listen : σ → Fault → σ) (heard : σ)

theorem solve_lines {contents : Except OpenFault Bytes} {lines : List Text}
    (h : sourceLines path contents = .ok lines) (caller : Caller) :
    solve path contents listen heard caller = run { caller } listen heard lines := by
  rw [solve, h]

theorem solve_error {contents : Except OpenFault Bytes} {fault : Fault}
    (h : sourceLines path contents = .error fault) (caller : Caller) :
    solve path contents listen heard caller = .error fault := by
  rw [solve, h]

theorem solve_ok (h : Utf8.decode bytes = .ok text) (hne : lines text ≠ []) (caller : Caller) :
    solve path (.ok bytes) listen heard caller =
      .ok ⟨afterLines { caller } (lines text), faults (trace { caller } (lines text)),
        (faults (trace { caller } (lines text))).foldl listen heard⟩ :=
  (solve_lines path listen heard (sourceLines_ok path h) caller).trans (run_eq_ok _ _ _ hne)

end Session

end Worksheet
