import Mathlib.Order.Basic
import Worksheet.Text.Lines

/-! # Line ends

Line feeds at the end of a text add an empty line to its lines: one of them behind a line feed, and
two behind anything else, since the first of the two then ends the last line, by itself or with the
carriage return before it.
-/
namespace Worksheet.Text

section From

variable {line s : Text}

theorem linesFrom_return (hs : s.head? ≠ some '\n') :
    linesFrom line ('\r' :: s) = line.reverse :: linesFrom [] s := by
  rw [linesFrom]
  rintro rest rfl
  exact hs rfl

theorem linesFrom_char {c : Char} (hn : c ≠ '\n') (hr : c ≠ '\r') :
    linesFrom line (c :: s) = linesFrom (c :: line) s := by
  rw [linesFrom]
  · exact hn
  · exact fun _ h _ => hr h
  · exact hr

theorem linesFrom_ne_nil (h : line ≠ [] ∨ s ≠ []) : linesFrom line s ≠ [] := by
  fun_induction linesFrom line s with
  | case1 line hempty =>
    obtain rfl := List.isEmpty_iff.mp hempty
    simp at h
  | case2 | case3 | case4 | case5 => exact List.cons_ne_nil _ _
  | case6 line c rest _ _ _ ih => exact ih (.inl (List.cons_ne_nil _ _))

end From

theorem lines_ne_nil {s : Text} (h : s ≠ []) : lines s ≠ [] := linesFrom_ne_nil (.inr h)

end Worksheet.Text
