import Worksheet.Text.Blank

/-! # Lines

A line ends at a line feed, at a carriage return, or at the two in this order. What follows the
last line end is a line of its own when it is not empty.
-/
namespace Worksheet.Text

/-- The lines of a text that goes on after `line`, which is reversed. -/
def linesFrom (line : Text) : Text → List Text
  | [] => if line.isEmpty then [] else [line.reverse]
  | '\n' :: rest => line.reverse :: linesFrom [] rest
  | '\r' :: '\n' :: rest => line.reverse :: linesFrom [] rest
  | '\r' :: rest => line.reverse :: linesFrom [] rest
  | c :: rest => linesFrom (c :: line) rest

def lines (s : Text) : List Text :=
  linesFrom [] s

theorem not_lineEnd_of_mem_linesFrom {line s l : Text} (hline : '\n' ∉ line ∧ '\r' ∉ line)
    (h : l ∈ linesFrom line s) : '\n' ∉ l ∧ '\r' ∉ l := by
  fun_induction linesFrom line s with
  | case1 => simp at h
  | case2 line _ =>
    rw [List.mem_singleton.mp h]
    simpa using hline
  | case3 line rest ih | case4 line rest ih | case5 line rest _ ih =>
    rcases List.mem_cons.mp h with rfl | h
    · simpa using hline
    · exact ih (by simp) h
  | case6 line c rest hn _ hr ih =>
    refine ih ⟨?_, ?_⟩ h
    · intro hc
      rcases List.mem_cons.mp hc with rfl | hc
      · exact hn rfl
      · exact hline.1 hc
    · intro hc
      rcases List.mem_cons.mp hc with rfl | hc
      · exact hr rfl
      · exact hline.2 hc

theorem not_lineEnd_of_mem_lines {s l : Text} (h : l ∈ lines s) : '\n' ∉ l ∧ '\r' ∉ l :=
  not_lineEnd_of_mem_linesFrom (by simp) h

end Worksheet.Text
