import Mathlib.Data.List.Chain
import Worksheet.Proofs.Text.Lines

/-! # Written lines

Lines can be written with a line end of any kind behind each, and are read again as they were. The
last end may be left out unless the line before it is empty. The only ends that do not stay apart
are a carriage return and the line feed of an empty line behind it: together they are one end.
-/
namespace Worksheet.Text

inductive LineEnd
  | lineFeed
  | carriageReturn
  | both
deriving DecidableEq, Repr

def LineEnd.text : LineEnd → Text
  | lineFeed => ['\n']
  | carriageReturn => ['\r']
  | both => ['\r', '\n']

/-- A text that holds no line end. -/
def IsLine (l : Text) : Prop := '\n' ∉ l ∧ '\r' ∉ l

instance (l : Text) : Decidable (IsLine l) := inferInstanceAs (Decidable (_ ∧ _))

/-- Lines with their ends, and possibly one more line that has none. -/
structure Layout where
  ended : List (Text × LineEnd)
  unended? : Option Text
  isLine : ∀ l ∈ ended.map (·.1) ++ unended?.toList, IsLine l
  apart : ended.IsChain fun l m => l.2 = .carriageReturn → m ≠ ([], .lineFeed)
  unended_ne_nil : ∀ l ∈ unended?, l ≠ []

namespace Layout

def lines (p : Layout) : List Text := p.ended.map (·.1) ++ p.unended?.toList

def text (p : Layout) : Text := p.ended.flatMap (fun l => l.1 ++ l.2.text) ++ p.unended?.getD []

end Layout

variable {line l s : Text} {e : LineEnd} {ended : List (Text × LineEnd)} {unended? : Option Text}

section From

theorem linesFrom_append (hl : IsLine l) (line s : Text) :
    linesFrom line (l ++ s) = linesFrom (l.reverse ++ line) s := by
  induction l generalizing line with
  | nil => rfl
  | cons c l ih =>
    obtain ⟨hn, hln⟩ := List.ne_and_not_mem_of_not_mem_cons hl.1
    obtain ⟨hr, hlr⟩ := List.ne_and_not_mem_of_not_mem_cons hl.2
    rw [List.cons_append, linesFrom_char hn.symm hr.symm, ih ⟨hln, hlr⟩, List.reverse_cons,
      List.append_assoc, List.singleton_append]

theorem linesFrom_lineEnd (h : e = .carriageReturn → s.head? ≠ some '\n') (line : Text) :
    linesFrom line (e.text ++ s) = line.reverse :: linesFrom [] s := by
  cases e with
  | lineFeed => rfl
  | carriageReturn => exact linesFrom_return (h rfl)
  | both => rfl

theorem lines_line (hl : IsLine l) (h : e = .carriageReturn → s.head? ≠ some '\n') :
    lines (l ++ e.text ++ s) = l :: lines s := by
  rw [lines, List.append_assoc, linesFrom_append hl, linesFrom_lineEnd h, List.append_nil,
    List.reverse_reverse, lines]

theorem lines_unended (hl : IsLine l) (hne : l ≠ []) : lines l = [l] := by
  have h := linesFrom_append hl [] []
  rw [List.append_nil, List.append_nil] at h
  rw [lines, h, linesFrom, List.reverse_reverse, if_neg (by simpa using hne)]

end From

/-- Written lines begin with a line feed only when the first of them is empty and ends with it. -/
theorem head?_eq_of_lineFeed (hline : ∀ l ∈ ended.map (·.1) ++ unended?.toList, IsLine l)
    (h : (ended.flatMap (fun l => l.1 ++ l.2.text) ++ unended?.getD []).head? = some '\n') :
    ended.head? = some ([], .lineFeed) := by
  have hmem : ∀ {l : Text}, IsLine l → l.head? ≠ some '\n' := fun hl hhead =>
    hl.1 (List.mem_of_head? hhead)
  cases ended with
  | nil =>
    cases unended? with
    | none => cases h
    | some l => exact absurd h (hmem (hline l (by simp)))
  | cons m ended =>
    obtain ⟨l, e⟩ := m
    cases l with
    | nil =>
      cases e with
      | lineFeed => rfl
      | carriageReturn | both => cases h
    | cons c l =>
      have hc : (c :: l).head? = some '\n' := h
      exact absurd hc (hmem (hline (c :: l) (by simp)))

theorem Layout.lines_text (p : Layout) : Text.lines p.text = p.lines := by
  obtain ⟨ended, unended?, hline, hapart, hne⟩ := p
  unfold text lines
  dsimp only
  induction ended with
  | nil =>
    cases unended? with
    | none => rfl
    | some l => exact lines_unended (hline l (by simp)) (hne l rfl)
  | cons m ended ih =>
    obtain ⟨hnext, hapart⟩ := List.isChain_cons.mp hapart
    have hm : IsLine m.1 := hline m.1 (by simp)
    have hrest : ∀ l ∈ ended.map (·.1) ++ unended?.toList, IsLine l := fun l hl =>
      hline l (List.mem_cons_of_mem _ hl)
    -- What `apart` says of the next line keeps a lone carriage return from being completed.
    have hend : m.2 = .carriageReturn →
        (ended.flatMap (fun l => l.1 ++ l.2.text) ++ unended?.getD []).head? ≠ some '\n' :=
      fun hreturn hhead => hnext _ (head?_eq_of_lineFeed hrest hhead) hreturn rfl
    rw [List.flatMap_cons, List.append_assoc, lines_line hm hend, ih hrest hapart]
    rfl

end Worksheet.Text
