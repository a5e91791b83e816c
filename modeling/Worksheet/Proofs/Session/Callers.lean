import Worksheet.Proofs.Expression.Figures
import Worksheet.Proofs.Session.Nesting
import Worksheet.Proofs.Session.Trace
import Worksheet.Proofs.Text.LineEnds

/-! # Callers

The calls around a line take levels from its expression. So the same lines may have other outcomes
when they are run from somewhere else, but only where one of them is too deep there and not here. A
run without such a line is the same for both callers, line by line.
-/
namespace Worksheet

namespace Session
open Text Statement Expression

variable {s : Session} {caller : Caller} {line : Text} {lines rest : List Text}

/-- Each line of a run that is too deep for the given caller is too deep for the caller of the
session as well. -/
def AsDeepFor (caller : Caller) (s : Session) (lines : List Text) : Prop :=
  ∀ before line rest, lines = before ++ line :: rest → isBlank line = false →
    TooDeep { afterLines s before with caller } line → TooDeep (afterLines s before) line

theorem WellNamed.asDeepFor (hs : s.WellNamed) (caller : Caller)
    (hrun : ∀ line ∈ lines, lineSignRun line ≤ 980) : AsDeepFor caller s lines := by
  rintro before line rest rfl - hdeep
  have hnames : ({ afterLines s before with caller } : Session).WellNamed :=
    wellNamed_afterLines hs before
  exact absurd hdeep (hnames.not_tooDeep (hrun line (by simp)))

namespace AsDeepFor

theorem of_blank (h : AsDeepFor caller s (line :: rest)) (hb : isBlank line = true) :
    AsDeepFor caller s rest := by
  rintro before l more rfl hl
  have hdeep := h (line :: before) l more rfl hl
  rwa [afterLines_blank s hb] at hdeep

theorem of_line (h : AsDeepFor caller s (line :: rest)) (hb : isBlank line = false) :
    AsDeepFor caller (s.executeLine line).2 rest := by
  rintro before l more rfl hl
  have hdeep := h (line :: before) l more rfl hl
  rwa [afterLines_line s hb] at hdeep

theorem head (h : AsDeepFor caller s (line :: rest)) (hb : isBlank line = false) :
    TooDeep { s with caller } line → TooDeep s line := h [] line rest rfl hb

end AsDeepFor

/-- A line has the same outcome for a caller that leaves it fewer levels, unless it is too deep for
this caller only. -/
theorem executeLine_of_caller (hle : s.caller.calls ≤ caller.calls)
    (h : TooDeep { s with caller } line → TooDeep s line) :
    executeLine { s with caller } line =
      ((s.executeLine line).1, { (s.executeLine line).2 with caller }) := by
  cases ho : Statement.ofLine line with
  | error fault =>
    unfold executeLine
    rw [ho]
  | ok a =>
    rw [tooDeep_iff_givesUp ho, tooDeep_iff_givesUp ho] at h
    rw [executeLine_ok ho, executeLine_ok ho]
    by_cases hdeep : GivesUp (evaluateWithin (depth { s with caller }) a.expression) s.vars
    · rw [execute_tooDeep hdeep, execute_tooDeep (h hdeep)]
    · have hlevels : depth { s with caller } ≤ s.depth := Nat.sub_le_sub_left hle _
      unfold execute
      rw [evaluate_of_le hlevels hdeep]
      rcases evaluate a.expression s.vars (depth { s with caller }) with
        ⟨failure | value, after⟩ <;> rfl

theorem trace_of_caller (hle : s.caller.calls ≤ caller.calls) (h : AsDeepFor caller s lines) :
    trace { s with caller } lines = trace s lines ∧
      afterLines { s with caller } lines = { afterLines s lines with caller } := by
  induction s, lines using lines_induction with
  | nil s => exact ⟨rfl, rfl⟩
  | blank s line rest hb ih =>
    rw [trace_blank _ hb, trace_blank _ hb, afterLines_blank _ hb, afterLines_blank _ hb]
    exact ih hle (h.of_blank hb)
  | line s line rest hb ih =>
    rw [trace_line _ hb, trace_line _ hb, afterLines_line _ hb, afterLines_line _ hb,
      executeLine_of_caller hle (h.head hb)]
    obtain ⟨htrace, hafter⟩ := ih (by rwa [executeLine_caller]) (h.of_line hb)
    exact ⟨congrArg _ htrace, hafter⟩

section Signs

variable {m : Text} {n : Numeral} {t : Text}

/-- An assignment of a number behind signs succeeds if there are more levels than signs. -/
theorem executeLine_behindSigns (hs : Lettered s.vars.names) (ht : IsTarget t) (hm : Figure m)
    (hn : Numeral.ofText? m = some n) (j : Nat) :
    let value := Neg.neg^[j] (Number.ofNumeral n)
    s.executeLine (t ++ " =".toList ++ behindSigns m j) =
      if j < s.depth then (.ok value, { s with vars := s.vars.insert t value })
      else (.error (.tooDeep (pad (behindSigns m j))), s) := by
  intro value
  have hequals : '=' ∉ behindSigns m j := fun h => by
    rcases mem_behindSigns h with h | h | h
    · exact absurd h (by decide)
    · exact absurd h (by decide)
    · exact (hm.inside '=' h).2.1 rfl
  have hline : Statement.ofLine (t ++ " =".toList ++ behindSigns m j) =
      .ok ⟨.plain, t, pad (behindSigns m j)⟩ := by
    have hmark : t ++ " =".toList ++ behindSigns m j = t ++ [' '] ++ '=' :: behindSigns m j := by
      simp
    rw [hmark]
    exact ofLine_plain ht isBlank_space (isBlank_behindSigns hm j)
      (HasPlainMark.not_of_forall_ne (by simpa using hequals))
  have hread : reading (α := Float) m = .ok (Number.ofNumeral n) := by
    rw [reading, hn]
    rfl
  have hrun : evaluate (pad (behindSigns m j)) s.vars s.depth = (_, s.vars) :=
    run_behindSigns hm hs (alike_pad (behindSigns m j)).symm s.depth
  rw [executeLine_ok hline]
  by_cases hd : j < s.depth
  · rw [if_pos hd, hread] at hrun
    rw [if_pos hd]
    exact execute_ok hrun
  · rw [if_neg hd] at hrun
    rw [if_neg hd, execute_fails hrun]
    rfl

theorem executeLine_one_behindSigns (caller : Caller) (j : Nat) :
    let s : Session := { caller }
    let value := Neg.neg^[j] (Number.ofNumeral ⟨false, 1, 0⟩)
    s.executeLine (['x'] ++ " =".toList ++ behindSigns ['1'] j) =
      if j < s.depth then (.ok value, { s with vars := s.vars.insert ['x'] value })
      else (.error (.tooDeep (pad (behindSigns ['1'] j))), s) :=
  executeLine_behindSigns (fun _ h => absurd h List.not_mem_nil) (by decide)
    (.of_digits (by decide) (by decide)) (by decide) j

theorem isLine_behindSigns (ht : IsLine t) (hm : IsLine m) (j : Nat) :
    IsLine (t ++ " =".toList ++ behindSigns m j) := by
  have hinside : ∀ c ∈ behindSigns m j, c ≠ '\n' ∧ c ≠ '\r' := fun c hc => by
    rcases mem_behindSigns hc with rfl | rfl | hc
    · decide
    · decide
    · exact ⟨ne_of_mem_of_not_mem hc hm.1, ne_of_mem_of_not_mem hc hm.2⟩
  have hn : '\n' ∉ behindSigns m j := fun h => (hinside _ h).1 rfl
  have hr : '\r' ∉ behindSigns m j := fun h => (hinside _ h).2 rfl
  exact ⟨by simp [ht.1, hn], by simp [ht.2, hr]⟩

end Signs

end Session

end Worksheet
