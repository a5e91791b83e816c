import Worksheet.Proofs.Number.Shown
import Worksheet.Proofs.Session.History

/-! # Single lines

Whatever the lines of a run hold, the message of a fault and the output of a session stay on one
line. A message shows a text of its line only quoted. The output holds names, which are made of
characters of lines, and numbers.
-/
namespace Worksheet
open Text

namespace Statement

variable {line : Text} {f : Fault} {a : Statement} {c : Char}

/-- What can go wrong with a line. -/
inductive IsFaultOf (line : Text) : Fault → Prop
  | malformed {reason : Text} (h : reason ∈ [badTarget, missingExpression, noAssignment]) :
      IsFaultOf line (.malformed line reason)
  | failure {a : Statement} (h : ofLine line = .ok a) (failure : Expression.Failure) :
      IsFaultOf line (.ofFailure a.expression failure)

theorem isFaultOf_ofLine (h : ofLine line = .error f) : IsFaultOf line f := by
  obtain ⟨reason, hreason, rfl⟩ := exists_of_ofLine_eq_error h
  exact .malformed hreason

/-- A message shows the texts of its line quoted; the rest of it is fixed. -/
theorem IsFaultOf.lineFeed_not_mem_message (h : IsFaultOf line f) : '\n' ∉ f.message := by
  have hquote := lineFeed_not_mem_quote
  cases h with
  | @malformed reason h =>
    have hreasons : ∀ r ∈ [badTarget, missingExpression, noAssignment], '\n' ∉ r := by decide
    unfold Fault.message
    simp only [List.mem_append, hreasons reason h, hquote, or_false]
    decide +kernel
  | failure h failure =>
    cases failure with
    | unknownVariable | notANumber | tooDeep =>
      unfold Fault.ofFailure Fault.message
      simp only [List.mem_append, hquote, or_false]
      decide +kernel

theorem mem_of_mem_dropSign {kind : Assignment} {before : Text} (h : c ∈ kind.dropSign before) :
    c ∈ before := by
  cases kind with
  | plain => exact h
  | adding | subtracting => exact List.mem_of_mem_tail h

theorem mem_of_mem_target (h : ofLine line = .ok a) (hc : c ∈ a.target) : c ∈ line := by
  obtain ⟨m, hm, -, -, rfl⟩ := ofLine_eq_ok_iff.mp h
  obtain ⟨u, v, rfl, rfl⟩ := exists_of_mark? hm
  obtain ⟨b, b', -, -, hleft⟩ := exists_trim (markAt u.reverse v).left
  have hcleft : c ∈ (markAt u.reverse v).left := by
    rw [hleft]
    exact List.mem_append_left _ (List.mem_append_right _ hc)
  have hcu : c ∈ u.reverse := mem_of_mem_dropSign (List.mem_reverse.mp hcleft)
  exact List.mem_append_left _ (List.mem_reverse.mp hcu)

end Statement

namespace Session
open Statement

variable {s : Session} {lines : List Text} {line x : Text} {f : Fault} {c : Char}

theorem isFaultOf_executeLine (h : (s.executeLine line).1 = .error f) : IsFaultOf line f := by
  cases ho : Statement.ofLine line with
  | error fault =>
    rw [executeLine, ho] at h
    obtain rfl := Except.error.inj h
    exact isFaultOf_ofLine ho
  | ok a =>
    rw [executeLine_ok ho] at h
    rcases he : Expression.evaluate a.expression s.vars s.depth with ⟨failure | value, after⟩
    · rw [execute_fails he] at h
      obtain rfl := Except.error.inj h
      exact .failure ho failure
    · rw [execute_ok he] at h
      cases h

theorem exists_of_mem_trace {e : Entry} (h : e ∈ trace s lines) :
    ∃ t : Session, (t.executeLine e.1).1 = e.2 := by
  induction s, lines using lines_induction with
  | nil s => cases h
  | blank s line rest hb ih =>
    rw [trace_blank s hb] at h
    exact ih h
  | line s line rest hb ih =>
    rw [trace_line s hb] at h
    rcases List.mem_cons.mp h with rfl | h
    · exact ⟨s, rfl⟩
    · exact ih h

theorem lineFeed_not_mem_message (h : f ∈ faults (trace s lines)) : '\n' ∉ f.message := by
  obtain ⟨⟨line, outcome⟩, he, hf⟩ := List.mem_filterMap.mp h
  obtain ⟨t, ht⟩ := exists_of_mem_trace he
  cases outcome with
  | ok value => cases hf
  | error fault =>
    obtain rfl := Option.some.inj hf
    exact (isFaultOf_executeLine ht).lineFeed_not_mem_message

section Names

theorem exists_of_mem_targets {entries : List Entry} (h : x ∈ targets entries) :
    ∃ e ∈ entries, ∃ a, Statement.ofLine e.1 = .ok a ∧ x = a.target := by
  obtain ⟨⟨line, outcome⟩, he, ht⟩ := List.mem_filterMap.mp h
  unfold Entry.target? at ht
  split at ht
  · next a _ ho => exact ⟨_, he, a, ho, (Option.some.inj ht).symm⟩
  · cases ht

theorem exists_of_mem_name {caller : Caller}
    (hx : x ∈ (afterLines { caller } lines).vars.names) (hc : c ∈ x) :
    ∃ line ∈ lines, c ∈ line := by
  have hx : x ∈ targets (trace { caller } lines) :=
    ((mem_names_afterLines { caller } lines).mp hx).resolve_left List.not_mem_nil
  obtain ⟨e, he, a, ho, rfl⟩ := exists_of_mem_targets hx
  have hline : e.1 ∈ (trace { caller } lines).map (·.1) := List.mem_map_of_mem he
  rw [lines_trace] at hline
  exact ⟨e.1, List.mem_of_mem_filter hline, mem_of_mem_target ho hc⟩

end Names

section Output

theorem exists_of_mem_intercalate {sep : Text} {ts : List Text} (h : c ∈ sep.intercalate ts) :
    c ∈ sep ∨ ∃ t ∈ ts, c ∈ t := by
  induction ts with
  | nil => exact absurd h List.not_mem_nil
  | cons t ts ih =>
    cases ts with
    | nil => exact .inr ⟨t, List.mem_cons_self, by simpa using h⟩
    | cons u ts =>
      rw [List.intercalate_cons_cons, List.mem_append, List.mem_append] at h
      rcases h with (h | h) | h
      · exact .inr ⟨t, List.mem_cons_self, h⟩
      · exact .inl h
      · rcases ih h with h | ⟨v, hv, h⟩
        · exact .inl h
        · exact .inr ⟨v, List.mem_cons_of_mem _ hv, h⟩

theorem mem_output (h : c ∈ s.output) :
    c ∈ "(=,)".toList ∨ Number.isNumberChar c = true ∨ ∃ x ∈ s.vars.names, c ∈ x := by
  unfold output at h
  rw [List.cons_append, List.mem_cons, List.mem_append, List.mem_singleton] at h
  rcases h with rfl | h | rfl
  · exact .inl (by decide)
  · rcases exists_of_mem_intercalate h with h | ⟨t, ht, h⟩
    · rw [List.mem_singleton.mp h]
      exact .inl (by decide)
    · obtain ⟨e, he, rfl⟩ := List.mem_map.mp ht
      rcases List.mem_append.mp h with h | h
      · exact .inr (.inr ⟨e.1, List.mem_map_of_mem he, h⟩)
      · rcases List.mem_cons.mp h with rfl | h
        · exact .inl (by decide)
        · exact .inr (.inl (Number.numeric_shown e.2 c h))
  · exact .inl (by decide)

theorem lineFeed_not_mem_output (caller : Caller) (h : ∀ line ∈ lines, '\n' ∉ line) :
    '\n' ∉ (afterLines { caller } lines).output := by
  intro hmem
  rcases mem_output hmem with hp | hn | ⟨x, hx, hc⟩
  · exact absurd hp (by decide)
  · exact absurd hn (by decide)
  · obtain ⟨line, hl, hc⟩ := exists_of_mem_name hx hc
    exact h line hl hc

end Output

end Session

end Worksheet
