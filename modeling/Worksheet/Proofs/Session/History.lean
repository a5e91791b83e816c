import Worksheet.Proofs.Session.Reachable

/-! # Histories

The history of a session lists the lines that it was given, each with its outcome: lines by
themselves, and the lines of runs that are not blank. The names of its variables are the targets of
the lines that succeeded. So no name is ever lost, and a line that fails adds none.
-/
namespace Worksheet.Session
open Text Statement Expression

/-- What lines and runs lead to from a session, with the lines that they handle. -/
inductive Leads (s : Session) : List Entry → Session → Prop
  | start : Leads s [] s
  | call {entries : List Entry} {t : Session} (h : Leads s entries t) (caller : Caller) :
      Leads s entries { t with caller }
  | line {entries : List Entry} {t : Session} (h : Leads s entries t) (line : Text) :
      Leads s (entries ++ [(line, (t.executeLine line).1)]) (t.executeLine line).2
  | run {σ : Type} {entries : List Entry} {t : Session} {listen : σ → Fault → σ} {heard : σ}
      {lines : List Text} {r : Run σ} (h : Leads s entries t)
      (hr : t.run listen heard lines = .ok r) : Leads s (entries ++ trace t lines) r.session

/-- The target of a line that succeeded. -/
def Entry.target? (e : Entry) : Option Text :=
  match e.2, Statement.ofLine e.1 with
  | .ok _, .ok a => some a.target
  | _, _ => none

def targets (entries : List Entry) : List Text := entries.filterMap Entry.target?

variable {s t : Session} {entries : List Entry} {lines : List Text} {line x : Text}

/-- Every reachable session has a history. -/
theorem reachable_iff_leads : Reachable s ↔ ∃ entries, Leads {} entries s := by
  constructor
  · intro h
    induction h with
    | fresh => exact ⟨[], .start⟩
    | call _ caller ih =>
      obtain ⟨entries, ih⟩ := ih
      exact ⟨entries, ih.call caller⟩
    | line _ line ih =>
      obtain ⟨entries, ih⟩ := ih
      exact ⟨_, ih.line line⟩
    | run _ hr ih =>
      obtain ⟨entries, ih⟩ := ih
      exact ⟨_, ih.run hr⟩
  · rintro ⟨entries, h⟩
    induction h with
    | start => exact .fresh
    | call _ caller ih => exact ih.call caller
    | line _ line ih => exact ih.line line
    | run _ hr ih => exact ih.run hr

section Names

theorem mem_targets_append {more : List Entry} :
    x ∈ targets (entries ++ more) ↔ x ∈ targets entries ∨ x ∈ targets more := by
  rw [targets, List.filterMap_append, List.mem_append, targets, targets]

theorem mem_names_executeLine (s : Session) (line : Text) :
    x ∈ (s.executeLine line).2.vars.names ↔
      x ∈ s.vars.names ∨ x ∈ targets [(line, (s.executeLine line).1)] := by
  rcases hl : s.executeLine line with ⟨fault | value, t⟩
  · obtain rfl := executeLine_error hl
    simp [targets, Entry.target?]
  · obtain ⟨a, after, ho, -⟩ := exists_of_executeLine_ok hl
    rw [mem_names_executeLine_ok ho hl]
    simp [targets, Entry.target?, ho, or_comm]

theorem mem_names_afterLines (s : Session) (lines : List Text) :
    x ∈ (afterLines s lines).vars.names ↔ x ∈ s.vars.names ∨ x ∈ targets (trace s lines) := by
  induction s, lines using lines_induction with
  | nil s => simp [afterLines, trace, targets]
  | blank s line rest h ih => rw [afterLines_blank s h, trace_blank s h, ih]
  | line s line rest h ih =>
    rw [afterLines_line s h, trace_line s h, ih, mem_names_executeLine, or_assoc,
      ← mem_targets_append, List.singleton_append]

/-- The names are those from before and the targets of the lines that succeeded since. -/
theorem Leads.mem_names (h : Leads s entries t) :
    x ∈ t.vars.names ↔ x ∈ s.vars.names ∨ x ∈ targets entries := by
  induction h with
  | start => simp [targets]
  | call _ _ ih => exact ih
  | line _ line ih => rw [mem_names_executeLine, ih, mem_targets_append, or_assoc]
  | run _ hr ih => rw [session_of_run hr, mem_names_afterLines, ih, mem_targets_append, or_assoc]

end Names

/-- An equals sign in a name stands behind the sign of a compound mark. -/
theorem IsVariable.sign_before_equals (h : IsVariable x) {u v : Text} (hx : x = u ++ '=' :: v) :
    u.getLast? = some '+' ∨ u.getLast? = some '-' := by
  by_contra hne
  obtain ⟨hp, hm⟩ := not_or.mp hne
  exact h.unmarked ⟨u, v, hx, Assignment.after_eq_plain hp hm⟩

/-- The names of a session are the targets of the lines that succeeded in its history, and stay
names whatever follows. A line that fails changes nothing, and one that succeeds adds no name but
its target. All names begin with an ASCII letter, have no white space around them, and hold no
equals sign but behind a plus or a minus. -/
theorem names_of_history (h : Leads {} entries s) :
    (∀ x, x ∈ s.vars.names ↔ x ∈ targets entries) ∧
      (∀ more t, Leads s more t →
        ∀ x, x ∈ t.vars.names ↔ x ∈ s.vars.names ∨ x ∈ targets more) ∧
      (∀ line fault t, s.executeLine line = (.error fault, t) → t = s) ∧
      (∀ line value t, s.executeLine line = (.ok value, t) → ∃ a, Statement.ofLine line = .ok a ∧
        ∀ x, x ∈ t.vars.names ↔ x = a.target ∨ x ∈ s.vars.names) ∧
      ∀ x ∈ s.vars.names, x.head?.any isAsciiLetter = true ∧ trim x = x ∧
        ∀ u v, x = u ++ '=' :: v → u.getLast? = some '+' ∨ u.getLast? = some '-' := by
  have hwell : s.WellNamed := (reachable_iff_leads.mpr ⟨entries, h⟩).wellNamed
  refine ⟨fun x => ?_, fun more t hmore x => hmore.mem_names, fun line fault t hl =>
    executeLine_error hl, fun line value t hl => ?_, fun x hx => ?_⟩
  · rw [h.mem_names]
    exact or_iff_right (List.not_mem_nil)
  · obtain ⟨a, after, ho, -⟩ := exists_of_executeLine_ok hl
    exact ⟨a, ho, fun x => mem_names_executeLine_ok ho hl⟩
  · have hvar := hwell x hx
    exact ⟨hvar.letter, hvar.trimmed, fun u v => hvar.sign_before_equals⟩

/-- A line, and then a run whose last line fails: `c` is no name. -/
theorem names_of_history_failing_line :
    let lines := ["b = a++ + 1".toList, [], "c = a++ + d".toList]
    ∃ entries r, Leads {} entries r.session ∧
      run (executeLine {} "a = 1".toList).2 (fun heard _ => heard) () lines = .ok r ∧
      targets entries = [['a'], ['b']] ∧ ∀ x, x ∈ r.session.vars.names ↔ x ∈ [['a'], ['b']] := by
  intro lines
  have hrun := run_eq_ok (executeLine {} "a = 1".toList).2 (fun (heard : Unit) _ => heard) ()
    (List.cons_ne_nil _ _ : lines ≠ [])
  have h := (Leads.start.line "a = 1".toList).run hrun
  have htargets : targets (([] ++ [("a = 1".toList, (executeLine {} "a = 1".toList).1)]) ++
      trace (executeLine {} "a = 1".toList).2 lines) = [['a'], ['b']] := by
    decide +kernel
  refine ⟨_, _, h, hrun, htargets, ?_⟩
  rw [← htargets]
  exact (names_of_history h).1

end Worksheet.Session
