import Mathlib.Order.Basic
import Worksheet.Session

/-! # Traces

The trace of a run lists the lines that it handles with the outcome of each. A line that fails
leaves no trace in the session, also where its evaluation made steps before the failure. So the
lines that succeed have the same outcomes when they are run without the others.
-/
namespace Worksheet.Session
open Text

/-- A line that was handled, and its value or its fault. -/
abbrev Entry := Text × Except Fault Float

def Entry.succeeded (e : Entry) : Bool := e.2.isOk

def Entry.fault? (e : Entry) : Option Fault :=
  match e.2 with
  | .ok _ => none
  | .error fault => some fault

/-- Each line that is not blank is executed in the session that the lines before it leave. -/
def trace : Session → List Text → List Entry
  | _, [] => []
  | s, line :: rest =>
    if isBlank line then trace s rest
    else (line, (s.executeLine line).1) :: trace (s.executeLine line).2 rest

/-- The session after all lines that are not blank, one after the other. -/
def afterLines (s : Session) (lines : List Text) : Session :=
  (lines.filter (!isBlank ·)).foldl (fun s line => (s.executeLine line).2) s

def faults (entries : List Entry) : List Fault := entries.filterMap Entry.fault?

/-- The lines without those that are blank and those that fail. -/
def kept (s : Session) (lines : List Text) : List Text :=
  ((trace s lines).filter Entry.succeeded).map (·.1)

variable {line : Text} {rest : List Text}

section Cons

theorem trace_blank (s : Session) (h : isBlank line = true) :
    trace s (line :: rest) = trace s rest := by
  rw [trace, if_pos h]

theorem trace_line (s : Session) (h : isBlank line = false) :
    trace s (line :: rest) =
      (line, (s.executeLine line).1) :: trace (s.executeLine line).2 rest := by
  rw [trace, h, if_neg Bool.false_ne_true]

theorem afterLines_blank (s : Session) (h : isBlank line = true) :
    afterLines s (line :: rest) = afterLines s rest := by
  simp [afterLines, h]

theorem afterLines_line (s : Session) (h : isBlank line = false) :
    afterLines s (line :: rest) = afterLines (s.executeLine line).2 rest := by
  simp [afterLines, h]

theorem trace_single (s : Session) (h : isBlank line = false) :
    trace s [line] = [(line, (s.executeLine line).1)] := trace_line s h

theorem afterLines_single (s : Session) (h : isBlank line = false) :
    afterLines s [line] = (s.executeLine line).2 := afterLines_line s h

theorem kept_blank (s : Session) (h : isBlank line = true) :
    kept s (line :: rest) = kept s rest := by
  rw [kept, trace_blank s h, kept]

theorem kept_ok {s t : Session} {value : Float} (h : isBlank line = false)
    (hl : s.executeLine line = (.ok value, t)) : kept s (line :: rest) = line :: kept t rest := by
  rw [kept, trace_line s h, hl]
  rfl

theorem kept_error {s t : Session} {fault : Fault} (h : isBlank line = false)
    (hl : s.executeLine line = (.error fault, t)) : kept s (line :: rest) = kept s rest := by
  obtain rfl := executeLine_error hl
  rw [kept, trace_line _ h, hl]
  rfl

end Cons

/-- What a blank line passes on, and any other line from the session that it leaves, holds of all
lines. -/
theorem lines_induction {P : Session → List Text → Prop} (nil : ∀ s, P s [])
    (blank : ∀ s line rest, isBlank line = true → P s rest → P s (line :: rest))
    (line : ∀ s line rest, isBlank line = false → P (s.executeLine line).2 rest →
      P s (line :: rest))
    (s : Session) (lines : List Text) : P s lines := by
  induction lines generalizing s with
  | nil => exact nil s
  | cons l rest ih =>
    cases h : isBlank l with
    | true => exact blank s l rest h (ih s)
    | false => exact line s l rest h (ih _)

theorem lines_trace (s : Session) (lines : List Text) :
    (trace s lines).map (·.1) = lines.filter (!isBlank ·) := by
  induction s, lines using lines_induction with
  | nil s => rfl
  | blank s line rest h ih => rw [trace_blank s h, ih, List.filter_cons_of_neg (by simp [h])]
  | line s line rest h ih =>
    rw [trace_line s h, List.map_cons, ih, List.filter_cons_of_pos (by simp [h])]

/-- What a run leaves is read off its trace. -/
theorem runLines_eq {σ : Type} (listen : σ → Fault → σ) (s : Session) (heard : σ)
    (lines : List Text) :
    runLines listen s heard lines =
      ⟨afterLines s lines, faults (trace s lines),
        (faults (trace s lines)).foldl listen heard⟩ := by
  induction s, lines using lines_induction generalizing heard with
  | nil s => rfl
  | blank s line rest h ih => rw [runLines, if_pos h, ih, trace_blank s h, afterLines_blank s h]
  | line s line rest h ih =>
    rw [runLines, h, if_neg Bool.false_ne_true, trace_line s h, afterLines_line s h]
    rcases hl : s.executeLine line with ⟨fault | value, t⟩
    · rw [hl] at ih
      have hi := ih (listen heard fault)
      simp only [hi]
      rfl
    · rw [hl] at ih
      have hi := ih heard
      simp only [hi]
      rfl

theorem run_eq_ok {σ : Type} (s : Session) (listen : σ → Fault → σ) (heard : σ)
    {lines : List Text} (hne : lines ≠ []) :
    s.run listen heard lines = .ok ⟨afterLines s lines, faults (trace s lines),
      (faults (trace s lines)).foldl listen heard⟩ := by
  have hempty : ¬ lines.isEmpty = true := by simpa using hne
  rw [run, if_neg hempty, runLines_eq]

theorem session_of_run {σ : Type} {s : Session} {listen : σ → Fault → σ} {heard : σ}
    {lines : List Text} {r : Run σ} (hr : s.run listen heard lines = .ok r) :
    r.session = afterLines s lines := by
  rcases eq_or_ne lines [] with rfl | hne
  · cases hr
  · rw [run_eq_ok s listen heard hne] at hr
    obtain rfl := Except.ok.inj hr
    rfl

theorem trace_kept (s : Session) (lines : List Text) :
    trace s (kept s lines) = (trace s lines).filter Entry.succeeded := by
  induction s, lines using lines_induction with
  | nil s => rfl
  | blank s line rest h ih => rw [kept_blank s h, ih, trace_blank s h]
  | line s line rest h ih =>
    rcases hl : s.executeLine line with ⟨fault | value, t⟩
    · obtain rfl := executeLine_error hl
      rw [hl] at ih
      rw [kept_error h hl, ih, trace_line _ h, hl]
      rfl
    · rw [hl] at ih
      rw [kept_ok h hl, trace_line s h, trace_line s h, hl, ih]
      rfl

theorem afterLines_kept (s : Session) (lines : List Text) :
    afterLines s (kept s lines) = afterLines s lines := by
  induction s, lines using lines_induction with
  | nil s => rfl
  | blank s line rest h ih => rw [kept_blank s h, ih, afterLines_blank s h]
  | line s line rest h ih =>
    rcases hl : s.executeLine line with ⟨fault | value, t⟩
    · obtain rfl := executeLine_error hl
      rw [hl] at ih
      rw [kept_error h hl, ih, afterLines_line _ h, hl]
    · rw [hl] at ih
      rw [kept_ok h hl, afterLines_line s h, afterLines_line s h, hl, ih]

theorem faults_filter_succeeded (entries : List Entry) :
    faults (entries.filter Entry.succeeded) = [] := by
  refine List.filterMap_eq_nil_iff.mpr fun e he => ?_
  have hs := (List.mem_filter.mp he).2
  obtain ⟨line, fault | value⟩ := e
  · exact Bool.noConfusion hs
  · rfl

/-- A run handles each line that is not blank once and in order, and reports the faults of the
lines that fail. Without its blank lines and without those that fail it has no faults, the same
outcomes, and the same session at its end. -/
theorem run_kept {σ : Type} (s : Session) (listen : σ → Fault → σ) (heard : σ)
    {lines : List Text} (hne : lines ≠ []) :
    ∃ r : Run σ, s.run listen heard lines = .ok r ∧
      (trace s lines).map (·.1) = lines.filter (!isBlank ·) ∧
      r.session = afterLines s lines ∧
      r.faults = faults (trace s lines) ∧
      r.heard = r.faults.foldl listen heard ∧
      trace s (kept s lines) = (trace s lines).filter Entry.succeeded ∧
      (kept s lines ≠ [] → s.run listen heard (kept s lines) = .ok ⟨r.session, [], heard⟩) := by
  have hrun : ∀ {l : List Text}, l ≠ [] →
      s.run listen heard l = .ok (runLines listen s heard l) := by
    intro l hl
    have hempty : ¬ l.isEmpty = true := by simpa using hl
    rw [run, if_neg hempty]
  refine ⟨runLines listen s heard lines, hrun hne, lines_trace s lines, ?_, ?_, ?_,
    trace_kept s lines, fun hk => ?_⟩
  · rw [runLines_eq]
  · rw [runLines_eq]
  · rw [runLines_eq]
  · rw [hrun hk, runLines_eq, runLines_eq, trace_kept, faults_filter_succeeded, afterLines_kept]
    rfl

/-- The second line fails after an increment, which it does not keep. -/
theorem run_kept_failing_increment :
    let s : Session := { caller := .run }
    let lines := ["a = 1".toList, "b = a++ + c".toList, [], "d = a".toList]
    let t := afterLines s ["a = 1".toList]
    lines ≠ [] ∧ kept s lines = ["a = 1".toList, "d = a".toList] ∧
      (Expression.evaluate " a++ + c".toList t.vars).2.get? ['a'] = some 2 ∧
      t.executeLine "b = a++ + c".toList = (.error (.unknownVariable ['c'] " c".toList), t) ∧
      ∃ r : Run (List Fault), run s (fun heard f => heard ++ [f]) [] lines = .ok r ∧
        r.faults = [.unknownVariable ['c'] " c".toList] ∧ r.heard = r.faults ∧
        r.session.get? ['d'] = some 1 ∧
        run s (fun heard f => heard ++ [f]) [] (kept s lines) = .ok ⟨r.session, [], []⟩ := by
  intro s lines t
  have hne : lines ≠ [] := List.cons_ne_nil _ _
  have hkept : kept s lines = ["a = 1".toList, "d = a".toList] := by decide +kernel
  have hfaults : faults (trace s lines) = [.unknownVariable ['c'] " c".toList] := by
    decide +kernel
  have hd : (afterLines s lines).get? ['d'] = some 1 := by decide +kernel
  obtain ⟨r, hr, -, hs, hf, hheard, -, hk⟩ := run_kept s (fun heard f => heard ++ [f]) [] hne
  refine ⟨hne, hkept, by decide +kernel, by decide +kernel, r, hr, hf.trans hfaults, ?_, hs ▸ hd,
    hk (hkept ▸ List.cons_ne_nil _ _)⟩
  rw [hheard, hf, hfaults]
  rfl

end Worksheet.Session
