import Worksheet.Command
import Worksheet.Proofs.Session.OneLine
import Worksheet.Proofs.Session.Solve

/-! # Printed lines

Over a file that is not empty, the command prints one line for each line that fails, and one with
the variables. Nothing that the file holds can end a printed line early, so what was printed can be
cut into its lines again.
-/
namespace Worksheet
open Text

namespace Command
open Session

section Lines

variable {texts : List Text}

theorem printLines_cons (t : Text) (texts : List Text) :
    printLines (t :: texts) = t ++ '\n' :: printLines texts := by
  unfold printLines
  rw [List.flatMap_cons, List.append_assoc, List.singleton_append]

theorem splitOn_printLines (h : ∀ t ∈ texts, '\n' ∉ t) :
    (printLines texts).splitOn '\n' = texts ++ [[]] := by
  induction texts with
  | nil => rfl
  | cons t texts ih =>
    obtain ⟨ht, htexts⟩ := List.forall_mem_cons.mp h
    have hsingle : t.splitOnP (· == '\n') = [t] := by
      apply List.splitOnP_eq_singleton
      rintro c hc
      exact beq_eq_false_iff_ne.mpr (ne_of_mem_of_not_mem hc ht)
    have hrest : (printLines texts).splitOnP (· == '\n') = texts ++ [[]] := ih htexts
    rw [printLines_cons, List.splitOn_eq_splitOnP, List.splitOnP_append_cons t _ rfl, hsingle,
      hrest, List.singleton_append, List.cons_append]

theorem count_printLines (h : ∀ t ∈ texts, '\n' ∉ t) :
    (printLines texts).count '\n' = texts.length := by
  induction texts with
  | nil => rfl
  | cons t texts ih =>
    obtain ⟨ht, htexts⟩ := List.forall_mem_cons.mp h
    rw [printLines_cons, List.count_append, List.count_cons_self, ih htexts,
      List.count_eq_zero_of_not_mem ht, List.length_cons]
    omega

end Lines

section Arguments

variable {path : Text}

theorem classify_path (h : path.head? ≠ some '-') : classify path = .path := by
  have hfind : options.find? (·.1 = path) = none := by
    rw [List.find?_eq_none]
    intro option hoption
    have hdash : ∀ o ∈ options, o.1.head? = some '-' := by decide
    rw [decide_eq_true_eq]
    rintro rfl
    exact h (hdash option hoption)
  unfold classify
  rw [hfind]
  split
  · next heq => cases heq
  · exact absurd rfl h
  · exact absurd rfl h
  · rfl

theorem ofArguments_path (h : path.head? ≠ some '-') :
    Invocation.ofArguments [path] = .evaluate path false := by
  have hend : path ≠ endOfOptions := by
    rintro rfl
    exact h rfl
  have hread : read {} [path] = .evaluate path false := by
    unfold read
    rw [if_neg hend, classify_path h]
    rfl
  unfold Invocation.ofArguments
  simp [hend, classify_path h, hread]

end Arguments

end Command

namespace Session

theorem map_fault?_filter (entries : List Entry) :
    (entries.filter (!·.succeeded)).map Entry.fault? = (faults entries).map some := by
  induction entries with
  | nil => rfl
  | cons e entries ih =>
    obtain ⟨line, fault | value⟩ := e
    · exact congrArg (some fault :: ·) ih
    · exact ih

end Session

namespace Command
open Session

variable {readFile : Text → Except OpenFault Bytes} {args : List Text} {path : Text}
  {verbose : Bool} {bytes : Bytes} {text : Text}

theorem evaluateFile_ok (path : Text) (verbose : Bool) (h : Utf8.decode bytes = .ok text)
    (hne : lines text ≠ []) :
    (evaluateFile path verbose (.ok bytes)).exit = 0 ∧
      (evaluateFile path verbose (.ok bytes)).printed =
        printLines ((faults (trace { caller := .command } (lines text))).map Fault.message ++
          [(afterLines { caller := .command } (lines text)).output]) := by
  unfold evaluateFile
  rw [solve_ok path _ () h hne]
  exact ⟨rfl, rfl⟩

/-- A command that is to evaluate a text file with any lines succeeds. It prints the messages of the
lines that fail, in their order, and then the variables that all lines leave. These are the lines of
what it prints, whatever characters the file holds: there are no other line feeds. -/
theorem run_printed (hargs : Invocation.ofArguments args = .evaluate path verbose)
    (hfile : readFile path = .ok bytes) (htext : Utf8.decode bytes = .ok text)
    (hne : text ≠ []) :
    let entries := trace { caller := .command } (lines text)
    let messages := (faults entries).map Fault.message
    let output := (afterLines { caller := .command } (lines text)).output
    (run readFile args).exit = 0 ∧
      (run readFile args).printed = printLines (messages ++ [output]) ∧
      entries.map (·.1) = (lines text).filter (!isBlank ·) ∧
      (entries.filter (!·.succeeded)).map Entry.fault? = (faults entries).map some ∧
      (∀ t ∈ messages ++ [output], '\n' ∉ t) ∧
      (run readFile args).printed.splitOn '\n' = messages ++ [output] ++ [[]] ∧
      (run readFile args).printed.count '\n' = (entries.filter (!·.succeeded)).length + 1 := by
  intro entries messages output
  have hrun : run readFile args = evaluateFile path verbose (.ok bytes) := by
    unfold run
    rw [hargs, Invocation.perform, hfile]
  obtain ⟨hexit, hprinted⟩ := evaluateFile_ok path verbose htext (lines_ne_nil hne)
  have hfailing := map_fault?_filter entries
  have hlength : messages.length = (entries.filter (!·.succeeded)).length := by
    have hsame := congrArg List.length hfailing
    rw [List.length_map, List.length_map] at hsame
    rw [List.length_map, hsame]
  have hsingle : ∀ t ∈ messages ++ [output], '\n' ∉ t := by
    intro t ht
    rcases List.mem_append.mp ht with ht | ht
    · obtain ⟨f, hf, rfl⟩ := List.mem_map.mp ht
      exact lineFeed_not_mem_message hf
    · rw [List.mem_singleton.mp ht]
      exact lineFeed_not_mem_output _ fun line hl => (not_lineEnd_of_mem_lines hl).1
  rw [hrun, hprinted]
  refine ⟨hexit, rfl, lines_trace _ (lines text), hfailing, hsingle, splitOn_printLines hsingle, ?_⟩
  rw [count_printLines hsingle, List.length_append, hlength, List.length_singleton]

/-- The second line fails, and shows a line separator and a control character in its message. -/
theorem run_printed_odd_characters :
    let text := "a = 1\nb = a +\u2028\x07c\na += 1".toList
    let readFile : Text → Except OpenFault Bytes := fun _ => .ok (Utf8.encode text)
    Invocation.ofArguments [['f']] = .evaluate ['f'] false ∧ text ≠ [] ∧
      (run readFile [['f']]).exit = 0 ∧ (run readFile [['f']]).printed.count '\n' = 2 := by
  intro text readFile
  have hargs : Invocation.ofArguments [['f']] = .evaluate ['f'] false :=
    ofArguments_path (by decide)
  have hfile : readFile ['f'] = .ok (Utf8.encode text) := rfl
  have hne : text ≠ [] := by decide
  obtain ⟨hexit, -, -, -, -, -, hcount⟩ :=
    run_printed hargs hfile (Utf8.decode_encode text) hne
  have hfailing :
      ((trace { caller := .command } (lines text)).filter (!·.succeeded)).length = 1 := by
    decide +kernel
  exact ⟨hargs, hne, hexit, hcount.trans (congrArg (· + 1) hfailing)⟩

end Command

end Worksheet
