import Worksheet.Proofs.Command.Printed
import Worksheet.Proofs.Session.Callers
import Worksheet.Proofs.Source.Folder
import Worksheet.Proofs.Text.LineEnds
import Worksheet.Proofs.Text.Strictness

/-! # Sources

A file is read as it was written, with line ends of any kind, or refused as a whole. A source
without lines is refused as well, but not one whose lines are all blank: the command then prints
the variables of a session in which nothing was evaluated.
-/
namespace Worksheet
open Text

variable {contents : Except OpenFault Bytes} {fault : Fault} {bytes : Bytes} {path : Text}

theorem sourceLines_error {f : Utf8.Fault} (path : Text) (h : Utf8.decode bytes = .error f) :
    sourceLines path (.ok bytes) = .error (.sourceUnavailable path f.message) := by
  unfold sourceLines
  dsimp only
  rw [h]

namespace Session

section Blank

variable {lines : List Text}

theorem filter_of_blank (h : ∀ l ∈ lines, isBlank l = true) : lines.filter (!isBlank ·) = [] := by
  rw [List.filter_eq_nil_iff]
  intro l hl
  rw [h l hl]
  exact Bool.false_ne_true

theorem afterLines_of_blank (s : Session) (h : ∀ l ∈ lines, isBlank l = true) :
    afterLines s lines = s := by
  rw [afterLines, filter_of_blank h, List.foldl_nil]

theorem trace_of_blank (s : Session) (h : ∀ l ∈ lines, isBlank l = true) : trace s lines = [] := by
  have hlines := lines_trace s lines
  rw [filter_of_blank h] at hlines
  exact List.map_eq_nil_iff.mp hlines

end Blank

end Session

namespace Command
open Session

/-- Nothing but a fatal fault ends a run over a file. -/
theorem isFatal_of_solve {σ : Type} {listen : σ → Fault → σ} {heard : σ} {caller : Caller}
    (h : solve path contents listen heard caller = .error fault) : fault.isFatal = true := by
  unfold solve at h
  cases hl : sourceLines path contents with
  | error f =>
    rw [hl] at h
    obtain rfl := Except.error.inj h
    unfold sourceLines at hl
    split at hl
    · obtain rfl := Except.error.inj hl
      rfl
    · split at hl
      · obtain rfl := Except.error.inj hl
        rfl
      · cases hl
  | ok lines =>
    rw [hl] at h
    dsimp only at h
    unfold Session.run at h
    split at h
    · obtain rfl := Except.error.inj h
      rfl
    · cases h

theorem evaluateFile_error (verbose : Bool)
    (h : solve path contents (fun (heard : Unit) _ => heard) () .command = .error fault) :
    evaluateFile path verbose contents =
      { exit := 1, printed := printLines [fault.message], logged := [] } := by
  have hfatal : (Raised.fault fault).isFatal = .ok true := congrArg Except.ok (isFatal_of_solve h)
  unfold evaluateFile
  rw [h]
  unfold Outcome.ofFault
  dsimp only
  rw [hfatal]

/-- The command handles every error that evaluating a file can end with. -/
theorem escaped?_run (readFile : Text → Except OpenFault Bytes) (args : List Text) :
    (run readFile args).escaped? = none := by
  unfold run
  cases Invocation.ofArguments args with
  | usageError | help => rfl
  | evaluate path verbose =>
    change (evaluateFile path verbose (readFile path)).escaped? = none
    cases h : solve path (readFile path) (fun (heard : Unit) _ => heard) () .command with
    | error fault => rw [evaluateFile_error verbose h]
    | ok r =>
      unfold evaluateFile
      rw [h]

end Command

namespace Session
open Expression Command

variable {σ : Type} (path : Text) (listen : σ → Fault → σ) (heard : σ)

/-- Lines are read as they were written, whatever their ends, and a file that holds them is run like
the lines themselves: inside the calls for a file, and as a run by itself unless one of the lines is
too deep for the file only. Bytes that are not valid, wherever the fault in them is, are refused
before any line is run: the command prints this fault alone, and logs nothing. -/
theorem solve_written :
    (∀ p : Layout,
      let bytes := Utf8.encode p.text
      sourceLines path (.ok bytes) = .ok p.lines ∧
        solve path (.ok bytes) listen heard = run { caller := .file } listen heard p.lines ∧
        (p.lines ≠ [] → solve path (.ok bytes) listen heard =
          .ok ⟨afterLines { caller := .file } p.lines, faults (trace { caller := .file } p.lines),
            (faults (trace { caller := .file } p.lines)).foldl listen heard⟩) ∧
        (p.lines ≠ [] → AsDeepFor .file { caller := .run } p.lines → ∃ r : Run σ,
          run { caller := .run } listen heard p.lines = .ok r ∧
            solve path (.ok bytes) listen heard =
              .ok { r with session := { r.session with caller := .file } })) ∧
    ∀ bytes : Bytes, ¬ bytes.toByteArray.IsValidUTF8 → ∃ f : Utf8.Fault,
      let fault := Fault.sourceUnavailable path f.message
      Utf8.decode bytes = .error f ∧
        sourceLines path (.ok bytes) = .error fault ∧
        (∀ caller, solve path (.ok bytes) listen heard caller = .error fault) ∧
        ∀ verbose, evaluateFile path verbose (.ok bytes) =
          { exit := 1, printed := printLines [fault.message], logged := [] } := by
  constructor
  · intro p bytes
    have hread : sourceLines path (.ok bytes) = .ok p.lines := by
      rw [sourceLines_encode, Layout.lines_text]
    have hsolve := solve_lines path listen heard hread .file
    refine ⟨hread, hsolve, fun hne => ?_, fun hne hdeep => ⟨_, run_eq_ok _ _ _ hne, ?_⟩⟩
    · rw [hsolve, run_eq_ok _ listen heard hne]
    · obtain ⟨htrace, hafter⟩ := trace_of_caller (by decide) hdeep
      rw [hsolve, run_eq_ok _ listen heard hne, htrace, hafter]
  · intro bytes hinvalid
    obtain ⟨f, hf⟩ := Utf8.exists_fault hinvalid
    have hread := sourceLines_error path hf
    exact ⟨f, hf, hread, solve_error path listen heard hread,
      fun verbose => evaluateFile_error verbose (solve_error path _ _ hread .command)⟩

/-- Ends of all kinds, a line separator that is no end and a last line without one, which fails;
then a line with half a surrogate pair behind it. -/
theorem solve_written_mixed_ends :
    let p : Layout := ⟨[("a = 1".toList, .carriageReturn), ([], .both),
      ("b = a\u2028+ 2".toList, .lineFeed), ([], .lineFeed)], some "c = z".toList,
      by decide, by decide, by decide⟩
    let bytes := Utf8.encode "a = 1\n".toList ++ [0xED, 0xA0, 0x80]
    p.lines ≠ [] ∧ AsDeepFor .file { caller := .run } p.lines ∧
      (∃ r, solve ['f'] (.ok (Utf8.encode p.text)) (fun n _ => n + 1) 0 = .ok r ∧
        r.session.vars.names = [['a'], ['b']] ∧
        r.faults = [.unknownVariable ['z'] [' ', 'z']] ∧ r.heard = 1) ∧
      ¬ bytes.toByteArray.IsValidUTF8 ∧
      ∃ fault : Fault, fault.diagnostic = .problemReadingFile ∧
        evaluateFile ['f'] true (.ok bytes) =
          { exit := 1, printed := printLines [fault.message], logged := [] } := by
  intro p bytes
  obtain ⟨hwritten, hinvalid⟩ := solve_written ['f'] (fun n _ => n + 1) 0
  have hne : p.lines ≠ [] := List.cons_ne_nil _ _
  have hdeep : AsDeepFor .file { caller := .run } p.lines :=
    (Reachable.fresh.call .run).wellNamed.asDeepFor .file (by decide +kernel)
  have hbytes : ¬ bytes.toByteArray.IsValidUTF8 := by
    rw [Utf8.isValidUTF8_iff]
    rintro ⟨s, hs⟩
    have hfault : (Utf8.decode bytes).isOk = false := by decide +kernel
    rw [hs] at hfault
    cases hfault
  obtain ⟨r, hr, hsolve⟩ := (hwritten p).2.2.2 hne hdeep
  rw [run_eq_ok _ _ _ hne] at hr
  obtain rfl := Except.ok.inj hr
  obtain ⟨f, -, -, -, houtcome⟩ := hinvalid bytes hbytes
  exact ⟨hne, hdeep, ⟨_, hsolve, by decide +kernel, by decide +kernel, by decide +kernel⟩,
    hbytes, _, rfl, houtcome true⟩

/-- A line with so many signs that it is stored by a run and too deep in a file. -/
theorem solve_written_deep_signs :
    let line := ['x'] ++ " =".toList ++ behindSigns ['1'] 992
    let text := line ++ ['\n']
    (∃ p : Layout, p.text = text ∧ p.lines = [line]) ∧
      (∃ r : Run Unit, run { caller := .run } (fun heard _ => heard) () [line] = .ok r ∧
        r.faults = [] ∧ r.session.vars.names = [['x']]) ∧
      ∃ r : Run Unit, solve ['f'] (.ok (Utf8.encode text)) (fun heard _ => heard) () = .ok r ∧
        r.faults = [.tooDeep (pad (behindSigns ['1'] 992))] ∧ r.session.vars.names = [] := by
  intro line text
  have hline : IsLine line := isLine_behindSigns (by decide) (by decide) 992
  have hblank : isBlank line = false := rfl
  let p : Layout := ⟨[(line, .lineFeed)], none, by simpa using hline, by simp, by simp⟩
  have htext : p.text = text := by simp [p, Layout.text, LineEnd.text, text]
  have hlines : p.lines = [line] := rfl
  have hsolve := solve_lines ['f'] (fun (heard : Unit) _ => heard) ()
    (sourceLines_encode ['f'] p.text) .file
  have hrun : executeLine { caller := .run } line = _ := executeLine_one_behindSigns .run 992
  have hfile : executeLine { caller := .file } line = _ := executeLine_one_behindSigns .file 992
  rw [if_pos (by decide)] at hrun
  rw [if_neg (by decide)] at hfile
  refine ⟨⟨p, htext, hlines⟩, ⟨_, run_eq_ok _ _ _ (List.cons_ne_nil _ _), ?_, ?_⟩, ?_⟩
  · rw [trace_single _ hblank, hrun]
    rfl
  · rw [afterLines_single _ hblank, hrun]
    rfl
  · rw [Layout.lines_text, htext, hlines, run_eq_ok _ _ _ (List.cons_ne_nil _ _)] at hsolve
    refine ⟨_, hsolve, ?_, ?_⟩
    · rw [trace_single _ hblank, hfile]
      rfl
    · rw [afterLines_single _ hblank, hfile]
      rfl

end Session

namespace Command
open Session

section Emptiness

variable {readFile : Text → Except OpenFault Bytes} {args : List Text} {verbose : Bool}
  {text : Text}

theorem run_evaluate (hargs : Invocation.ofArguments args = .evaluate path verbose)
    (hfile : readFile path = .ok bytes) :
    run readFile args = evaluateFile path verbose (.ok bytes) := by
  rw [run, hargs, Invocation.perform, hfile]

theorem run_refused {f : OpenFault} (hargs : Invocation.ofArguments args = .evaluate path verbose)
    (hfile : readFile path = .error f) :
    run readFile args =
      { exit := 1
        printed := printLines [(Fault.sourceUnavailable path (f.message path)).message]
        logged := [] } := by
  rw [run, hargs, Invocation.perform, hfile]
  exact evaluateFile_error verbose rfl

theorem evaluateFile_empty (path : Text) (verbose : Bool) (h : Utf8.decode bytes = .ok []) :
    evaluateFile path verbose (.ok bytes) =
      { exit := 1, printed := printLines [Fault.noStatements.message], logged := [] } :=
  evaluateFile_error verbose (solve_lines path _ _ (sourceLines_ok path h) .command)

/-- The command succeeds exactly when it can read a text that is not empty. -/
theorem run_exit_eq_zero_iff (hargs : Invocation.ofArguments args = .evaluate path verbose) :
    (run readFile args).exit = 0 ↔
      ∃ bytes text, readFile path = .ok bytes ∧ Utf8.decode bytes = .ok text ∧ text ≠ [] := by
  constructor
  · intro h
    cases hfile : readFile path with
    | error f =>
      rw [run_refused hargs hfile] at h
      cases h
    | ok bytes =>
      rw [run_evaluate hargs hfile] at h
      cases htext : Utf8.decode bytes with
      | error f =>
        rw [evaluateFile_error verbose (solve_error _ _ _ (sourceLines_error path htext) _)] at h
        cases h
      | ok text =>
        refine ⟨bytes, text, rfl, htext, ?_⟩
        rintro rfl
        rw [evaluateFile_empty path verbose htext] at h
        cases h
  · rintro ⟨bytes, text, hfile, htext, hne⟩
    rw [run_evaluate hargs hfile]
    exact (evaluateFile_ok path verbose htext (lines_ne_nil hne)).1

section Folders

variable {folder : Folder} {place : List Text}

theorem exists_file_of_run_folder (hargs : Invocation.ofArguments args = .evaluate path verbose)
    (h : (run folder.openFile args).exit = 0) :
    ∃ place bytes text, Folder.resolve path = some place ∧ (place, bytes) ∈ folder.files ∧
      Utf8.decode bytes = .ok text ∧ text ≠ [] := by
  obtain ⟨bytes, text, hfile, htext, hne⟩ := (run_exit_eq_zero_iff hargs).mp h
  obtain ⟨place, hplace, hmem⟩ := Folder.mem_files_of_openFile hfile
  exact ⟨place, bytes, text, hplace, hmem, htext, hne⟩

theorem run_folder_of_mem (hfolder : folder.Sound) (hmem : (place, bytes) ∈ folder.files)
    (hplace : place ≠ []) (hsize : Folder.size (['/'].intercalate place) ≤ Folder.maxPathSize)
    (hargs : Invocation.ofArguments args = .evaluate (['/'].intercalate place) verbose)
    (htext : Utf8.decode bytes = .ok text) (hne : text ≠ []) :
    (run folder.openFile args).exit = 0 :=
  (run_exit_eq_zero_iff hargs).mpr
    ⟨bytes, text, hfolder.openFile_of_mem hmem hplace hsize, htext, hne⟩

end Folders

theorem evaluateFile_blank (path : Text) (verbose : Bool) (h : Utf8.decode bytes = .ok text)
    (hne : text ≠ []) (hblank : ∀ l ∈ lines text, isBlank l = true) :
    (evaluateFile path verbose (.ok bytes)).exit = 0 ∧
      (evaluateFile path verbose (.ok bytes)).printed = printLines ["()".toList] := by
  obtain ⟨hexit, hprinted⟩ := evaluateFile_ok path verbose h (lines_ne_nil hne)
  rw [trace_of_blank _ hblank, afterLines_of_blank _ hblank] at hprinted
  exact ⟨hexit, hprinted⟩

/-- Provided that a source is empty or has a line that is not blank, it is reported to hold no
equations exactly when all its lines are blank. A source that has lines, all of them blank, is run
like one with equations, and succeeds. -/
theorem run_emptiness (hargs : Invocation.ofArguments args = .evaluate path verbose)
    (hfile : readFile path = .ok bytes) (htext : Utf8.decode bytes = .ok text) :
    let outcome := run readFile args
    let nothing := outcome =
      { exit := 1, printed := printLines [Fault.noStatements.message], logged := [] }
    let blank := ∀ l ∈ lines text, isBlank l = true
    (text = [] ∨ ¬ blank → (nothing ↔ blank) ∧ (¬ blank → outcome.exit = 0)) ∧
      (text ≠ [] → blank → outcome.exit = 0 ∧ outcome.printed = printLines ["()".toList]) := by
  intro outcome nothing blank
  have hrun : outcome = evaluateFile path verbose (.ok bytes) := run_evaluate hargs hfile
  have hempty : text = [] → nothing ∧ blank := by
    rintro rfl
    exact ⟨hrun.trans (evaluateFile_empty path verbose htext), List.forall_mem_nil _⟩
  have hexit : ¬ blank → outcome.exit = 0 := by
    intro hblank
    have hne : text ≠ [] := fun h => hblank (hempty h).2
    rw [hrun]
    exact (evaluateFile_ok path verbose htext (lines_ne_nil hne)).1
  refine ⟨fun h => ⟨?_, hexit⟩, fun hne hblank => ?_⟩
  · rcases h with h | hblank
    · exact iff_of_true (hempty h).1 (hempty h).2
    · refine iff_of_false (fun hnothing => ?_) hblank
      have hone : outcome.exit = 1 := congrArg Outcome.exit hnothing
      rw [hexit hblank] at hone
      exact Nat.zero_ne_one hone
  · rw [hrun]
    exact evaluateFile_blank path verbose htext hne hblank

/-- An empty file, one with blanks of several kinds before a line that is malformed, and one with
these blanks alone. -/
theorem run_emptiness_blanks :
    let file : Text → Text → Except OpenFault Bytes := fun text _ => .ok (Utf8.encode text)
    let blanks := "\u3000\n\t\r\n".toList
    Invocation.ofArguments [['f']] = .evaluate ['f'] false ∧
      run (file []) [['f']] =
        { exit := 1, printed := printLines [Fault.noStatements.message], logged := [] } ∧
      (run (file (blanks ++ "1 =".toList)) [['f']]).exit = 0 ∧
      (run (file blanks) [['f']]).exit = 0 ∧
      (run (file blanks) [['f']]).printed = "()\n".toList := by
  intro file blanks
  have hargs : Invocation.ofArguments [['f']] = .evaluate ['f'] false :=
    ofArguments_path (by decide)
  have hfile (text : Text) : file text ['f'] = .ok (Utf8.encode text) := rfl
  have hresult (text : Text) := run_emptiness hargs (hfile text) (Utf8.decode_encode text)
  have hline : ¬ ∀ l ∈ lines (blanks ++ "1 =".toList), isBlank l = true := by decide +kernel
  have hblank : ∀ l ∈ lines blanks, isBlank l = true := by decide +kernel
  exact ⟨hargs, ((hresult []).1 (.inl rfl)).1.mpr (List.forall_mem_nil _),
    ((hresult _).1 (.inr hline)).2 hline, (hresult blanks).2 (by decide) hblank⟩

/-- A file of one empty line holds no statement, and is not reported. -/
theorem run_emptiness_line_feed :
    let readFile : Text → Except OpenFault Bytes := fun _ => .ok (Utf8.encode ['\n'])
    (∀ l ∈ lines ['\n'], isBlank l = true) ∧ (run readFile [['f']]).exit = 0 ∧
      (run readFile [['f']]).printed = "()\n".toList := by
  decide +kernel

end Emptiness

end Command

end Worksheet
