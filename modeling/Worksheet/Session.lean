import Worksheet.Statement

/-! # Sessions

A session holds the variables of one run. Each statement sees the results of those before it. A
statement that fails leaves the session as it was, also where steps were made before the failure.

Statements reach a session through calls inside each other: the command solves a file, this runs
the lines of the file, a run executes each line, and a line is executed as a statement. Any of these
can also be called by itself. The calls around an evaluation leave it fewer levels.
-/
namespace Worksheet
open Text

/-- The outermost call around the statements of a session. -/
inductive Caller
  | statement
  | line
  | run
  | file
  | command
deriving DecidableEq, Repr

/-- The number of calls around an evaluation. -/
def Caller.calls : Caller → Nat
  | statement => 1
  | line => 2
  | run => 3
  | file => 4
  | command => 5

@[ext]
structure Session where
  vars : Variables Float := .empty
  caller : Caller := .line
deriving DecidableEq

namespace Session

/-- The levels that are left for the expressions of a session. -/
def depth (s : Session) : Nat :=
  Expression.maxDepth - s.caller.calls

def get? (s : Session) (name : Text) : Option Float :=
  s.vars.get? name

/-- The outcome of a statement and the session after it. -/
def execute (s : Session) (statement : Statement) : Except Fault Float × Session :=
  match Expression.evaluate statement.expression s.vars s.depth with
  | (.ok value, vars) => (.ok value, { s with vars := vars.insert statement.target value })
  | (.error failure, _) => (.error (.ofFailure statement.expression failure), s)

def executeLine (s : Session) (line : Text) : Except Fault Float × Session :=
  match Statement.ofLine line with
  | .error fault => (.error fault, s)
  | .ok statement => s.execute statement

/-- The faults of a run in the order of its lines, what a listener made of them, and the session
after the last line. -/
structure Run (σ : Type) where
  session : Session
  faults : List Fault
  heard : σ

/-- Runs lines one after the other. Blank lines are skipped; each fault goes to the listener. -/
def runLines {σ : Type} (listen : σ → Fault → σ) : Session → σ → List Text → Run σ
  | s, heard, [] => ⟨s, [], heard⟩
  | s, heard, line :: rest =>
    if isBlank line then runLines listen s heard rest
    else match s.executeLine line with
      | (.ok _, s) => runLines listen s heard rest
      | (.error fault, s) =>
        let later := runLines listen s (listen heard fault) rest
        { later with faults := fault :: later.faults }

/-- Runs a source, which must have lines. -/
def run {σ : Type} (s : Session) (listen : σ → Fault → σ) (heard : σ) (lines : List Text) :
    Except Fault (Run σ) :=
  if lines.isEmpty then .error .noStatements else .ok (runLines listen s heard lines)

def showVariable (entry : Text × Float) : Text :=
  entry.1 ++ '=' :: Number.shown entry.2

def output (s : Session) : Text :=
  '(' :: [','].intercalate (s.vars.entries.map showVariable) ++ [')']

theorem le_depth (s : Session) : 991 ≤ s.depth := by
  unfold depth
  cases s.caller <;> decide

@[simp]
theorem execute_caller (s : Session) (statement : Statement) :
    (s.execute statement).2.caller = s.caller := by
  unfold execute
  split <;> rfl

theorem execute_error {s t : Session} {statement : Statement} {fault : Fault}
    (h : s.execute statement = (.error fault, t)) : t = s := by
  unfold execute at h
  split at h
  · simp at h
  · exact (Prod.mk.inj h).2.symm

@[simp]
theorem executeLine_caller (s : Session) (line : Text) :
    (s.executeLine line).2.caller = s.caller := by
  unfold executeLine
  split
  · rfl
  · exact s.execute_caller _

/-- A line that fails changes nothing. -/
theorem executeLine_error {s t : Session} {line : Text} {fault : Fault}
    (h : s.executeLine line = (.error fault, t)) : t = s := by
  unfold executeLine at h
  split at h
  · exact (Prod.mk.inj h).2.symm
  · exact execute_error h

end Session

end Worksheet
