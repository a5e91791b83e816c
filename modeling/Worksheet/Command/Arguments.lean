import Worksheet.Text.Blank
import Worksheet.Text.Digit

/-! # Arguments

A command line holds one path and may hold options. An option may be shortened as long as it stays
unambiguous, and takes no value. A number below zero and anything with a space in it is no option.
After two dashes there are no options.
-/
namespace Worksheet.Command
open Text

inductive Invocation
  | usageError
  | help
  | evaluate (path : Text) (verbose : Bool)
deriving DecidableEq, Repr

inductive Argument
  | path
  | help
  | verbose
  | unknown
  | overfull
  /-- The beginning of several options. -/
  | ambiguous
deriving DecidableEq, Repr

def shortHelp : Text := "-h".toList

def endOfOptions : Text := "--".toList

def options : List (Text × Argument) :=
  [(shortHelp, .help), ("--help".toList, .help), ("--verbose".toList, .verbose)]

def allDigits (s : Text) : Bool :=
  !s.isEmpty && s.all isDecimalDigit

/-- Whether what follows a dash is a decimal number; a line feed may end it. -/
def isNumber (s : Text) : Bool :=
  let s := if s.getLast? = some '\n' then s.dropLast else s
  allDigits s || match s.dropWhile isDecimalDigit with
    | '.' :: fraction => allDigits fraction
    | _ => false

def unnamed (arg : Text) : Argument :=
  if isNumber arg.tail || ' ' ∈ arg then .path else .unknown

/-- What follows `-h` in the same argument may repeat its letter, behind an equals sign or not.
Anything else is a value. -/
def joined (rest : Text) : Argument :=
  let letters := if rest.head? = some '=' then rest.tail else rest
  if letters ≠ [] ∧ letters.all (· = 'h') then .help else .overfull

def short (arg : Text) : Argument :=
  match shortHelp.isPrefixOf? arg with
  | some rest => joined rest
  | none => unnamed arg

def long (arg : Text) : Argument :=
  let name := arg.takeWhile (· ≠ '=')
  let hasValue := name ≠ arg
  let meant := match options.find? (·.1 = name) with
    | some option => [option]
    | none => options.filter (name.isPrefixOf ·.1)
  match meant with
  | [] => unnamed arg
  | [option] => if hasValue then .overfull else option.2
  | _ => .ambiguous

def classify (arg : Text) : Argument :=
  match options.find? (·.1 = arg), arg with
  | some option, _ => option.2
  | none, '-' :: '-' :: _ => long arg
  | none, '-' :: _ :: _ => short arg
  | none, _ => .path

/-- What has been read so far: the path, whether it is the last argument read, whether the option
to be verbose was met, and whether there was an argument too many. -/
structure Reading where
  path? : Option Text := none
  atPath : Bool := false
  verbose : Bool := false
  surplus : Bool := false

def Reading.finish (r : Reading) : Invocation :=
  match r.path?, r.surplus with
  | some path, false => .evaluate path r.verbose
  | _, _ => .usageError

/-- After two dashes follows the path, unless it stands directly before them. -/
def Reading.finishWith (r : Reading) (rest : List Text) : Invocation :=
  match r.path?, rest with
  | none, [path] => { r with path? := some path }.finish
  | some _, [] => if r.atPath then r.finish else .usageError
  | _, _ => .usageError

/-- Help is given as soon as it is asked for, before anything that follows is refused. -/
def read (r : Reading) : List Text → Invocation
  | [] => r.finish
  | arg :: rest =>
    if arg = endOfOptions then r.finishWith rest
    else match classify arg with
      | .help => .help
      | .overfull | .ambiguous => .usageError
      | .verbose => read { r with verbose := true, atPath := false } rest
      | .unknown => read { r with surplus := true, atPath := false } rest
      | .path =>
        if r.path?.isSome then read { r with surplus := true, atPath := false } rest
        else read { r with path? := some arg, atPath := true } rest

/-- An ambiguous option is refused before anything is done. -/
def Invocation.ofArguments (args : List Text) : Invocation :=
  if (args.takeWhile (· ≠ endOfOptions)).any (classify · = .ambiguous) then .usageError
  else read {} args

end Worksheet.Command
