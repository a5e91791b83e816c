import Worksheet.Command

/-! # The program

Reads the arguments and the file that they name, and prints the outcome of the command.
-/
namespace Worksheet.Program
open Worksheet.Command

/-- The number of a cause, which some calls report below zero. -/
def causeOf (code : UInt32) : Nat :=
  code.toInt32.toInt.natAbs

def openFault : IO.Error → OpenFault
  | .noFileOrDirectory _ code details | .otherError code details
  | .permissionDenied _ code details | .resourceExhausted _ code details
  | .inappropriateType _ code details | .invalidArgument _ code details
  | .noSuchThing _ code details => .ofCode (causeOf code) details.toList
  | e => .ofCode 0 (toString e).toList

def readFile (path : Text) : IO (Except OpenFault Bytes) := do
  try
    return .ok (← IO.FS.readBinFile (String.ofList path)).toList
  catch e =>
    return .error (openFault e)

end Worksheet.Program

open Worksheet in
def main (args : List String) : IO UInt32 := do
  let invocation := Command.Invocation.ofArguments (args.map String.toList)
  let contents ← match invocation with
    | .evaluate path _ => Program.readFile path
    | _ => pure (.ok [])
  let outcome := invocation.perform fun _ => contents
  IO.eprint (String.ofList outcome.logged)
  IO.print (String.ofList outcome.printed)
  if let some e := outcome.escaped? then
    IO.eprintln (String.ofList e.message)
  return outcome.exit.toUInt32
