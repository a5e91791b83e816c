import Worksheet.Expression.Operator

/-! # Padding

The operators of a text cut it into chunks. Padding puts exactly one space on each side of every
operator and leaves everything else as it is; in particular the two outer ends of the text.
-/
namespace Worksheet.Expression
open Text

/-- A text cut at its operators: the first chunk, and each operator with the chunk after it. -/
abbrev Chunks := Text × List (BinaryOp × Text)

def chunksAfter (before : Option Char) : Text → Chunks
  | [] => ([], [])
  | c :: rest =>
    let (chunk, later) := chunksAfter (some c) rest
    match operatorAt before c rest.head? with
    | some op => ([], (op, chunk) :: later)
    | none => (c :: chunk, later)

def chunks (s : Text) : Chunks :=
  chunksAfter none s

def padTail : List (BinaryOp × Text) → Text
  | [] => []
  | [(op, chunk)] => ' ' :: op.char :: ' ' :: trimLeft chunk
  | (op, chunk) :: later => ' ' :: op.char :: ' ' :: trim chunk ++ padTail later

def pad (s : Text) : Text :=
  match chunks s with
  | (chunk, []) => chunk
  | (chunk, later) => trimRight chunk ++ padTail later

def join : Chunks → Text
  | (chunk, later) => chunk ++ later.flatMap fun p => p.1.char :: p.2

theorem join_chunksAfter (before : Option Char) (s : Text) :
    join (chunksAfter before s) = s := by
  induction s generalizing before with
  | nil => rfl
  | cons c rest ih =>
    have h := ih (some c)
    simp only [chunksAfter]
    split
    · next op hop =>
      have hc := BinaryOp.eq_char_of_occursAt (operatorAt_eq_some_iff.mp hop)
      simpa [join, ← hc] using h
    · simpa [join] using h

/-- Cutting loses nothing. -/
theorem join_chunks (s : Text) : join (chunks s) = s :=
  join_chunksAfter none s

example : pad "a+b*  c".toList = "a + b * c".toList := by decide
example : pad "a++ +--b".toList = "a++ + --b".toList := by decide

end Worksheet.Expression
