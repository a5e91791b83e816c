import Worksheet.Text.Blank
import Worksheet.Text.Quoted

/-! # UTF-8

Strict decoding: no byte order mark is skipped, no overlong form, surrogate or code point above
U+10FFFF is accepted. A refusal names the offending bytes, their place and the reason. A file is
decoded in chunks, and places are counted within them.
-/
namespace Worksheet

abbrev Bytes := List UInt8

namespace Text.Utf8

inductive Reason
  | invalidStart
  | invalidContinuation
  | unexpectedEnd
deriving DecidableEq, Repr

def Reason.message : Reason → Text
  | .invalidStart => "invalid start byte".toList
  | .invalidContinuation => "invalid continuation byte".toList
  | .unexpectedEnd => "unexpected end of data".toList

/-- The bytes that could not be read, from the first of them on. -/
structure Fault where
  position : Nat
  first : UInt8
  more : Bytes
  reason : Reason
deriving DecidableEq, Repr

def Fault.message (f : Fault) : Text :=
  let place := Nat.toDigits 10 f.position
  let what := match f.more with
    | [] => "byte 0x".toList ++ hex 2 f.first.toNat ++ " in position ".toList ++ place
    | more => "bytes in position ".toList ++ place ++ '-' ::
        Nat.toDigits 10 (f.position + more.length)
  "'utf-8' codec can't decode ".toList ++ what ++ ": ".toList ++ f.reason.message

/-- A sequence that has begun: its bytes so far, the value they spell, how many bytes are missing
after the next one, and the bounds of that next byte. -/
structure Pending where
  first : UInt8
  more : Bytes
  value : Nat
  missing : Nat
  low : UInt8
  high : UInt8

/-- What a byte begins: a character of its own, a sequence, or nothing. -/
inductive Lead
  | whole (c : Char)
  | sequence (p : Pending)
  | invalid

def lead (b : UInt8) : Lead :=
  let n := b.toNat
  if n < 0x80 then .whole (Char.ofNat n)
  else if n < 0xC2 then .invalid
  else if n < 0xE0 then .sequence ⟨b, [], n - 0xC0, 0, 0x80, 0xBF⟩
  else if n < 0xF0 then
    .sequence ⟨b, [], n - 0xE0, 1, if n = 0xE0 then 0xA0 else 0x80, if n = 0xED then 0x9F else 0xBF⟩
  else if n < 0xF5 then
    .sequence ⟨b, [], n - 0xF0, 2, if n = 0xF0 then 0x90 else 0x80, if n = 0xF4 then 0x8F else 0xBF⟩
  else .invalid

def Pending.length (p : Pending) : Nat :=
  p.more.length + 1

def Pending.accepts (p : Pending) (b : UInt8) : Bool :=
  p.low ≤ b && b ≤ p.high

/-- The value after one more byte, which carries six bits. -/
def Pending.valueWith (p : Pending) (b : UInt8) : Nat :=
  p.value * 64 + (b.toNat - 0x80)

def Pending.opensSurrogate (p : Pending) (b : UInt8) : Bool :=
  p.first = 0xED && p.more.isEmpty && 0xA0 ≤ b && b ≤ 0xBF

def Pending.fault (p : Pending) (position : Nat) (reason : Reason) : Fault :=
  ⟨position, p.first, p.more, reason⟩

/-- So many bytes are read from a file at a time. -/
def chunkSize : Nat := 8192

/-- A place in a chunk, and how many bytes of the chunk have not been read yet. -/
structure Place where
  position : Nat
  left : Nat

namespace Place

/-- Reads one byte, from the next chunk when this one is used up. What a chunk has left unfinished
is put in front of the next one. -/
def read (q : Place) : Place :=
  match q.left with
  | 0 => ⟨0, chunkSize - 1⟩
  | left + 1 => ⟨q.position, left⟩

def skip (q : Place) (n : Nat) : Place :=
  ⟨q.position + n, q.left⟩

end Place

/-- Decodes what follows the characters `done`, which are reversed, and the sequence begun at
`place`. A sequence that the end of the text cuts, also that of a surrogate, is read on its own, so
its position is 0; so is that of a surrogate which the end of a chunk cuts. -/
def decodeFrom (done : Text) (place : Place) : Option Pending → Bytes → Except Fault Text
  | none, [] => .ok done.reverse
  | some p, [] => .error (p.fault 0 .unexpectedEnd)
  | none, b :: rest =>
    let place := place.read
    match lead b with
    | .whole c => decodeFrom (c :: done) (place.skip 1) none rest
    | .sequence p => decodeFrom done place (some p) rest
    | .invalid => .error ⟨place.position, b, [], .invalidStart⟩
  | some p, b :: rest =>
    let place := place.read
    if p.accepts b then
      match p.missing with
      | 0 => decodeFrom (Char.ofNat (p.valueWith b) :: done) (place.skip (p.length + 1)) none rest
      | missing + 1 =>
        let next := ⟨p.first, p.more ++ [b], p.valueWith b, missing, 0x80, 0xBF⟩
        decodeFrom done place (some next) rest
    else
      let cut := p.opensSurrogate b && (rest.isEmpty || place.left = 0)
      .error (p.fault (if cut then 0 else place.position) .invalidContinuation)

def decode (bytes : Bytes) : Except Fault Text :=
  decodeFrom [] ⟨0, chunkSize⟩ none bytes

end Text.Utf8

end Worksheet
