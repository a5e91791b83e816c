import Worksheet.Text.Blank
import Worksheet.Text.Printable

/-! # Quoted text

A quoted text stands between two marks on one line. The marks are single unless the text holds a
single mark and no double one. The mark in use, the backslash and every unprintable character
are escaped.
-/
namespace Worksheet.Text

def singleMark : Char := '\x27'

def doubleMark : Char := '\x22'

/-- The last `width` hexadecimal digits of a number, in lower case. -/
def hex : (width : Nat) → Nat → Text
  | 0, _ => []
  | width + 1, n => hex width (n / 16) ++ [Nat.digitChar (n % 16)]

/-- The shortest of the three numeric escapes that has room for the code point. -/
def numericEscape (c : Char) : Text :=
  let n := c.toNat
  if n < 0x100 then ['\\', 'x'] ++ hex 2 n
  else if n < 0x10000 then ['\\', 'u'] ++ hex 4 n
  else ['\\', 'U'] ++ hex 8 n

def quoteChar (mark c : Char) : Text :=
  if c = mark ∨ c = '\\' then ['\\', c]
  else if c = '\n' then ['\\', 'n']
  else if c = '\r' then ['\\', 'r']
  else if c = '\t' then ['\\', 't']
  else if isPrintable c then [c]
  else numericEscape c

def quotationMark (s : Text) : Char :=
  if singleMark ∈ s ∧ doubleMark ∉ s then doubleMark else singleMark

def quote (s : Text) : Text :=
  let mark := quotationMark s
  mark :: s.flatMap (quoteChar mark) ++ [mark]

theorem digitChar_mem {n : Nat} (h : n < 16) :
    Nat.digitChar n ∈ "0123456789abcdef".toList := by
  match n, h with
  | 0, _ | 1, _ | 2, _ | 3, _ | 4, _ | 5, _ | 6, _ | 7, _ => decide
  | 8, _ | 9, _ | 10, _ | 11, _ | 12, _ | 13, _ | 14, _ | 15, _ => decide
  | _ + 16, h => exact absurd h (by omega)

theorem mem_hex {width n : Nat} {c : Char} (h : c ∈ hex width n) :
    c ∈ "0123456789abcdef".toList := by
  induction width generalizing n with
  | zero => simp [hex] at h
  | succ width ih =>
    rcases List.mem_append.mp h with h | h
    · exact ih h
    · rw [List.mem_singleton.mp h]
      exact digitChar_mem (Nat.mod_lt _ (by decide))

theorem lineFeed_not_mem_numericEscape (c : Char) : '\n' ∉ numericEscape c := by
  have hx : ∀ width n, '\n' ∉ hex width n := fun _ _ h => absurd (mem_hex h) (by decide)
  unfold numericEscape
  dsimp only
  split
  · simp [hx]
  · split <;> simp [hx]

theorem lineFeed_not_mem_quote (s : Text) : '\n' ∉ quote s := by
  have hm : '\n' ≠ quotationMark s := by
    unfold quotationMark
    split <;> decide
  have hc : ∀ c, '\n' ∉ quoteChar (quotationMark s) c := by
    intro c
    unfold quoteChar
    split
    · next h =>
      rcases h with rfl | rfl
      · simpa using hm
      · decide
    · split
      · decide
      · next hn =>
        have := lineFeed_not_mem_numericEscape c
        split
        · decide
        · split
          · decide
          · split
            · simpa using Ne.symm hn
            · exact this
  simp [quote, hm, hc]

end Worksheet.Text
