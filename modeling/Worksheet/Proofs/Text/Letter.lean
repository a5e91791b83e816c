import Worksheet.Text.Letter
import Worksheet.Text.Blank

/-! # Letters, digits and blanks

No digit is a letter or a blank. Below `0xAA` only the ASCII letters are letters.
-/
namespace Worksheet.Text

theorem isDigit_range {c : Char} (h : c.isDigit = true) : 48 ≤ c.toNat ∧ c.toNat ≤ 57 := by
  simpa [Char.isDigit, UInt32.le_iff_toNat_le] using h

theorem wideLetters_bound : ∀ r ∈ wideLetters, 0xAA ≤ r.1 := by decide +kernel

theorem not_isLetter {c : Char} (h : c.toNat < 0xAA) (ha : isAsciiLetter c = false) :
    isLetter c = false := by
  cases hw : wideLetters.contains c with
  | false => simp [isLetter, ha, hw]
  | true =>
    obtain ⟨r, hr, hlow, -⟩ := CharClass.contains_iff.mp hw
    have := wideLetters_bound r hr
    omega

theorem not_isLetter_of_isDigit {c : Char} (h : c.isDigit = true) : isLetter c = false := by
  have hc := isDigit_range h
  refine not_isLetter (by omega) ?_
  simp only [isAsciiLetter, Bool.or_eq_false_iff, Bool.and_eq_false_iff, decide_eq_false_iff_not,
    Char.le_def, UInt32.le_iff_toNat_le]
  refine ⟨Or.inl ?_, Or.inl ?_⟩
  · change ¬ 65 ≤ c.toNat
    omega
  · change ¬ 97 ≤ c.toNat
    omega

theorem blanks_beside_digits : ∀ r ∈ blanks, r.2 < 48 ∨ 57 < r.1 := by decide

theorem not_isSpace_of_isDigit {c : Char} (h : c.isDigit = true) : isSpace c = false := by
  cases hs : isSpace c with
  | false => rfl
  | true =>
    obtain ⟨r, hr, hlow, hhigh⟩ := CharClass.contains_iff.mp hs
    have := isDigit_range h
    have := blanks_beside_digits r hr
    omega

end Worksheet.Text
