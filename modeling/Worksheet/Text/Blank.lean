import Worksheet.Text.CharClass

/-! # Blank characters

Twenty-nine characters count as white space. Trimming removes them at the ends of a text,
and a text is blank when it holds nothing else.
-/
namespace Worksheet

/-- A text is the list of its characters. -/
abbrev Text := List Char

namespace Text

def blanks : CharClass := [
  (0x9, 0xD), (0x1C, 0x20), (0x85, 0x85), (0xA0, 0xA0), (0x1680, 0x1680), (0x2000, 0x200A),
  (0x2028, 0x2029), (0x202F, 0x202F), (0x205F, 0x205F), (0x3000, 0x3000)]

def isSpace (c : Char) : Bool :=
  blanks.contains c

def trimLeft (s : Text) : Text :=
  s.dropWhile isSpace

def trimRight (s : Text) : Text :=
  (s.reverse.dropWhile isSpace).reverse

def trim (s : Text) : Text :=
  trimRight (trimLeft s)

def isBlank (s : Text) : Bool :=
  s.all isSpace

@[simp] theorem isBlank_nil : isBlank [] = true := rfl

@[simp] theorem isBlank_cons (c : Char) (s : Text) :
    isBlank (c :: s) = (isSpace c && isBlank s) := rfl

@[simp] theorem isBlank_append (s t : Text) : isBlank (s ++ t) = (isBlank s && isBlank t) := by
  simp [isBlank]

@[simp] theorem isBlank_reverse (s : Text) : isBlank s.reverse = isBlank s := by
  simp [isBlank]

theorem trimLeft_eq_nil_iff {s : Text} : trimLeft s = [] ↔ isBlank s = true := by
  induction s with
  | nil => simp [trimLeft]
  | cons c r ih => by_cases h : isSpace c = true <;> simp_all [trimLeft]

theorem exists_trimLeft (s : Text) : ∃ b, isBlank b = true ∧ s = b ++ trimLeft s := by
  refine ⟨s.takeWhile isSpace, ?_, (List.takeWhile_append_dropWhile ..).symm⟩
  induction s with
  | nil => rfl
  | cons c r ih => by_cases h : isSpace c = true <;> simp_all

theorem exists_trimRight (s : Text) : ∃ b, isBlank b = true ∧ s = trimRight s ++ b := by
  obtain ⟨b, hb, h⟩ := exists_trimLeft s.reverse
  refine ⟨b.reverse, by simpa using hb, ?_⟩
  have := congrArg List.reverse h
  simpa [trimRight, trimLeft] using this

theorem length_trimLeft_le (s : Text) : (trimLeft s).length ≤ s.length := by
  obtain ⟨b, -, h⟩ := exists_trimLeft s
  have := congrArg List.length h
  simp only [List.length_append] at this
  omega

theorem length_trimRight_le (s : Text) : (trimRight s).length ≤ s.length := by
  obtain ⟨b, -, h⟩ := exists_trimRight s
  have := congrArg List.length h
  simp only [List.length_append] at this
  omega

theorem length_trim_le (s : Text) : (trim s).length ≤ s.length :=
  Nat.le_trans (length_trimRight_le _) (length_trimLeft_le s)

theorem trimRight_eq_nil_iff {s : Text} : trimRight s = [] ↔ isBlank s = true := by
  have h := @trimLeft_eq_nil_iff s.reverse
  simpa [trimRight, trimLeft] using h

theorem trim_eq_nil_iff {s : Text} : trim s = [] ↔ isBlank s = true := by
  obtain ⟨b, hb, h⟩ := exists_trimLeft s
  rw [trim, trimRight_eq_nil_iff]
  constructor
  · intro hs
    rw [h, isBlank_append, hb, hs]
    rfl
  · intro hs
    rw [trimLeft_eq_nil_iff.mpr hs]
    rfl

end Text

end Worksheet
