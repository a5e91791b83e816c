import Mathlib.Data.List.Basic
import Worksheet.Text.Blank

/-! # Trimming

A text is a blank beginning, its trimmed form and a blank end. Trimming sees through blank ends
that are added, and a trimmed text neither begins nor ends with a blank.
-/
namespace Worksheet.Text

/-- A text that does not begin with a blank. -/
def Tight (s : Text) : Prop := ∀ c ∈ s.head?, isSpace c = false

theorem trimLeft_append_of_isBlank {b : Text} (hb : isBlank b = true) (s : Text) :
    trimLeft (b ++ s) = trimLeft s := by
  induction b with
  | nil => rfl
  | cons c b ih =>
    obtain ⟨hc, hb⟩ := Bool.and_eq_true_iff.mp hb
    simpa [trimLeft, hc] using ih hb

theorem trimLeft_eq_self_iff {s : Text} : trimLeft s = s ↔ Tight s := by
  cases s with
  | nil => simp [trimLeft, Tight]
  | cons c s =>
    by_cases hc : isSpace c = true
    · simp only [trimLeft, List.dropWhile_cons, hc, if_true, Tight, List.head?_cons,
        Option.mem_def, Option.some.injEq, forall_eq', Bool.true_eq_false, iff_false]
      intro h
      have := congrArg List.length h
      have := length_trimLeft_le s
      simp only [trimLeft, List.length_cons] at *
      omega
    · simp [trimLeft, Tight, hc]

theorem tight_trimLeft (s : Text) : Tight (trimLeft s) := by
  intro c hc
  have h := List.head?_dropWhile_not isSpace s
  rw [trimLeft] at hc
  rw [Option.mem_def.mp hc] at h
  simpa using h

theorem tight_append {s t : Text} (hs : s ≠ []) (h : Tight s) : Tight (s ++ t) := by
  cases s with
  | nil => exact absurd rfl hs
  | cons c s => simpa [Tight] using h

theorem trimRight_eq (s : Text) : trimRight s = (trimLeft s.reverse).reverse := rfl

theorem trimRight_append_of_isBlank (s : Text) {b : Text} (hb : isBlank b = true) :
    trimRight (s ++ b) = trimRight s := by
  rw [trimRight_eq, List.reverse_append, trimLeft_append_of_isBlank (by simpa using hb),
    trimRight_eq]

theorem trimLeft_append {s : Text} (hs : isBlank s = false) (t : Text) :
    trimLeft (s ++ t) = trimLeft s ++ t := by
  obtain ⟨b, hb, h⟩ := exists_trimLeft s
  have hne : trimLeft s ≠ [] := by
    intro h0
    rw [trimLeft_eq_nil_iff.mp h0] at hs
    exact Bool.noConfusion hs
  calc
    trimLeft (s ++ t) = trimLeft (b ++ (trimLeft s ++ t)) := by
      rw [← List.append_assoc, ← h]
    _ = trimLeft (trimLeft s ++ t) := trimLeft_append_of_isBlank hb _
    _ = trimLeft s ++ t := trimLeft_eq_self_iff.mpr (tight_append hne (tight_trimLeft s))

theorem trimRight_append (s : Text) {t : Text} (ht : isBlank t = false) :
    trimRight (s ++ t) = s ++ trimRight t := by
  rw [trimRight_eq, List.reverse_append, trimLeft_append (by simpa using ht), List.reverse_append,
    List.reverse_reverse, trimRight_eq]

theorem trimRight_cons_of_not_isBlank {c : Char} {s : Text} (h : isBlank (c :: s) = false) :
    trimRight (c :: s) = c :: trimRight s := by
  cases hs : isBlank s with
  | false => exact trimRight_append [c] hs
  | true =>
    have hc : isSpace c = false := by simpa [hs] using h
    have hone : trimRight ([c] ++ s) = trimRight [c] := trimRight_append_of_isBlank _ hs
    rw [List.singleton_append] at hone
    rw [hone, trimRight_eq_nil_iff.mpr hs]
    simp [trimRight, hc]

theorem trimRight_cons {c : Char} (hc : isSpace c = false) (s : Text) :
    trimRight (c :: s) = c :: trimRight s :=
  trimRight_cons_of_not_isBlank (by simp [hc])

theorem trimRight_eq_self_iff {s : Text} : trimRight s = s ↔ Tight s.reverse := by
  rw [trimRight_eq, ← trimLeft_eq_self_iff]
  exact List.reverse_eq_iff

/-- Trimming takes off blank ends and nothing else. -/
theorem exists_trim (s : Text) :
    ∃ b b', isBlank b = true ∧ isBlank b' = true ∧ s = b ++ trim s ++ b' := by
  obtain ⟨b, hb, h⟩ := exists_trimLeft s
  obtain ⟨b', hb', h'⟩ := exists_trimRight (trimLeft s)
  exact ⟨b, b', hb, hb', by rw [trim, List.append_assoc, ← h', ← h]⟩

theorem trim_eq_self {s : Text} (h : Tight s) (h' : Tight s.reverse) : trim s = s := by
  rw [trim, trimLeft_eq_self_iff.mpr h, trimRight_eq_self_iff.mpr h']

theorem trim_append_of_isBlank {b b' : Text} (hb : isBlank b = true) (s : Text)
    (hb' : isBlank b' = true) : trim (b ++ s ++ b') = trim s := by
  rw [trim, List.append_assoc, trimLeft_append_of_isBlank hb, trim]
  by_cases hs : isBlank s = true
  · rw [trimLeft_eq_nil_iff.mpr hs, trimLeft_eq_nil_iff.mpr (by simp [hs, hb'])]
  · rw [trimLeft_append (by simpa using hs), trimRight_append_of_isBlank _ hb']

theorem trim_append_left {b : Text} (hb : isBlank b = true) (s : Text) :
    trim (b ++ s) = trim s := by
  simpa using trim_append_of_isBlank hb s isBlank_nil

theorem trim_append_right (s : Text) {b : Text} (hb : isBlank b = true) : trim (s ++ b) = trim s :=
  trim_append_of_isBlank isBlank_nil s hb

@[simp] theorem trim_trimLeft (s : Text) : trim (trimLeft s) = trim s := by
  obtain ⟨b, hb, h⟩ := exists_trimLeft s
  calc
    trim (trimLeft s) = trim (b ++ trimLeft s) := (trim_append_left hb _).symm
    _ = trim s := by rw [← h]

@[simp] theorem trim_trimRight (s : Text) : trim (trimRight s) = trim s := by
  obtain ⟨b, hb, h⟩ := exists_trimRight s
  calc
    trim (trimRight s) = trim (trimRight s ++ b) := (trim_append_right _ hb).symm
    _ = trim s := by rw [← h]

theorem tight_trimRight {s : Text} (h : Tight s) : Tight (trimRight s) := by
  obtain ⟨b, -, hs⟩ := exists_trimRight s
  intro c hc
  refine h c ?_
  rw [hs]
  exact List.mem_head?_append_of_mem_head? hc

theorem tight_trim (s : Text) : Tight (trim s) := tight_trimRight (tight_trimLeft s)

theorem tight_reverse_trim (s : Text) : Tight (trim s).reverse := by
  rw [trim, trimRight_eq, List.reverse_reverse]
  exact tight_trimLeft _

@[simp] theorem trim_trim (s : Text) : trim (trim s) = trim s :=
  trim_eq_self (tight_trim s) (tight_reverse_trim s)

@[simp] theorem trimLeft_trim (s : Text) : trimLeft (trim s) = trim s :=
  trimLeft_eq_self_iff.mpr (tight_trim s)

/-- The two ends can be trimmed in either order. -/
theorem trimLeft_trimRight (s : Text) : trimLeft (trimRight s) = trim s := by
  have hend : Tight (trimLeft (trimRight s)).reverse := by
    obtain ⟨b, -, h⟩ := exists_trimLeft (trimRight s)
    have hright : Tight (trimRight s).reverse := trimRight_eq_self_iff.mp (by
      rw [trimRight_eq, trimRight_eq, List.reverse_reverse, trimLeft_eq_self_iff.mpr]
      exact tight_trimLeft _)
    intro c hc
    refine hright c ?_
    rw [h, List.reverse_append]
    exact List.mem_head?_append_of_mem_head? hc
  calc
    trimLeft (trimRight s) = trim (trimLeft (trimRight s)) :=
      (trim_eq_self (tight_trimLeft _) hend).symm
    _ = trim s := by rw [trim_trimLeft, trim_trimRight]

@[simp] theorem isBlank_trim (s : Text) : isBlank (trim s) = isBlank s := by
  rw [Bool.eq_iff_iff, ← trim_eq_nil_iff, ← trim_eq_nil_iff, trim_trim]

theorem isBlank_of_trim_eq {s t : Text} (h : trim s = trim t) : isBlank s = isBlank t := by
  rw [← isBlank_trim s, h, isBlank_trim]

end Worksheet.Text
