import Worksheet.Number.Numeral
import Worksheet.Proofs.Text.Letter

/-! # Literals

An unsigned literal is decimal digits with at most one point among them or at an end, and possibly
an exponent without a sign. Each is read as the numeral that it denotes. A text that is read as a
numeral and has no sign in it is an unsigned literal.
-/
namespace Worksheet
open Text

def AllDigits (s : Text) : Prop := ∀ c ∈ s, c.isDigit = true

instance (s : Text) : Decidable (AllDigits s) :=
  List.decidableBAll (fun c : Char => c.isDigit = true) s

structure Literal where
  whole : Text
  fraction? : Option Text
  exponent? : Option (Char × Text)
  whole_digits : AllDigits whole
  fraction_digits : ∀ f ∈ fraction?, AllDigits f
  not_empty : whole ≠ [] ∨ fraction?.getD [] ≠ []
  exponent_mark : ∀ e ∈ exponent?, e.1 = 'e' ∨ e.1 = 'E'
  exponent_digits : ∀ e ∈ exponent?, e.2 ≠ [] ∧ AllDigits e.2

namespace Literal

def fractionText : Option Text → Text
  | none => []
  | some f => '.' :: f

def exponentText : Option (Char × Text) → Text
  | none => []
  | some e => e.1 :: e.2

def text (l : Literal) : Text := l.whole ++ (fractionText l.fraction? ++ exponentText l.exponent?)

/-- The digits without the point, times the power of ten that sets the point. -/
def value (l : Literal) : Numeral where
  negative := false
  significand := Numeral.natOfDigits (l.whole ++ l.fraction?.getD [])
  exponent := (l.exponent?.elim 0 fun e => (Numeral.natOfDigits e.2 : Int)) -
    (l.fraction?.getD []).length

end Literal

namespace Numeral

theorem readSign_of_head {s : Text} (h : ∀ c ∈ s.head?, c ≠ '-' ∧ c ≠ '+') :
    readSign s = (false, s) := by
  unfold readSign
  split
  · exact absurd rfl (h '-' rfl).1
  · exact absurd rfl (h '+' rfl).2
  · rfl

theorem exists_readSign (s : Text) :
    ∃ g : Text, (g = [] ∨ g = ['-'] ∨ g = ['+']) ∧ s = g ++ (readSign s).2 := by
  unfold readSign
  split
  · exact ⟨['-'], by simp, rfl⟩
  · exact ⟨['+'], by simp, rfl⟩
  · exact ⟨[], by simp, rfl⟩

theorem readDigits_append {d r : Text} (hd : AllDigits d) (hr : ∀ c ∈ r.head?, c.isDigit = false) :
    readDigits (d ++ r) = (d, r) := by
  unfold readDigits
  rw [List.takeWhile_append_of_pos hd, List.dropWhile_append_of_pos hd]
  cases r with
  | nil => simp
  | cons c r => simp [hr c rfl]

theorem readDigits_eq (s : Text) :
    s = (readDigits s).1 ++ (readDigits s).2 ∧ AllDigits (readDigits s).1 :=
  ⟨(List.takeWhile_append_dropWhile ..).symm, List.all_eq_true.mp List.all_takeWhile⟩

theorem head_ne_of_digit {c : Char} (h : c.isDigit = true) : c ≠ '-' ∧ c ≠ '+' ∧ c ≠ '.' := by
  refine ⟨?_, ?_, ?_⟩ <;> rintro rfl <;> exact absurd h (by decide)

theorem readFraction_append (f? : Option Text) {r : Text} (hf : ∀ f ∈ f?, AllDigits f)
    (hr : ∀ c ∈ r.head?, c.isDigit = false ∧ c ≠ '.') :
    readFraction (Literal.fractionText f? ++ r) = (f?.getD [], r) := by
  cases f? with
  | some f => exact readDigits_append (hf f rfl) fun c hc => (hr c hc).1
  | none =>
    change readFraction r = ([], r)
    unfold readFraction
    split
    · exact absurd rfl (hr '.' rfl).2
    · rfl

theorem readExponent?_text {e? : Option (Char × Text)} (hm : ∀ e ∈ e?, e.1 = 'e' ∨ e.1 = 'E')
    (hd : ∀ e ∈ e?, e.2 ≠ [] ∧ AllDigits e.2) :
    readExponent? (Literal.exponentText e?) =
      some (e?.elim 0 fun e => (natOfDigits e.2 : Int)) := by
  cases e? with
  | none => rfl
  | some e =>
    obtain ⟨hne, hall⟩ := hd e rfl
    have hs : readSign e.2 = (false, e.2) := by
      refine readSign_of_head fun c hc => ?_
      have hc := head_ne_of_digit (hall c (List.mem_of_head? hc))
      exact ⟨hc.1, hc.2.1⟩
    have hc : (e.1 = 'e' ∨ e.1 = 'E') ∧ e.2 ≠ [] ∧ e.2.all Char.isDigit = true :=
      ⟨hm e rfl, hne, List.all_eq_true.mpr hall⟩
    simp only [Literal.exponentText, readExponent?, hs, if_pos hc]
    rfl

theorem exists_head {w : Text} {f? : Option Text} (hw : AllDigits w)
    (hne : w ≠ [] ∨ f?.getD [] ≠ []) (r : Text) :
    ∃ c s, w ++ (Literal.fractionText f? ++ r) = c :: s ∧ (c.isDigit = true ∨ c = '.') := by
  cases w with
  | cons c w => exact ⟨c, _, rfl, Or.inl (hw c List.mem_cons_self)⟩
  | nil =>
    cases f? with
    | some f => exact ⟨'.', _, rfl, Or.inr rfl⟩
    | none => simp at hne

/-- Digits with a point are read as the significand, and what follows them as the exponent. -/
theorem ofText?_append {w r : Text} {f? : Option Text} (hw : AllDigits w)
    (hf : ∀ f ∈ f?, AllDigits f) (hne : w ≠ [] ∨ f?.getD [] ≠ [])
    (hr : ∀ c ∈ r.head?, c.isDigit = false ∧ c ≠ '.') :
    ofText? (w ++ (Literal.fractionText f? ++ r)) = (readExponent? r).map fun e =>
      ⟨false, natOfDigits (w ++ f?.getD []), e - (f?.getD []).length⟩ := by
  have hs : readSign (w ++ (Literal.fractionText f? ++ r)) =
      (false, w ++ (Literal.fractionText f? ++ r)) := by
    obtain ⟨c, s, ht, hc⟩ := exists_head hw hne r
    refine readSign_of_head fun d hd => ?_
    rw [ht] at hd
    obtain rfl := Option.some.inj hd
    rcases hc with hc | rfl
    · exact ⟨(head_ne_of_digit hc).1, (head_ne_of_digit hc).2.1⟩
    · decide
  have hrest : ∀ c ∈ (Literal.fractionText f? ++ r).head?, c.isDigit = false := by
    cases f? with
    | none => exact fun c hc => (hr c hc).1
    | some f =>
      intro c hc
      obtain rfl : '.' = c := Option.some.inj hc
      decide
  have hdigits := readDigits_append hw hrest
  have hfraction := readFraction_append f? hf hr
  have hsome : ¬ (w = [] ∧ f?.getD [] = []) := fun h => hne.elim (absurd h.1) (absurd h.2)
  simp only [ofText?, hs, hdigits, hfraction, if_neg hsome]

theorem ofText?_minus {s : Text} (h : ∀ c ∈ s.head?, c ≠ '-' ∧ c ≠ '+') :
    ofText? ('-' :: s) = (ofText? s).map fun n => { n with negative := true } := by
  have hs : readSign s = (false, s) := readSign_of_head h
  have hminus : readSign ('-' :: s) = (true, s) := rfl
  simp only [ofText?, hs, hminus]
  split
  · rfl
  · rw [Option.map_map]
    rfl

theorem ofText?_plus_of_isSpace {c : Char} (hc : isSpace c = true) (s : Text) :
    ofText? ('+' :: c :: s) = none := by
  have hdigit : c.isDigit = false := by
    refine Bool.eq_false_iff.mpr fun h => ?_
    rw [not_isSpace_of_isDigit h] at hc
    exact Bool.noConfusion hc
  have hfraction : readFraction (c :: s) = ([], c :: s) := by
    unfold readFraction
    split
    · next h =>
      obtain ⟨rfl, -⟩ := List.cons.inj h
      exact absurd hc (by decide)
    · rfl
  simp [ofText?, readSign, readDigits, hdigit, hfraction]

theorem exists_of_readExponent? {s : Text} {x : Int} (h : readExponent? s = some x) :
    (∃ e? : Option (Char × Text), s = Literal.exponentText e? ∧
      (∀ e ∈ e?, e.1 = 'e' ∨ e.1 = 'E') ∧ ∀ e ∈ e?, e.2 ≠ [] ∧ AllDigits e.2) ∨
    ∃ e σ d, s = e :: σ :: d ∧ (e = 'e' ∨ e = 'E') ∧ (σ = '-' ∨ σ = '+') ∧ d ≠ [] ∧
      AllDigits d := by
  cases s with
  | nil => exact .inl ⟨none, rfl, nofun, nofun⟩
  | cons c s =>
    simp only [readExponent?] at h
    split at h
    · next hc =>
      obtain ⟨hc, hne, hall⟩ := hc
      have hd : AllDigits (readSign s).2 := List.all_eq_true.mp hall
      obtain ⟨g, hg, hs⟩ := exists_readSign s
      generalize (readSign s).2 = d at hne hd hs
      subst hs
      rcases hg with rfl | rfl | rfl
      · exact .inl ⟨some (c, d), rfl, by simpa using hc, by simpa using ⟨hne, hd⟩⟩
      · exact .inr ⟨c, '-', d, rfl, hc, Or.inl rfl, hne, hd⟩
      · exact .inr ⟨c, '+', d, rfl, hc, Or.inr rfl, hne, hd⟩
    · cases h

theorem exists_fractionText (s : Text) :
    ∃ f? : Option Text, Literal.fractionText f? ++ (readFraction s).2 = s ∧
      f?.getD [] = (readFraction s).1 ∧ ∀ f ∈ f?, AllDigits f := by
  unfold readFraction
  split
  · next rest =>
    obtain ⟨hr, hd⟩ := readDigits_eq rest
    refine ⟨some (readDigits rest).1, ?_, rfl, by simpa using hd⟩
    rw [Literal.fractionText, List.cons_append, ← hr]
  · exact ⟨none, rfl, rfl, by simp⟩

/-- What is read as a numeral is an unsigned literal behind a sign or none, unless its exponent has
a sign; then this follows on a literal without an exponent. -/
theorem exists_of_ofText? {t : Text} {n : Numeral} (h : ofText? t = some n) :
    ∃ (g : Text) (l : Literal), (g = [] ∨ g = ['-'] ∨ g = ['+']) ∧
      (t = g ++ l.text ∨ l.exponent? = none ∧ ∃ e σ d, t = g ++ (l.text ++ e :: σ :: d) ∧
        (e = 'e' ∨ e = 'E') ∧ (σ = '-' ∨ σ = '+') ∧ d ≠ [] ∧ AllDigits d) := by
  unfold ofText? at h
  simp only at h
  split at h
  · cases h
  next hne =>
  obtain ⟨x, hx, -⟩ := Option.map_eq_some_iff.mp h
  obtain ⟨g, hg, ht⟩ := exists_readSign t
  generalize (readSign t).2 = r at hne hx ht
  obtain ⟨hw, hdig⟩ := readDigits_eq r
  obtain ⟨f?, hf, hf1, hfd⟩ := exists_fractionText (readDigits r).2
  have hne : (readDigits r).1 ≠ [] ∨ f?.getD [] ≠ [] := by
    rw [hf1]
    exact Classical.not_and_iff_not_or_not.mp hne
  rcases exists_of_readExponent? hx with ⟨e?, he, hmark, hed⟩ | ⟨e, σ, d, he, hsigned⟩
  · refine ⟨g, ⟨(readDigits r).1, f?, e?, hdig, hfd, hne, hmark, hed⟩, hg, .inl ?_⟩
    rw [Literal.text, ← he, hf, ← hw, ht]
  · refine ⟨g, ⟨(readDigits r).1, f?, none, hdig, hfd, hne, nofun, nofun⟩, hg,
      .inr ⟨rfl, e, σ, d, ?_, hsigned⟩⟩
    rw [Literal.text, Literal.exponentText, List.append_nil, List.append_assoc, ← he, hf, ← hw, ht]

end Numeral

namespace Literal
open Numeral

theorem head_text (l : Literal) : ∃ c s, l.text = c :: s ∧ (c.isDigit = true ∨ c = '.') :=
  exists_head l.whole_digits l.not_empty _

theorem ofText?_text (l : Literal) : Numeral.ofText? l.text = some l.value := by
  have he : ∀ c ∈ (exponentText l.exponent?).head?, c.isDigit = false ∧ c ≠ '.' := by
    intro c hc
    cases hx : l.exponent? with
    | none => simp [hx, exponentText] at hc
    | some e =>
      rw [hx] at hc
      obtain rfl : e.1 = c := Option.some.inj hc
      rcases l.exponent_mark e hx with h | h <;> rw [h] <;> decide
  rw [text, ofText?_append l.whole_digits l.fraction_digits l.not_empty he,
    readExponent?_text l.exponent_mark l.exponent_digits]
  rfl

/-- The mark of an exponent is not read without its digits. -/
theorem ofText?_text_mark {l : Literal} (hl : l.exponent? = none) {e : Char}
    (he : e = 'e' ∨ e = 'E') : Numeral.ofText? (l.text ++ [e]) = none := by
  have hmark : ∀ c ∈ [e].head?, c.isDigit = false ∧ c ≠ '.' := by
    rintro c ⟨⟩
    rcases he with rfl | rfl <;> decide
  rw [text, hl, exponentText, List.append_nil, List.append_assoc,
    ofText?_append l.whole_digits l.fraction_digits l.not_empty hmark]
  simp [readExponent?, readSign]

/-- Signs stand beside their like, before an equals sign, or before a blank or the end. The signs
of a numeral do not. -/
def SignsLoose (s : Text) : Prop :=
  ∀ u c v, s = u ++ c :: v → c = '-' ∨ c = '+' →
    (∃ d ∈ u.getLast?, d = c) ∨ ∀ d ∈ v.head?, d = c ∨ d = '=' ∨ isSpace d = true

theorem not_signsLoose {u v : Text} {σ d : Char} (hσ : σ = '-' ∨ σ = '+')
    (hu : ∀ c ∈ u.getLast?, c ≠ σ) (hd : d ∈ v.head?) (hdigit : d.isDigit = true ∨ d = '.') :
    ¬ SignsLoose (u ++ σ :: v) := by
  intro h
  rcases h u σ v rfl hσ with ⟨c, hc, rfl⟩ | hnext
  · exact hu c hc rfl
  · have hsign : d ≠ '-' ∧ d ≠ '+' ∧ d ≠ '=' ∧ isSpace d = false := by
      rcases hdigit with hdigit | rfl
      · refine ⟨(head_ne_of_digit hdigit).1, (head_ne_of_digit hdigit).2.1, ?_,
          not_isSpace_of_isDigit hdigit⟩
        rintro rfl
        exact absurd hdigit (by decide)
      · decide
    rcases hnext d hd with rfl | rfl | hspace
    · exact hσ.elim hsign.1 hsign.2.1
    · exact hsign.2.2.1 rfl
    · rw [hsign.2.2.2] at hspace
      exact Bool.noConfusion hspace

theorem exists_text_eq {s : Text} {n : Numeral} (hn : Numeral.ofText? s = some n)
    (h : SignsLoose s) : ∃ l : Literal, l.text = s := by
  obtain ⟨g, l, hg, rfl | ⟨-, e, σ, d, rfl, he, hσ, hne, hd⟩⟩ := exists_of_ofText? hn
  · obtain ⟨c, r, hl, hc⟩ := l.head_text
    have hhead : c ∈ l.text.head? := by rw [hl]; rfl
    rcases hg with rfl | rfl | rfl
    · exact ⟨l, rfl⟩
    · exact absurd h (not_signsLoose (u := []) (Or.inl rfl) nofun hhead hc)
    · exact absurd h (not_signsLoose (u := []) (Or.inr rfl) nofun hhead hc)
  · obtain ⟨c, r, rfl⟩ := List.exists_cons_of_ne_nil hne
    have hlast : ∀ b ∈ (g ++ (l.text ++ [e])).getLast?, b ≠ σ := by
      intro b hb
      obtain rfl : e = b := by simpa [List.getLast?_append] using hb
      rcases he with rfl | rfl <;> rcases hσ with rfl | rfl <;> decide
    refine absurd h ?_
    have hloose := not_signsLoose (v := c :: r) hσ hlast rfl (Or.inl (hd c List.mem_cons_self))
    simpa using hloose

end Literal
end Worksheet
