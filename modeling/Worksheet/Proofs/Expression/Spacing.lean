import Worksheet.Expression.Operand
import Worksheet.Proofs.Expression.Padding
import Worksheet.Proofs.Number.Literal
import Worksheet.Proofs.Text.Letter

/-! # Tokens and their spacing

A text spells a list of tokens when they stand in it one after the other with any white space
around them, and some wherever two neighbours would otherwise make a longer run of one sign.
What a text spells does not depend on white space next to its operators.
-/
namespace Worksheet.Expression
open Text Series

/-- Names begin with a letter, hold no operator and have no white space around them. -/
structure IsName (x : Text) : Prop where
  letter : x.head?.any isLetter = true
  no_operator : ∀ c ∈ x, ∀ op : BinaryOp, c ≠ op.char
  trimmed : trim x = x

abbrev Name := { x : Text // IsName x }

inductive Token
  | operator (op : BinaryOp)
  | mark (d : Direction)
  | name (x : Name)
  | literal (l : Literal)

namespace Token

def text : Token → Text
  | operator op => [op.char]
  | mark d => d.mark
  | name x => x.1
  | literal l => l.text

end Token

inductive Spacing : List Token → Text → Prop
  | nil {b : Text} (hb : isBlank b = true) : Spacing [] b
  | cons {b s : Text} {t : Token} {ts : List Token} (hb : isBlank b = true)
      (hf : ∀ c ∈ t.text.getLast?, ∀ d ∈ s.head?, ¬ Fuses c d) (hs : Spacing ts s) :
      Spacing (t :: ts) (b ++ (t.text ++ s))

namespace IsName

theorem ne_nil {x : Text} (h : IsName x) : x ≠ [] := by
  rintro rfl
  exact Bool.noConfusion h.letter

theorem head {x : Text} (h : IsName x) : ∃ c s, x = c :: s ∧ isLetter c = true := by
  cases x with
  | nil => exact absurd rfl h.ne_nil
  | cons c s => exact ⟨c, s, rfl, by simpa using h.letter⟩

theorem tight {x : Text} (h : IsName x) : Tight x := h.trimmed ▸ tight_trim x

theorem tight_reverse {x : Text} (h : IsName x) : Tight x.reverse := by
  have := tight_reverse_trim x
  rwa [h.trimmed] at this

theorem quiet {x : Text} (h : IsName x) : Quiet x := quiet_of_forall_ne h.no_operator

theorem no_operator_of_trim {s : Text} (h : IsName (trim s)) :
    ∀ c ∈ s, ∀ op : BinaryOp, c ≠ op.char := by
  obtain ⟨b, b', hb, hb', hs⟩ := exists_trim s
  intro c hc
  rw [hs] at hc
  rcases List.mem_append.mp hc with hc | hc
  · rcases List.mem_append.mp hc with hc | hc
    · exact ne_char_of_isBlank hb c hc
    · exact h.no_operator c hc
  · exact ne_char_of_isBlank hb' c hc

end IsName

theorem mem_literal {l : Literal} {c : Char} (h : c ∈ l.text) :
    c.isDigit = true ∨ c = '.' ∨ c = 'e' ∨ c = 'E' := by
  rcases List.mem_append.mp h with h | h
  · exact Or.inl (l.whole_digits c h)
  rcases List.mem_append.mp h with h | h
  · cases hf : l.fraction? with
    | none => simp [hf, Literal.fractionText] at h
    | some f =>
      rw [hf] at h
      rcases List.mem_cons.mp h with rfl | h
      · exact Or.inr (Or.inl rfl)
      · exact Or.inl (l.fraction_digits f hf c h)
  · cases he : l.exponent? with
    | none => simp [he, Literal.exponentText] at h
    | some e =>
      rw [he] at h
      rcases List.mem_cons.mp h with rfl | h
      · exact Or.inr (Or.inr (l.exponent_mark e he))
      · exact Or.inl ((l.exponent_digits e he).2 c h)

theorem literal_char {l : Literal} {c : Char} (h : c ∈ l.text) :
    isSpace c = false ∧ c ≠ '=' ∧ ∀ op : BinaryOp, c ≠ op.char := by
  rcases mem_literal h with hc | rfl | rfl | rfl
  · refine ⟨not_isSpace_of_isDigit hc, ?_, ?_⟩
    · rintro rfl
      exact absurd hc (by decide)
    · rintro op rfl
      cases op <;> exact absurd hc (by decide)
  all_goals exact ⟨by decide, by decide, fun op => by cases op <;> decide⟩

namespace Token

theorem text_ne_nil (t : Token) : t.text ≠ [] := by
  cases t with
  | operator op => exact List.cons_ne_nil _ _
  | mark d => cases d <;> exact List.cons_ne_nil _ _
  | name x => exact x.2.ne_nil
  | literal l =>
    obtain ⟨c, s, h, -⟩ := l.head_text
    simp [text, h]

theorem head?_append (t : Token) (s : Text) : (t.text ++ s).head? = t.text.head? := by
  obtain ⟨c, r, h⟩ := List.exists_cons_of_ne_nil t.text_ne_nil
  simp [h]

theorem getLast?_append (s : Text) (t : Token) : (s ++ t.text).getLast? = t.text.getLast? := by
  obtain ⟨r, c, h⟩ := List.eq_nil_or_concat t.text |>.resolve_left t.text_ne_nil
  simp [h, ← List.append_assoc]

theorem tight (t : Token) : Tight t.text := by
  cases t with
  | operator op => cases op <;> simp [Tight, text, BinaryOp.char] <;> decide
  | mark d => cases d <;> simp [Tight, text, Direction.mark] <;> decide
  | name x => exact x.2.tight
  | literal l => exact fun c hc => (literal_char (List.mem_of_head? hc)).1

theorem tight_reverse (t : Token) : Tight t.text.reverse := by
  cases t with
  | operator op => cases op <;> simp [Tight, text, BinaryOp.char] <;> decide
  | mark d => cases d <;> simp [Tight, text, Direction.mark] <;> decide
  | name x => exact x.2.tight_reverse
  | literal l =>
    exact fun c hc => (literal_char (List.mem_reverse.mp (List.mem_of_head? hc))).1

theorem not_isBlank (t : Token) : isBlank t.text = false := by
  rw [← Bool.not_eq_true, ← trimLeft_eq_nil_iff, trimLeft_eq_self_iff.mpr t.tight]
  exact t.text_ne_nil

theorem trimRight_append (t : Token) (s : Text) :
    trimRight (t.text ++ s) = t.text ++ trimRight s := by
  by_cases hs : isBlank s = true
  · rw [trimRight_append_of_isBlank _ hs, trimRight_eq_nil_iff.mpr hs,
      trimRight_eq_self_iff.mpr t.tight_reverse, List.append_nil]
  · exact Text.trimRight_append _ (by simpa using hs)

theorem head_ne (t : Token) : ∀ c ∈ t.text.head?, c ≠ '=' := by
  cases t with
  | operator op => cases op <;> simp [text, BinaryOp.char]
  | mark d => cases d <;> simp [text, Direction.mark]
  | name x =>
    obtain ⟨c, s, hx, hc⟩ := x.2.head
    rw [text, hx]
    rintro _ ⟨⟩ rfl
    exact absurd hc (by rw [not_isLetter] <;> decide)
  | literal l => exact fun c hc => (literal_char (List.mem_of_head? hc)).2.1

theorem not_run (t : Token) {c : Char} (hc : c = '+' ∨ c = '-') :
    ¬ List.replicate 3 c <:+: t.text := by
  intro hr
  have hlen := hr.length_le
  have hmem : c ∈ t.text := hr.subset (List.mem_replicate.mpr ⟨by decide, rfl⟩)
  cases t with
  | operator op => exact absurd hlen (by simp [text])
  | mark d => exact absurd hlen (by cases d <;> simp [text, Direction.mark])
  | name x =>
    have hne := x.2.no_operator c hmem
    exact hc.elim (hne .plus) (hne .minus)
  | literal l =>
    have hne := (literal_char hmem).2.2
    exact hc.elim (hne .plus) (hne .minus)

def isOperator : Token → Bool
  | operator _ => true
  | _ => false

theorem quiet {t : Token} (h : t.isOperator = false) : Quiet t.text := by
  cases t with
  | operator op => exact Bool.noConfusion h
  | mark d => cases d <;> rfl
  | name x => exact x.2.quiet
  | literal l => exact quiet_of_forall_ne fun c hc => (literal_char hc).2.2

end Token

namespace Spacing

variable {ts ts' : List Token} {s u v : Text} {t : Token} {op : BinaryOp}

theorem head_ne (h : Spacing ts s) : ∀ c ∈ s.head?, c ≠ '=' := by
  have hblank : ∀ {b : Text}, isBlank b = true → ∀ c ∈ b.head?, c ≠ '=' :=
    fun hb _ hc => ne_equals_of_isSpace (isSpace_of_mem hb (List.mem_of_head? hc))
  cases h with
  | nil hb => exact hblank hb
  | @cons b s t ts hb hf hs =>
    intro c hc
    rw [List.head?_append] at hc
    rcases Option.or_eq_some_iff.mp hc with hc | ⟨-, hc⟩
    · exact hblank hb c hc
    · exact t.head_ne c (t.head?_append s ▸ hc)

theorem apart (hs : Spacing ts s) (hf : ∀ c ∈ t.text.getLast?, ∀ d ∈ s.head?, ¬ Fuses c d) :
    Apart t.text s where
  not_fuses := hf
  not_assign _ _ d hd _ := hs.head_ne d hd

theorem nil_iff : Spacing [] s ↔ isBlank s = true :=
  ⟨fun | nil hb => hb, nil⟩

theorem append_blank (h : Spacing ts s) {b : Text} (hb : isBlank b = true) :
    Spacing ts (s ++ b) := by
  induction h with
  | nil hb' => exact nil (by simp [hb, hb'])
  | @cons b' s t ts hb' hf hs ih =>
    rw [List.append_assoc, List.append_assoc]
    refine cons hb' (fun c hc d hd => ?_) ih
    rw [List.head?_append] at hd
    rcases Option.or_eq_some_iff.mp hd with hd | ⟨-, hd⟩
    · exact hf c hc d hd
    · exact not_fuses_of_isSpace_right (isSpace_of_mem hb (List.mem_of_head? hd))

theorem trimRight (h : Spacing ts s) : Spacing ts (Text.trimRight s) := by
  induction h with
  | nil hb =>
    rw [trimRight_eq_nil_iff.mpr hb]
    exact nil rfl
  | @cons b s t ts hb hf hs ih =>
    have ht : Text.trimRight (b ++ (t.text ++ s)) = b ++ (t.text ++ Text.trimRight s) := by
      rw [Text.trimRight_append b (by simp [t.not_isBlank]), t.trimRight_append]
    rw [ht]
    refine cons hb (fun c hc d hd => hf c hc d ?_) ih
    obtain ⟨b', -, h⟩ := exists_trimRight s
    rw [h]
    exact List.mem_head?_append_of_mem_head? hd

/-- What a text spells is found behind the blanks at its beginning. -/
theorem cons_iff : Spacing (t :: ts) s ↔
    ∃ r, trimLeft s = t.text ++ r ∧ (∀ c ∈ t.text.getLast?, ∀ d ∈ r.head?, ¬ Fuses c d) ∧
      Spacing ts r := by
  constructor
  · rintro (_ | @⟨b, r, _, _, hb, hf, hs⟩)
    refine ⟨r, ?_, hf, hs⟩
    rw [trimLeft_append_of_isBlank hb]
    exact trimLeft_eq_self_iff.mpr (tight_append t.text_ne_nil t.tight)
  · rintro ⟨r, hr, hf, hs⟩
    obtain ⟨b, hb, h⟩ := exists_trimLeft s
    rw [h, hr]
    exact cons hb hf hs

theorem trimLeft_iff : Spacing ts (trimLeft s) ↔ Spacing ts s := by
  cases ts with
  | nil => rw [nil_iff, nil_iff, isBlank_of_trim_eq (trim_trimLeft s)]
  | cons t ts => rw [cons_iff, cons_iff, trimLeft_eq_self_iff.mpr (tight_trimLeft s)]

theorem trim_iff : Spacing ts (trim s) ↔ Spacing ts s := by
  constructor
  · intro h
    obtain ⟨b, hb, hs⟩ := exists_trimRight (trimLeft s)
    rw [← trimLeft_iff, hs]
    exact h.append_blank hb
  · intro h
    exact (trimLeft_iff.mpr h).trimRight

theorem of_trim_eq (hu : Spacing ts u) (h : trim u = trim v) : Spacing ts v :=
  trim_iff.mp (h ▸ trim_iff.mpr hu)

/-- A text that spells an operator among other tokens is divided there. -/
theorem exists_of_operator (h : Spacing (ts ++ .operator op :: ts') s) :
    ∃ u v, s = u ++ op.char :: v ∧ op.allows u.getLast? v.head? = true ∧
      Spacing ts u ∧ Spacing ts' v := by
  induction ts generalizing s with
  | nil =>
    rcases h with _ | @⟨b, v, _, _, hb, hf, hs⟩
    refine ⟨b, v, rfl, BinaryOp.allows_iff.mpr ⟨fun c hc => ?_, fun c hc => ?_⟩, nil hb, hs⟩
    · exact not_fuses_of_isSpace_left (isSpace_of_mem hb (List.mem_of_getLast? hc))
    · exact ⟨hf op.char rfl c hc, fun _ => hs.head_ne c hc⟩
  | cons t ts ih =>
    rcases h with _ | @⟨b, s, _, _, hb, hf, hs⟩
    obtain ⟨u, v, rfl, ha, hu, hv⟩ := ih hs
    refine ⟨b ++ (t.text ++ u), v, by simp, ?_, cons hb (fun c hc d hd => ?_) hu, hv⟩
    · obtain ⟨hua, hva⟩ := BinaryOp.allows_iff.mp ha
      refine BinaryOp.allows_iff.mpr ⟨fun c hc => ?_, hva⟩
      rw [← List.append_assoc, List.getLast?_append, t.getLast?_append] at hc
      rcases Option.or_eq_some_iff.mp hc with hc | ⟨hnil, hc⟩
      · exact hua c hc
      · rw [List.getLast?_eq_none_iff.mp hnil] at hf
        exact hf c hc op.char rfl
    · exact hf c hc d (List.mem_head?_append_of_mem_head? hd)

theorem of_token (t : Token) : Spacing [t] t.text := by
  have h : Spacing [t] ([] ++ (t.text ++ [])) := cons rfl nofun (nil rfl)
  simpa using h

theorem append (hu : Spacing ts u) (hv : Spacing ts' v)
    (hf : ∀ c ∈ u.getLast?, ∀ d ∈ v.head?, ¬ Fuses c d) : Spacing (ts ++ ts') (u ++ v) := by
  induction hu with
  | nil hb => exact hv.of_trim_eq (trim_append_left hb v).symm
  | @cons b u t ts hb hft hu ih =>
    have hlast : ∀ c ∈ (t.text ++ u).getLast?, ∀ d ∈ v.head?, ¬ Fuses c d := fun c hc =>
      hf c (List.mem_getLast?_append_of_mem_getLast? hc)
    have htail := ih fun c hc => hlast c (List.mem_getLast?_append_of_mem_getLast? hc)
    rw [List.append_assoc, List.append_assoc]
    refine cons hb (fun c hc d hd => ?_) htail
    cases u with
    | cons e u => exact hft c hc d hd
    | nil => exact hlast c (by rwa [List.append_nil]) d hd

theorem append_operator (hu : Spacing ts u) (hv : Spacing ts' v)
    (ha : op.allows u.getLast? v.head? = true) :
    Spacing (ts ++ .operator op :: ts') (u ++ op.char :: v) := by
  obtain ⟨hleft, hright⟩ := BinaryOp.allows_iff.mp ha
  have hop : Spacing (.operator op :: ts') (op.char :: v) :=
    (of_token (.operator op)).append hv fun c hc d hd => by
      obtain rfl : op.char = c := Option.some.inj hc
      exact (hright d hd).1
  refine hu.append hop fun c hc d hd => ?_
  obtain rfl : op.char = d := Option.some.inj hd
  exact hleft c hc

theorem quiet (h : Spacing ts s) (hts : ∀ t ∈ ts, t.isOperator = false) : Quiet s := by
  induction h with
  | nil hb => exact quiet_of_isBlank hb
  | @cons b s t ts hb hf hs ih =>
    have ht := (Token.quiet (hts t List.mem_cons_self)).append
      (ih fun t' h => hts t' (List.mem_cons_of_mem _ h)) (hs.apart hf)
    exact (quiet_of_isBlank hb).append ht (apart_of_isBlank_left hb _)

theorem exists_first_operator (ts : List Token) :
    (∀ t ∈ ts, t.isOperator = false) ∨ ∃ us op vs, ts = us ++ .operator op :: vs ∧
      ∀ t ∈ us, t.isOperator = false := by
  induction ts with
  | nil => exact Or.inl (by simp)
  | cons t ts ih =>
    cases ht : t.isOperator with
    | true =>
      cases t with
      | operator op => exact Or.inr ⟨[], op, ts, rfl, by simp⟩
      | mark | name | literal => exact Bool.noConfusion ht
    | false =>
      rcases ih with h | ⟨us, op, vs, rfl, h⟩
      · exact Or.inl (by simpa [ht] using h)
      · exact Or.inr ⟨t :: us, op, vs, rfl, by simpa [ht] using h⟩

theorem of_alike (hs : Spacing ts u) (h : Alike u v) : Spacing ts v := by
  induction hn : ts.length using Nat.strongRecOn generalizing ts u v with
  | _ n ih =>
    rcases exists_first_operator ts with hq | ⟨us, op, vs, rfl, hq⟩
    · exact hs.of_trim_eq (h.trim_eq (hs.quiet hq))
    · obtain ⟨x, y, rfl, ha, hx, hy⟩ := hs.exists_of_operator
      obtain ⟨x', y', rfl, ha', hxx, hyy⟩ := h.exists_of_operator ha
      have hx' : Spacing us x' := hx.of_trim_eq (hxx.trim_eq (hx.quiet hq))
      have hy' : Spacing vs y' := ih vs.length (by simp [← hn]; omega) hy hyy rfl
      exact hx'.append_operator hy' ha'

/-- A run that goes on from one text into the next is of a character on which the first ends and
the second begins. -/
theorem ends_of_run {n : Nat} {c : Char} {l l' : Text} (hl : l ≠ []) (hl' : l' ≠ [])
    (h : List.replicate n c = l ++ l') (hu : l <:+ u) (hv : l' <+: v) :
    u.getLast? = some c ∧ v.head? = some c := by
  have hall : ∀ d ∈ l ++ l', d = c := fun d hd => List.eq_of_mem_replicate (n := n) (h ▸ hd)
  have hlast : l.getLast hl = c :=
    hall _ (List.mem_append.mpr (Or.inl (List.getLast_mem hl)))
  have hhead : l'.head hl' = c :=
    hall _ (List.mem_append.mpr (Or.inr (List.head_mem hl')))
  obtain ⟨w, rfl⟩ := hu
  obtain ⟨w', rfl⟩ := hv
  constructor
  · rw [List.getLast?_append, List.getLast?_eq_some_getLast hl, hlast]
    rfl
  · rw [List.head?_append, List.head?_eq_some_head hl', hhead]
    rfl

/-- No run of one sign is longer than a mark. -/
theorem not_run (h : Spacing ts s) {c : Char} (hc : c = '+' ∨ c = '-') :
    ¬ List.replicate 3 c <:+: s := by
  have hblank : ∀ {b : Text}, isBlank b = true → c ∉ b := fun hb hmem =>
    hc.elim (ne_char_of_isBlank hb c hmem .plus) (ne_char_of_isBlank hb c hmem .minus)
  have hfirst : ∀ {l : Text}, List.replicate 3 c <:+: l → c ∈ l := fun hr =>
    hr.subset (List.mem_replicate.mpr ⟨by decide, rfl⟩)
  induction h with
  | nil hb => exact fun hr => hblank hb (hfirst hr)
  | @cons b s t ts hb hf hs ih =>
    intro hr
    rcases List.infix_append_iff_ne_nil.mp hr with hr | hr | ⟨l, l', hl, hl', heq, hsuf, hpre⟩
    · exact hblank hb (hfirst hr)
    · rcases List.infix_append_iff_ne_nil.mp hr with hr | hr | ⟨l, l', hl, hl', heq, hsuf, hpre⟩
      · exact t.not_run hc hr
      · exact ih hr
      -- A run across the end of the token would fuse it with what follows.
      · obtain ⟨hlast, hhead⟩ := ends_of_run hl hl' heq hsuf hpre
        exact hf c hlast c hhead ⟨rfl, hc⟩
    · exact hblank hb (List.mem_of_getLast? (ends_of_run hl hl' heq hsuf hpre).1)

end Spacing

def spaced : List Token → Text
  | [] => []
  | t :: ts => t.text ++ ' ' :: spaced ts

theorem spacing_spaced (ts : List Token) : Spacing ts (spaced ts) := by
  induction ts with
  | nil => exact Spacing.nil rfl
  | cons t ts ih =>
    have hblank : Spacing ts (' ' :: spaced ts) :=
      ih.of_trim_eq (trim_append_left isBlank_space (spaced ts)).symm
    refine (Spacing.of_token t).append hblank fun c _ d hd => ?_
    obtain rfl := Option.some.inj hd
    exact not_fuses_of_isSpace_right (by decide)

theorem isName_a : IsName ['a'] where
  letter := rfl
  no_operator c hc op := by
    obtain rfl := List.mem_singleton.mp hc
    cases op <;> decide
  trimmed := by decide

end Worksheet.Expression
