import Worksheet.Proofs.Expression.Outcome

/-! # Leaves

A text that is not split is read as one operand. If it spells an atom it is evaluated as that atom,
and a minus in front of it is a sign.
-/
namespace Worksheet.Expression
open Text Series

section Operand

def Step.text (step : Step) (name : Text) : Text :=
  if step.yieldsNew then step.direction.mark ++ name else name ++ step.direction.mark

def Direction.op : Direction → BinaryOp
  | up => .plus
  | down => .minus

theorem Direction.mark_eq (d : Direction) : d.mark = [d.op.char, d.op.char] := by
  cases d <;> rfl

theorem marked?_eq_some {d : Direction} {term name : Text} {step : Step} :
    marked? d term = some (step, name) ↔ step = ⟨d, true⟩ ∧ d.mark ++ name = term := by
  simp only [marked?, Option.map_eq_some_iff, List.isPrefixOf?_eq_some_iff_append_eq,
    Prod.mk.injEq]
  constructor
  · rintro ⟨_, h, rfl, rfl⟩
    exact ⟨rfl, h⟩
  · rintro ⟨rfl, h⟩
    exact ⟨name, h, rfl, rfl⟩

theorem markedAfter?_eq_some {d : Direction} {term name : Text} {step : Step} :
    markedAfter? d term = some (step, name) ↔ step = ⟨d, false⟩ ∧ name ++ d.mark = term := by
  simp only [markedAfter?, Option.map_eq_some_iff, List.isSuffixOf?_eq_some_iff_append_eq,
    Prod.mk.injEq]
  constructor
  · rintro ⟨_, h, rfl, rfl⟩
    exact ⟨rfl, h⟩
  · rintro ⟨rfl, h⟩
    exact ⟨name, h, rfl, rfl⟩

theorem text_of_marked? {d : Direction} {term name : Text} {step : Step}
    (h : marked? d term = some (step, name)) : step.text name = term := by
  obtain ⟨rfl, ht⟩ := marked?_eq_some.mp h
  exact ht

theorem text_of_markedAfter? {d : Direction} {term name : Text} {step : Step}
    (h : markedAfter? d term = some (step, name)) : step.text name = term := by
  obtain ⟨rfl, ht⟩ := markedAfter?_eq_some.mp h
  exact ht

theorem text_of_step? {term name : Text} {step : Step} (h : step? term = some (step, name)) :
    step.text name = term := by
  simp only [step?, Option.orElse_eq_orElse, Option.orElse_eq_or, Option.or_eq_some_iff] at h
  rcases h with h | ⟨-, h | ⟨-, h | ⟨-, h⟩⟩⟩
  · exact text_of_marked? h
  · exact text_of_markedAfter? h
  · exact text_of_marked? h
  · exact text_of_markedAfter? h

theorem marked?_eq_none {d : Direction} {term : Text} (h : ∀ c ∈ term.head?, c ≠ d.op.char) :
    marked? d term = none := by
  refine Option.eq_none_iff_forall_ne_some.mpr fun p hp => ?_
  obtain ⟨-, ht⟩ := marked?_eq_some.mp hp
  rw [d.mark_eq] at ht
  exact h d.op.char (by simp [← ht]) rfl

theorem markedAfter?_eq_none {d : Direction} {term : Text}
    (h : ∀ c ∈ term.getLast?, c ≠ d.op.char) : markedAfter? d term = none := by
  refine Option.eq_none_iff_forall_ne_some.mpr fun p hp => ?_
  obtain ⟨-, ht⟩ := markedAfter?_eq_some.mp hp
  rw [d.mark_eq] at ht
  exact h d.op.char (by simp [← ht]) rfl

theorem ofTerm_minus {rest : Text} (h : ∀ c ∈ rest.head?, c ≠ '-') :
    Operand.ofTerm ('-' :: rest) = .negated rest := by
  have hc : ('-' :: rest).head? = some '-' ∧ rest.head? ≠ some '-' := ⟨rfl, fun hr => h '-' hr rfl⟩
  rw [Operand.ofTerm, List.tail_cons, if_pos hc]

theorem ofTerm_of_step? {term name : Text} {step : Step}
    (h : term.head? = some '-' → term.tail.head? = some '-')
    (hs : step? term = some (step, name)) : Operand.ofTerm term = .stepped step name := by
  have hc : ¬ (term.head? = some '-' ∧ term.tail.head? ≠ some '-') := fun hc => hc.2 (h hc.1)
  rw [Operand.ofTerm, if_neg hc, hs]

theorem eq_of_ofTerm_negated {term rest : Text} (h : Operand.ofTerm term = .negated rest) :
    term = '-' :: rest ∧ ∀ c ∈ rest.head?, c ≠ '-' := by
  rw [Operand.ofTerm] at h
  split at h
  · next hc =>
    obtain rfl := Operand.negated.inj h
    cases term with
    | nil => cases hc.1
    | cons d term =>
      obtain rfl : d = '-' := Option.some.inj hc.1
      refine ⟨rfl, fun c hm hd => hc.2 ?_⟩
      rw [← hd]
      exact hm
  · split at h <;> cases h

theorem eq_of_ofTerm_stepped {term name : Text} {step : Step}
    (h : Operand.ofTerm term = .stepped step name) : step.text name = term := by
  rw [Operand.ofTerm] at h
  split at h
  · cases h
  · split at h
    · next hs =>
      obtain ⟨rfl, rfl⟩ := Operand.stepped.inj h
      exact text_of_step? hs
    · cases h

theorem eq_of_ofTerm_plain {term text : Text} (h : Operand.ofTerm term = .plain text) :
    text = term := by
  rw [Operand.ofTerm] at h
  split at h
  · cases h
  · split at h
    · cases h
    · exact (Operand.plain.inj h).symm

variable {term name : Text}

theorem ofTerm_eq_plain (hhead : ∀ op : BinaryOp, term.head? ≠ some op.char)
    (hmark : ∀ d : Direction, ¬ d.mark <:+ term) : Operand.ofTerm term = .plain term := by
  have hminus : term.head? ≠ some '-' := hhead .minus
  have hfirst : ∀ d, marked? d term = none := fun d =>
    marked?_eq_none fun c hc hop => hhead d.op (hop ▸ hc)
  have hlast : ∀ d, markedAfter? d term = none := fun d =>
    Option.eq_none_iff_forall_ne_some.mpr fun p hp =>
      hmark d ⟨p.2, (markedAfter?_eq_some.mp hp).2⟩
  simp [Operand.ofTerm, step?, hminus, hfirst, hlast]

theorem ofTerm_plain (h : ∀ c ∈ term, ∀ op : BinaryOp, c ≠ op.char) :
    Operand.ofTerm term = .plain term := by
  refine ofTerm_eq_plain (fun op hc => h op.char (List.mem_of_head? hc) op rfl) ?_
  rintro d ⟨x, rfl⟩
  exact h d.op.char (by simp [d.mark_eq]) d.op rfl

theorem ofTerm_mark_append (d : Direction) (h : ∀ c ∈ name, ∀ op : BinaryOp, c ≠ op.char)
    (hne : name ≠ []) : Operand.ofTerm (d.mark ++ name) = .stepped ⟨d, true⟩ name := by
  have hsome : marked? d (d.mark ++ name) = some (⟨d, true⟩, name) :=
    marked?_eq_some.mpr ⟨rfl, rfl⟩
  have hlast : markedAfter? .up (d.mark ++ name) = none := by
    refine markedAfter?_eq_none fun c hc => ?_
    rw [List.getLast?_append_of_ne_nil _ hne] at hc
    exact h c (List.mem_of_getLast? hc) .plus
  cases d with
  | up => exact ofTerm_of_step? (by simp [Direction.mark]) (by rw [step?, hsome]; rfl)
  | down =>
    have hup : marked? .up (Direction.down.mark ++ name) = none :=
      marked?_eq_none (by simp [Direction.mark, Direction.op, BinaryOp.char])
    exact ofTerm_of_step? (by simp [Direction.mark]) (by rw [step?, hup, hlast, hsome]; rfl)

theorem ofTerm_append_mark (d : Direction) (h : ∀ c ∈ name, ∀ op : BinaryOp, c ≠ op.char)
    (hne : name ≠ []) : Operand.ofTerm (name ++ d.mark) = .stepped ⟨d, false⟩ name := by
  have hsome : markedAfter? d (name ++ d.mark) = some (⟨d, false⟩, name) :=
    markedAfter?_eq_some.mpr ⟨rfl, rfl⟩
  have hin : ∀ c ∈ (name ++ d.mark).head?, ∀ op : BinaryOp, c ≠ op.char := by
    intro c hc
    obtain ⟨b, s, rfl⟩ := List.exists_cons_of_ne_nil hne
    obtain rfl : b = c := Option.some.inj hc
    exact h b List.mem_cons_self
  have hfirst : ∀ d', marked? d' (name ++ d.mark) = none := fun d' =>
    marked?_eq_none fun c hc => hin c hc d'.op
  have hminus : (name ++ d.mark).head? ≠ some '-' := fun hh => hin '-' hh .minus rfl
  cases d with
  | up =>
    exact ofTerm_of_step? (fun hh => absurd hh hminus) (by rw [step?, hfirst, hsome]; rfl)
  | down =>
    have hup : markedAfter? .up (name ++ Direction.down.mark) = none :=
      markedAfter?_eq_none (by
        simp [Direction.mark, Direction.op, BinaryOp.char, List.getLast?_append])
    exact ofTerm_of_step? (fun hh => absurd hh hminus)
      (by rw [step?, hfirst, hup, hfirst, hsome]; rfl)

theorem ofTerm_text (step : Step) (h : IsName (trim name)) :
    Operand.ofTerm (step.text name) = .stepped step name := by
  have hne : name ≠ [] := by
    rintro rfl
    exact h.ne_nil rfl
  obtain ⟨d, new⟩ := step
  cases new with
  | true => exact ofTerm_mark_append d h.no_operator_of_trim hne
  | false => exact ofTerm_append_mark d h.no_operator_of_trim hne

end Operand

namespace Spacing

variable {ts : List Token} {t t' : Token} {s : Text}

theorem trim_one (h : Spacing [t] s) : trim s = t.text := by
  obtain ⟨r, hr, -, hs⟩ := cons_iff.mp h
  have hr : trim s = trim (t.text ++ r) := by rw [← hr, trim_trimLeft]
  rw [hr, trim_append_right _ (nil_iff.mp hs), trim_eq_self t.tight t.tight_reverse]

theorem trim_two (h : Spacing [t, t'] s) :
    ∃ b, isBlank b = true ∧ trim s = t.text ++ (b ++ t'.text) := by
  obtain ⟨r, hr, -, hs⟩ := cons_iff.mp h
  obtain ⟨b, hb, hrb⟩ := exists_trimLeft r
  obtain ⟨r', hr', -, hs'⟩ := cons_iff.mp hs
  have hall : trim s = trim ((t.text ++ (b ++ t'.text)) ++ r') := by
    rw [← trim_trimLeft s, hr, hrb, hr']
    simp
  have hend : Tight (t.text ++ (b ++ t'.text)).reverse := by
    rw [← List.append_assoc, List.reverse_append]
    exact tight_append (by simpa using t'.text_ne_nil) t'.tight_reverse
  refine ⟨b, hb, ?_⟩
  rw [hall, trim_append_right _ (nil_iff.mp hs'),
    trim_eq_self (tight_append t.text_ne_nil t.tight) hend]

theorem trim_minus (h : Spacing (.operator .minus :: ts) s) :
    ∃ r, trim s = '-' :: r ∧ (∀ c ∈ r.head?, c ≠ '-') ∧ Spacing ts r := by
  obtain ⟨r, hr, hf, hs⟩ := cons_iff.mp (trim_iff.mpr h)
  rw [trimLeft_trim] at hr
  refine ⟨r, hr, fun c hc => ?_, hs⟩
  rintro rfl
  exact hf '-' rfl '-' hc ⟨rfl, Or.inr rfl⟩

theorem trim_stepped {step : Step} {x : Name} (h : Spacing (Atom.stepped step x).tokens s) :
    ∃ name, trim s = step.text name ∧ trim name = x.1 := by
  obtain ⟨d, new⟩ := step
  cases new with
  | true =>
    have h : Spacing [.mark d, .name x] s := h
    obtain ⟨b, hb, hs⟩ := h.trim_two
    exact ⟨b ++ x.1, hs, by rw [trim_append_left hb, x.2.trimmed]⟩
  | false =>
    have h : Spacing [.name x, .mark d] s := h
    obtain ⟨b, hb, hs⟩ := h.trim_two
    have hs : trim s = x.1 ++ b ++ d.mark := by rw [hs, ← List.append_assoc]; rfl
    exact ⟨x.1 ++ b, hs, by rw [trim_append_right _ hb, x.2.trimmed]⟩

end Spacing

section Named

variable {α : Type}

def Named (vars : Variables α) : Prop := ∀ x ∈ vars.names, IsName x

theorem Named.insert {vars : Variables α} (h : Named vars) (x : Name) (v : α) :
    Named (vars.insert x.1 v) := by
  intro y hy
  rcases Variables.mem_names_insert.mp hy with rfl | hy
  · exact x.2
  · exact h y hy

theorem named_ofList_single (x : Name) (v : α) : Named (.ofList [(x.1, v)]) := by
  intro y hy
  obtain rfl : y = x.1 := List.mem_singleton.mp hy
  exact x.2

theorem not_letter_literal (l : Literal) : l.text.head?.any isLetter = false := by
  obtain ⟨c, s, h, hc⟩ := l.head_text
  rw [h, List.head?_cons, Option.any_some]
  rcases hc with hc | rfl
  · exact not_isLetter_of_isDigit hc
  · exact not_isLetter (by decide) rfl

theorem Named.get?_literal {vars : Variables α} (h : Named vars) (l : Literal) :
    vars.get? l.text = none := by
  refine Variables.get?_eq_none_iff.mpr fun hmem => ?_
  have hname := (h l.text hmem).letter
  rw [not_letter_literal] at hname
  exact Bool.noConfusion hname

end Named

section Atom

variable {α : Type}

theorem run_valueOf (x : Name) (vars : Variables α) :
    (valueOf x).run.run vars = match vars.get? x.1 with
      | some v => (.ok v, vars)
      | none => (.error x, vars) := by
  rw [valueOf, run_get]
  cases vars.get? x.1 <;> rfl

variable [Arithmetic α]

theorem run_shadowed (l : Literal) (vars : Variables α) :
    (shadowed l).run.run vars = match vars.get? l.text with
      | some v => (.ok v, vars)
      | none => (.ok (Arithmetic.ofNumeral l.value), vars) := by
  rw [shadowed, run_get]
  cases vars.get? l.text <;> rfl

theorem run_lookUp (term e : Text) (vars : Variables α) :
    (lookUp term e).run.run vars = match vars.get? term with
      | some v => (.ok v, vars)
      | none => (numberOf term e).run.run vars := by
  rw [lookUp, run_get]
  cases vars.get? term <;> rfl

theorem run_takeStep (step : Step) (name term : Text) (vars : Variables α) :
    (takeStep step name term).run.run vars = match vars.get? (trim name) with
      | none => (.error (.unknownVariable (trim name) term), vars)
      | some old => (.ok (if step.yieldsNew then old + step.delta else old),
          vars.insert (trim name) (old + step.delta)) := by
  rw [takeStep, run_get]
  cases vars.get? (trim name) <;> rfl

theorem run_numberOf (term e : Text) (vars : Variables α) :
    (numberOf term e).run.run vars =
      (if term.head?.any isLetter then .error (.unknownVariable term e)
        else match Numeral.ofText? term with
          | none => .error (.notANumber term)
          | some n => .ok (Arithmetic.ofNumeral n), vars) := by
  rw [numberOf]
  split
  · rfl
  · cases Numeral.ofText? term <;> rfl

variable {deep : Prop}

theorem lookUp_name (x : Name) (e : Text) :
    Matches deep (lookUp (α := α) x.1 e) (valueOf x) := by
  intro vars
  rw [run_lookUp, run_valueOf]
  cases vars.get? x.1 with
  | some v => exact .value v vars
  | none =>
    rw [run_numberOf, if_pos x.2.letter]
    exact .unknown x e vars

theorem lookUp_literal (l : Literal) (e : Text) :
    Matches deep (lookUp (α := α) l.text e) (shadowed l) := by
  intro vars
  rw [run_lookUp, run_shadowed]
  cases vars.get? l.text with
  | some v => exact .value v vars
  | none =>
    rw [run_numberOf, not_letter_literal, if_neg Bool.false_ne_true, l.ofText?_text]
    exact .value _ vars

theorem takeStep_name (step : Step) (x : Name) {name : Text} (h : trim name = x.1) (term : Text) :
    Matches deep (takeStep (α := α) step name term) ((Atom.stepped step x).evaluate shadowed) := by
  intro vars
  rw [run_takeStep, h, Atom.evaluate, run_bind, run_valueOf]
  cases vars.get? x.1 with
  | some v => exact .value _ _
  | none => exact .unknown x term vars

theorem evaluateWithin_leaf {s : Text} (h : split? s = none) (depth : Nat) :
    evaluateWithin (α := α) (depth + 1) s = match Operand.ofTerm (trim s) with
      | .negated rest => do return -(← evaluateWithin depth rest)
      | .stepped step name => takeStep step name (trim s)
      | .plain text => lookUp text s := by
  cases hop : Operand.ofTerm (trim s) <;> simp only [evaluateWithin, h, hop]

/-- A text that spells an atom is evaluated as the atom. -/
theorem evaluateWithin_atom {a : Atom} {s : Text} (h : Spacing a.tokens s) (hs : split? s = none)
    (depth : Nat) : Matches deep (evaluateWithin (α := α) (depth + 1) s) (a.evaluate shadowed) := by
  rw [evaluateWithin_leaf hs]
  cases a with
  | literal l =>
    rw [h.trim_one, Token.text, ofTerm_plain fun c hc => (literal_char hc).2.2]
    exact lookUp_literal l s
  | name x =>
    rw [h.trim_one, Token.text, ofTerm_plain x.2.no_operator]
    exact lookUp_name x s
  | stepped step x =>
    obtain ⟨name, hn, hx⟩ := h.trim_stepped
    rw [hn, ofTerm_text step (hx ▸ x.2)]
    exact takeStep_name step x hx _

/-- A minus in front of a text that is not split is a sign. -/
theorem evaluateWithin_minus {ts : List Token} {s : Text}
    (h : Spacing (.operator .minus :: ts) s) (hs : split? s = none) :
    ∃ r, Spacing ts r ∧ ∀ depth, evaluateWithin (α := α) (depth + 1) s =
      do return -(← evaluateWithin depth r) := by
  obtain ⟨r, hr, hne, hts⟩ := h.trim_minus
  refine ⟨r, hts, fun depth => ?_⟩
  rw [evaluateWithin_leaf hs, hr, ofTerm_minus hne]

end Atom

end Worksheet.Expression
