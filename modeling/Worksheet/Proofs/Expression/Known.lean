import Worksheet.Proofs.Expression.Acceptance
import Worksheet.Proofs.Expression.Leaves
import Worksheet.Proofs.Expression.Halves

/-! # Known leaves

A padded text that has a value is taken apart into leaves that are all known: each is a literal, the
name of a variable or a step of one. When names begin with letters, no known leaf begins with an
operator, and so no text with a value does, unless the operator is a sign.
-/
namespace Worksheet.Expression
open Text Series

variable {names : List Text} {s t u v : Text} {op o : BinaryOp}

/-- Operands that have a value over variables of the given names. -/
def Operand.Known (names : List Text) : Operand → Prop
  | negated _ => False
  | stepped _ name => trim name ∈ names
  | plain text => text ∈ names ∨ ∃ l : Literal, l.text = text

/-- Texts of which all leaves have a value over variables of the given names. -/
def Known (names : List Text) (s : Text) : Prop :=
  ∀ t ∈ leaves s, (Operand.ofTerm (trim t)).Known names

section Evaluate
variable {α : Type} [Arithmetic α]

theorem ensures_known_inOrder {x y : Evaluation α α} (hs : split? s = some ⟨op, u, v⟩)
    (hx : Airy u → Ensures (Defines names) x (Known names u))
    (hy : Airy v → Ensures (Defines names) y (Known names v)) (ha : Airy s) :
    Ensures (Defines names) (op.inOrder x y) (Known names s) := by
  obtain ⟨hu, hv⟩ := ha.of_split hs
  refine ((hx hu).inOrder op (hy hv)).imp fun ⟨hku, hkv⟩ t ht => ?_
  rw [leaves_of_split hs] at ht
  exact (List.mem_append.mp ht).elim (hku t) (hkv t)

theorem ensures_known (depth : Nat) (hs : Airy s) :
    Ensures (Defines names) (evaluateWithin (α := α) depth s) (Known names s) := by
  refine evaluateWithin_induction
    (P := fun s m => Airy s → Ensures (Defines names) m (Known names s))
    (fun s _ => Ensures.throw _) ?plain ?stepped ?negated ?binary depth s hs
  case plain =>
    intro s hs ho ha
    have hleaf := leaves_eq_singleton hs (by simp [ho])
    refine (ensures_lookUp _ _).imp fun h t ht => ?_
    obtain rfl : t = s := List.mem_singleton.mp (hleaf ▸ ht)
    rw [ho]
    refine h.imp_right fun ⟨n, hn⟩ => Literal.exists_text_eq hn ha.trim.signsLoose
  case stepped =>
    intro s name step hs ho ha
    have hleaf := leaves_eq_singleton hs (by simp [ho])
    refine (ensures_takeStep step name _).imp fun h t ht => ?_
    obtain rfl : t = s := List.mem_singleton.mp (hleaf ▸ ht)
    rw [ho]
    exact h
  case negated =>
    intro s rest x hs ho hx ha
    have hrest : Airy rest := ha.of_negated ho
    refine (hx hrest).bind fun h b => Ensures.pure _ fun t ht => h t ?_
    rwa [leaves_of_negated hs ho] at ht
  case binary =>
    intro s u v op x y hs hx hy
    exact ensures_known_inOrder hs hx hy

theorem ensures_known_chain (op : BinaryOp) (depth : Nat) (hs : Airy s) :
    Ensures (Defines names) (chainValue op (operands op s) (evaluateWithin (α := α) depth))
      (Known names s) :=
  chainValue_induction (P := fun s m => Airy s → Ensures (Defines names) m (Known names s))
    (fun hs hx hy => ensures_known_inOrder hs hx hy) (fun _ ha => ensures_known depth ha) s hs

end Evaluate

section Begins

def Begins (op : BinaryOp) (s : Text) : Prop :=
  ∃ w, trimLeft s = op.char :: w ∧ op.allows none w.head? = true

theorem Begins.of_append (h : Begins op (u ++ o.char :: v)) (hu : isBlank u = false) :
    Begins op u := by
  obtain ⟨w, hw, ha⟩ := h
  rw [trimLeft_append hu] at hw
  have hne : trimLeft u ≠ [] := by
    rw [Ne, trimLeft_eq_nil_iff, hu]
    exact Bool.false_ne_true
  obtain ⟨c, x, hx⟩ := List.exists_cons_of_ne_nil hne
  rw [hx] at hw
  obtain ⟨rfl, rfl⟩ := List.cons.inj hw
  exact ⟨x, hx, BinaryOp.allows_mono ha nofun fun c hc => List.mem_head?_append_of_mem_head? hc⟩

theorem Begins.of_isBlank (hu : isBlank u = true) (ha : op.allows u.getLast? v.head? = true) :
    Begins op (u ++ op.char :: v) := by
  refine ⟨v, ?_, BinaryOp.allows_mono ha nofun fun c hc => hc⟩
  rw [trimLeft_append_of_isBlank hu, trimLeft_eq_self_iff]
  simpa [Tight] using not_isSpace_char op

theorem Begins.trim_eq (h : Begins op s) :
    ∃ w, trim s = op.char :: w ∧ op.allows none w.head? = true := by
  obtain ⟨w, hw, ha⟩ := h
  obtain ⟨b, -, hb⟩ := exists_trimRight w
  refine ⟨trimRight w, by rw [trim, hw, trimRight_cons (not_isSpace_char op)],
    BinaryOp.allows_mono ha nofun fun c hc => ?_⟩
  rw [hb]
  exact List.mem_head?_append_of_mem_head? hc

/-- What a text begins with, its first leaf begins with, unless that is a sign. -/
theorem Begins.exists_leaf (h : Begins op s) (hop : op ≠ .minus) : ∃ t ∈ leaves s, Begins op t := by
  induction hn : s.length using Nat.strongRecOn generalizing s with
  | _ n ih =>
    cases hs : split? s with
    | some p =>
      have hlen := length_lt_of_split? hs
      have hu := (not_isBlank_of_split? hs).1
      obtain ⟨t, ht, hb⟩ := ih p.left.length (hn ▸ hlen.1) ((split?_eq hs ▸ h).of_append hu) rfl
      refine ⟨t, ?_, hb⟩
      rw [leaves_of_split hs]
      exact List.mem_append_left _ ht
    | none =>
      refine ⟨s, ?_, h⟩
      rw [leaves_eq_singleton hs fun rest hr => ?_]
      · exact List.mem_singleton_self s
      · obtain ⟨w, hw, -⟩ := h.trim_eq
        rw [hw] at hr
        have hchar := (List.cons.inj (eq_of_ofTerm_negated hr).1).1
        exact hop (BinaryOp.char_injective (q := .minus) hchar)

end Begins

section Lettered

/-- Names that begin with letters. -/
def Lettered (names : List Text) : Prop := ∀ x ∈ names, x.head?.any isLetter = true

theorem not_isLetter_char (op : BinaryOp) : isLetter op.char = false := by
  cases op <;> exact not_isLetter (by decide) rfl

theorem Lettered.head_ne {names : List Text} (h : Lettered names) {x : Text} (hx : x ∈ names)
    (op : BinaryOp) : x.head? ≠ some op.char := by
  intro hc
  have hletter := h x hx
  rw [hc, Option.any_some, not_isLetter_char] at hletter
  exact Bool.noConfusion hletter

/-- A name behind the mark of a step does not begin with an operator, and a mark is none. -/
theorem Lettered.step_text_ne (h : Lettered names) {step : Step} {name w : Text}
    (hx : trim name ∈ names) (ha : op.allows none w.head? = true) :
    step.text name ≠ op.char :: w := by
  obtain ⟨d, _ | _⟩ := step <;> intro htext
  · cases name with
    | nil => exact Bool.noConfusion (h [] hx)
    | cons c name =>
      obtain rfl : c = op.char := (List.cons.inj htext).1
      rw [trim_char_cons] at hx
      exact h.head_ne hx op rfl
  · have htext : d.mark ++ name = op.char :: w := htext
    rw [d.mark_eq] at htext
    obtain ⟨hchar, rfl⟩ := List.cons.inj htext
    obtain rfl := BinaryOp.char_injective hchar
    refine ((BinaryOp.allows_iff.mp ha).2 d.op.char rfl).1 ⟨rfl, ?_⟩
    cases d
    · exact Or.inl rfl
    · exact Or.inr rfl

theorem Known.not_begins (hk : Known names s) (hl : Lettered names) (hop : op ≠ .minus) :
    ¬ Begins op s := by
  intro h
  obtain ⟨t, ht, hb⟩ := h.exists_leaf hop
  obtain ⟨w, hw, ha⟩ := hb.trim_eq
  have hknown := hk t ht
  cases ho : Operand.ofTerm (trim t) with
  | negated rest =>
    rw [ho] at hknown
    exact hknown
  | stepped step name =>
    rw [ho] at hknown
    exact hl.step_text_ne hknown ha ((eq_of_ofTerm_stepped ho).trans hw)
  | plain text =>
    rw [ho, eq_of_ofTerm_plain ho, hw] at hknown
    rcases hknown with hmem | ⟨l, hl'⟩
    · exact hl.head_ne hmem op rfl
    · have hchar := (literal_char (l := l) (c := op.char) (by simp [hl'])).2.2 op
      exact hchar rfl

end Lettered

end Worksheet.Expression
