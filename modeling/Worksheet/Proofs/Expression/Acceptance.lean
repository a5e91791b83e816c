import Worksheet.Proofs.Expression.Induction
import Worksheet.Proofs.Expression.Reading

/-! # Acceptance

A text that has a value spells a phrase, of which all names are defined. Splits may fall through to
a tighter operator and cut a malformed text in an odd place; then one of the pieces is an operand
that is no atom. Padding is needed for this: it keeps a sign from being read as part of a numeral.
-/
namespace Worksheet.Expression
open Text Series

section Ensures

variable {α β γ : Type} {I : Variables α → Prop} {P Q R : Prop}

def Ensures (I : Variables α → Prop) (m : Evaluation α β) (Q : Prop) : Prop :=
  ∀ vars b after, I vars → m.run.run vars = (.ok b, after) → Q ∧ I after

theorem Ensures.imp {m : Evaluation α β} (h : Ensures I m P) (hPQ : P → Q) : Ensures I m Q := by
  intro vars b after hv hm
  obtain ⟨hP, ha⟩ := h vars b after hv hm
  exact ⟨hPQ hP, ha⟩

theorem Ensures.pure (b : β) (hQ : Q) : Ensures I (Pure.pure b) Q := by
  intro vars b' after hv hm
  obtain ⟨-, rfl⟩ := Prod.mk.inj hm
  exact ⟨hQ, hv⟩

theorem Ensures.throw (e : Failure) : Ensures I (MonadExcept.throw e : Evaluation α β) Q := by
  intro vars b after _ hm
  cases hm

theorem Ensures.bind {m : Evaluation α β} {f : β → Evaluation α γ} (hm : Ensures I m Q)
    (hf : Q → ∀ b, Ensures I (f b) R) : Ensures I (m >>= f) R := by
  intro vars c last hv hrun
  rw [run_bind] at hrun
  rcases hr : m.run.run vars with ⟨e | b, after⟩
  · rw [hr] at hrun
    cases hrun
  · obtain ⟨hQ, ha⟩ := hm vars b after hv hr
    rw [hr] at hrun
    exact hf hQ b after c last ha hrun

theorem Ensures.inOrder [Arithmetic α] {x y : Evaluation α α} (op : BinaryOp)
    (hx : Ensures I x P) (hy : Ensures I y Q) : Ensures I (op.inOrder x y) (P ∧ Q) :=
  hx.bind fun hP _ => hy.bind fun hQ _ => Ensures.pure _ ⟨hP, hQ⟩

end Ensures

section Written

def Atom.names : Atom → List Name
  | literal _ => []
  | name x | stepped _ x => [x]

/-- Texts that spell a phrase of which all names are among the given ones. -/
def Written (names : List Text) (s : Text) : Prop :=
  ∃ p : Phrase, Spacing (Phrase.tokens p) s ∧ ∀ g ∈ items p, ∀ x ∈ g.atom.names, x.1 ∈ names

variable {names : List Text} {s u v : Text} {op : BinaryOp}

theorem written_atom {a : Atom} (h : Spacing a.tokens s) (ha : ∀ x ∈ a.names, x.1 ∈ names) :
    Written names s := by
  refine ⟨single ⟨0, a⟩, ?_, ?_⟩
  · rw [Phrase.tokens_single]
    exact h
  · intro g hg
    obtain rfl := List.mem_singleton.mp hg
    exact ha

theorem Written.of_trim (h : Written names (trim s)) : Written names s := by
  obtain ⟨p, hs, hp⟩ := h
  exact ⟨p, Spacing.trim_iff.mp hs, hp⟩

theorem Written.attach (hu : Written names u) (hv : Written names v)
    (ha : op.allows u.getLast? v.head? = true) : Written names (u ++ op.char :: v) := by
  obtain ⟨p, hsp, hp⟩ := hu
  obtain ⟨q, hsq, hq⟩ := hv
  refine ⟨Series.attach p op q, ?_, ?_⟩
  · rw [Phrase.tokens_attach]
    exact hsp.append_operator hsq ha
  · intro g hg
    rw [items_attach] at hg
    rcases List.mem_append.mp hg with hg | hg
    · exact hp g hg
    · exact hq g hg

theorem Written.minus (h : Written names s) (hne : ∀ c ∈ s.head?, c ≠ '-') :
    Written names ('-' :: s) := by
  obtain ⟨p, hs, hp⟩ := h
  refine ⟨(⟨p.1.signs + 1, p.1.atom⟩, p.2), ?_, ?_⟩
  · have hcons : Spacing (.operator .minus :: Phrase.tokens p) ([] ++ (['-'] ++ s)) := by
      refine Spacing.cons rfl (fun c hc d hd hf => ?_) hs
      obtain rfl : '-' = c := Option.some.inj hc
      exact hne d hd hf.1.symm
    simpa [Phrase.tokens, Signed.tokens, List.replicate_succ] using hcons
  · intro g hg
    rcases List.mem_cons.mp hg with rfl | hg
    · exact hp p.1 List.mem_cons_self
    · exact hp g (List.mem_cons_of_mem _ hg)

theorem spacing_step (step : Step) {name : Text} {x : Name} (h : trim name = x.1) :
    Spacing (Atom.stepped step x).tokens (step.text name) := by
  have hname : Spacing [.name x] name :=
    (Spacing.of_token (.name x)).of_trim_eq (by rw [h]; exact x.2.trimmed)
  have hplain := IsName.no_operator_of_trim (h ▸ x.2)
  obtain ⟨d, new⟩ := step
  cases new with
  | true =>
    have happ := (Spacing.of_token (.mark d)).append hname fun c hc e he hf => by
      have hsign := hf.1 ▸ hf.2
      exact hsign.elim (hplain e (List.mem_of_head? he) .plus)
        (hplain e (List.mem_of_head? he) .minus)
    exact happ
  | false =>
    have happ := hname.append (Spacing.of_token (.mark d)) fun c hc e he hf =>
      hf.2.elim (hplain c (List.mem_of_getLast? hc) .plus)
        (hplain c (List.mem_of_getLast? hc) .minus)
    exact happ

end Written

section Leaf

theorem Airy.signsLoose {s : Text} (h : Airy s) : Literal.SignsLoose s := by
  intro u c v hs hc
  obtain ⟨op, rfl⟩ : ∃ op : BinaryOp, op.char = c := by
    rcases hc with rfl | rfl
    · exact ⟨.minus, rfl⟩
    · exact ⟨.plus, rfl⟩
  by_cases hu : ∃ d ∈ u.getLast?, d = op.char
  · exact Or.inl hu
  refine Or.inr fun d hd => ?_
  by_cases hop : d = op.char
  · exact Or.inl hop
  by_cases heq : d = '='
  · exact Or.inr (Or.inl heq)
  have ha : op.allows u.getLast? v.head? = true := by
    refine BinaryOp.allows_iff.mpr ⟨fun b hb hf => hu ⟨b, hb, hf.1⟩, fun b hb => ?_⟩
    obtain rfl : d = b := Option.some.inj (hd.symm.trans hb)
    exact ⟨fun hf => hop hf.1.symm, fun _ => heq⟩
  exact Or.inr (Or.inr (h u op v hs ha d hd))

theorem Airy.of_negated {s rest : Text} (h : Airy s)
    (ho : Operand.ofTerm (Text.trim s) = .negated rest) : Airy rest := by
  obtain ⟨hterm, hne⟩ := eq_of_ofTerm_negated ho
  have ht : Airy ([] ++ BinaryOp.minus.char :: rest) := hterm ▸ h.trim
  exact ht.right (allows_minus_of_ne hne)

theorem Airy.of_split {s u v : Text} {op : BinaryOp} (h : Airy s)
    (hs : split? s = some ⟨op, u, v⟩) : Airy u ∧ Airy v := by
  have h : Airy (u ++ op.char :: v) := split?_eq hs ▸ h
  exact ⟨h.left, h.right (split?_allows hs)⟩

variable {α : Type} [Arithmetic α] {names : List Text}

/-- The variables have just the given names. -/
def Defines (names : List Text) (vars : Variables α) : Prop := ∀ x, x ∈ vars.names ↔ x ∈ names

theorem ensures_takeStep (step : Step) (name term : Text) :
    Ensures (Defines names) (takeStep (α := α) step name term) (trim name ∈ names) := by
  intro vars b after hv hrun
  rw [run_takeStep] at hrun
  cases hx : vars.get? (trim name) with
  | none =>
    rw [hx] at hrun
    cases hrun
  | some old =>
    have hmem : trim name ∈ names := by
      rw [← hv, Variables.mem_names_iff, hx]
      rfl
    rw [hx] at hrun
    obtain ⟨-, rfl⟩ := Prod.mk.inj hrun
    refine ⟨hmem, fun x => ?_⟩
    rw [Variables.mem_names_insert, hv]
    constructor
    · rintro (rfl | h)
      · exact hmem
      · exact h
    · exact Or.inr

theorem ensures_lookUp (term e : Text) :
    Ensures (Defines names) (lookUp (α := α) term e)
      (term ∈ names ∨ ∃ n, Numeral.ofText? term = some n) := by
  intro vars b after hv hrun
  rw [run_lookUp] at hrun
  cases hx : vars.get? term with
  | some v =>
    rw [hx] at hrun
    obtain ⟨-, rfl⟩ := Prod.mk.inj hrun
    refine ⟨Or.inl ?_, hv⟩
    rw [← hv, Variables.mem_names_iff, hx]
    rfl
  | none =>
    rw [hx, run_numberOf] at hrun
    obtain ⟨hresult, rfl⟩ := Prod.mk.inj hrun
    split at hresult
    · cases hresult
    · cases hn : Numeral.ofText? term with
      | none =>
        rw [hn] at hresult
        cases hresult
      | some n => exact ⟨Or.inr ⟨n, rfl⟩, hv⟩

end Leaf

section Evaluate

variable {α : Type} [Arithmetic α] {names : List Text}

/-- A padded text that has a value spells signed atoms between binary operators. -/
theorem ensures_evaluateWithin (hnames : ∀ x ∈ names, IsName x) (depth : Nat) {s : Text}
    (hs : Airy s) :
    Ensures (Defines names) (evaluateWithin (α := α) depth s) (Written names s) := by
  refine evaluateWithin_induction
    (P := fun s m => Airy s → Ensures (Defines names) m (Written names s))
    (fun s _ => Ensures.throw _) ?plain ?stepped ?negated ?binary depth s hs
  case plain =>
    intro s _ _ ha
    refine (ensures_lookUp _ _).imp fun h => Written.of_trim ?_
    rcases h with hmem | ⟨n, hn⟩
    · let x : Name := ⟨trim s, hnames _ hmem⟩
      refine written_atom (a := .name x) (Spacing.of_token (.name x)) fun y hy => ?_
      rw [List.mem_singleton.mp hy]
      exact hmem
    · obtain ⟨l, hl⟩ := Literal.exists_text_eq hn ha.trim.signsLoose
      rw [← hl]
      exact written_atom (a := .literal l) (Spacing.of_token (.literal l)) nofun
  case stepped =>
    intro s name step _ ho _
    refine (ensures_takeStep step name _).imp fun hmem => Written.of_trim ?_
    rw [← eq_of_ofTerm_stepped ho]
    let x : Name := ⟨trim name, hnames _ hmem⟩
    refine written_atom (a := .stepped step x) (spacing_step step rfl) fun y hy => ?_
    rw [List.mem_singleton.mp hy]
    exact hmem
  case negated =>
    intro s rest x _ ho hx ha
    obtain ⟨hterm, hne⟩ := eq_of_ofTerm_negated ho
    refine (hx (ha.of_negated ho)).bind fun h b => Ensures.pure _ (Written.of_trim ?_)
    rw [hterm]
    exact h.minus hne
  case binary =>
    intro s u v op x y hsplit hx hy ha
    obtain ⟨hu, hv⟩ := ha.of_split hsplit
    refine ((hx hu).inOrder op (hy hv)).imp fun h => ?_
    rw [split?_eq hsplit]
    exact h.1.attach h.2 (split?_allows hsplit)

/-- Where an operator stands in a text that spells a phrase, something follows, and only a minus
may have no operand before it. -/
theorem Shape.of_operator {ops : List BinaryOp} {u v : Text} {op : BinaryOp}
    (h : Shape ops (u ++ op.char :: v)) (ha : op.allows u.getLast? v.head? = true) :
    isBlank v = false ∧ (isBlank (last (chunks u)) = true → op = .minus) := by
  have hcut := chunks_append_operator ha
  constructor
  · refine isBlank_eq_false_of_last ?_
    rw [← last_attach (chunks u) op, ← hcut]
    exact h.not_blank_last
  · intro hb
    refine h.signs_minus op ?_
    rw [hcut, operatorsBehind_attach, hb]
    simp

/-- A text that has a value is a sequence of signed atoms with one binary operator between each
two, all its names are defined, no run of one sign is longer than two, nothing but a minus stands
where an operand is missing on the left, and an operand is on the right of every operator. -/
theorem written_of_evaluate_pad {s : Text} {vars after : Variables α} {v : α} (hv : Named vars)
    {depth : Nat} (h : evaluate (pad s) vars depth = (.ok v, after)) :
    (∃ p : Phrase, Spacing (Phrase.tokens p) s ∧
      ∀ g ∈ items p, ∀ x ∈ g.atom.names, x.1 ∈ vars.names) ∧
    (∀ c, c = '+' ∨ c = '-' → ¬ List.replicate 3 c <:+: s) ∧
    (∀ u (op : BinaryOp) r, s = u ++ op.char :: r → op.allows u.getLast? r.head? = true →
      isBlank r = false ∧ (isBlank (last (chunks u)) = true → op = .minus)) := by
  obtain ⟨⟨p, hpad, hp⟩, -⟩ :=
    ensures_evaluateWithin hv depth (airy_pad s) vars v after (fun _ => Iff.rfl) h
  have hs := hpad.of_alike (alike_pad s)
  refine ⟨⟨p, hs, hp⟩, fun c hc => hs.not_run hc, ?_⟩
  rintro u op r rfl ha
  exact (shape_phrase hs).of_operator ha

theorem written_of_evaluate_pad_negative :
    let vars : Variables Float := .ofList [(['a'], 1)]
    Named vars ∧ evaluate (pad "- -a".toList) vars = (.ok (- -1), vars) ∧
      (∃ p : Phrase, Spacing (Phrase.tokens p) "- -a".toList ∧
        ∀ g ∈ items p, ∀ x ∈ g.atom.names, x.1 ∈ vars.names) := by
  intro vars
  have hv : Named vars := named_ofList_single ⟨['a'], isName_a⟩ 1
  have h : evaluate (pad "- -a".toList) vars = (.ok (- -1), vars) := rfl
  exact ⟨hv, h, (written_of_evaluate_pad hv h).1⟩

end Evaluate

end Worksheet.Expression
