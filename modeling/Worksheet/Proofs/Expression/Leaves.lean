import Worksheet.Proofs.Expression.Induction

/-! # Leaves

Splitting takes a text apart into its leaves, which are not split and have no sign in front. An
evaluation reads and writes no other variables than those that the leaves mention: its outcome
depends on nothing else, and everything else stays as it was.
-/
namespace Worksheet.Expression
open Text

theorem length_lt_of_ofTerm_negated {s rest : Text}
    (h : Operand.ofTerm (trim s) = .negated rest) : rest.length < s.length := by
  have hlen := congrArg List.length (eq_of_ofTerm_negated h).1
  have := length_trim_le s
  rw [List.length_cons] at hlen
  omega

/-- The texts that a text is taken apart into, in their order in it. -/
def leaves (s : Text) : List Text :=
  match hs : split? s with
  | some p =>
    have := length_lt_of_split? hs
    leaves p.left ++ leaves p.right
  | none =>
    match ho : Operand.ofTerm (trim s) with
    | .negated rest =>
      have := length_lt_of_ofTerm_negated ho
      leaves rest
    | .stepped _ _ | .plain _ => [s]
termination_by s.length
decreasing_by all_goals omega

section Leaves
variable {s u v rest name text : Text} {op : BinaryOp} {step : Step}

theorem leaves_of_split (h : split? s = some ⟨op, u, v⟩) : leaves s = leaves u ++ leaves v := by
  rw [leaves]
  split
  · next p hp =>
    obtain rfl := Option.some.inj (h.symm.trans hp)
    rfl
  · next hn => rw [h] at hn; cases hn

theorem leaves_of_negated (hs : split? s = none) (ho : Operand.ofTerm (trim s) = .negated rest) :
    leaves s = leaves rest := by
  rw [leaves]
  split
  · next p hp => rw [hs] at hp; cases hp
  · split
    · next r hr => rw [Operand.negated.inj (ho.symm.trans hr)]
    · next hr => rw [ho] at hr; cases hr
    · next hr => rw [ho] at hr; cases hr

theorem leaves_eq_singleton (hs : split? s = none)
    (ho : ∀ rest, Operand.ofTerm (trim s) ≠ .negated rest) : leaves s = [s] := by
  rw [leaves]
  split
  · next p hp => rw [hs] at hp; cases hp
  · split
    · next r hr => exact absurd hr (ho r)
    · rfl
    · rfl

end Leaves

/-- The names of variables that an operand changes. -/
def Operand.written : Operand → List Text
  | negated _ | plain _ => []
  | stepped _ name => [trim name]

/-- The names of variables that an operand asks for, if they are names. -/
def Operand.mentioned : Operand → List Text
  | negated _ => []
  | plain text => [text]
  | stepped _ name => [trim name]

def written (s : Text) : List Text := (leaves s).flatMap fun t => (Operand.ofTerm (trim t)).written

/-- The names and the operand texts of a text. -/
def mentioned (s : Text) : List Text :=
  (leaves s).flatMap fun t => (Operand.ofTerm (trim t)).mentioned

section Names
variable {s u v rest : Text} {op : BinaryOp}

theorem written_of_split (h : split? s = some ⟨op, u, v⟩) : written s = written u ++ written v := by
  rw [written, leaves_of_split h, List.flatMap_append, written, written]

theorem mentioned_of_split (h : split? s = some ⟨op, u, v⟩) :
    mentioned s = mentioned u ++ mentioned v := by
  rw [mentioned, leaves_of_split h, List.flatMap_append, mentioned, mentioned]

theorem written_of_negated (hs : split? s = none)
    (ho : Operand.ofTerm (trim s) = .negated rest) : written s = written rest := by
  rw [written, leaves_of_negated hs ho, written]

theorem mentioned_of_negated (hs : split? s = none)
    (ho : Operand.ofTerm (trim s) = .negated rest) : mentioned s = mentioned rest := by
  rw [mentioned, leaves_of_negated hs ho, mentioned]

theorem written_leaf (hs : split? s = none) (ho : ∀ rest, Operand.ofTerm (trim s) ≠ .negated rest) :
    written s = (Operand.ofTerm (trim s)).written := by
  rw [written, leaves_eq_singleton hs ho, List.flatMap_singleton]

theorem mentioned_leaf (hs : split? s = none)
    (ho : ∀ rest, Operand.ofTerm (trim s) ≠ .negated rest) :
    mentioned s = (Operand.ofTerm (trim s)).mentioned := by
  rw [mentioned, leaves_eq_singleton hs ho, List.flatMap_singleton]

end Names

variable {α β γ : Type}

/-- Variables with the same value, or both with none, for each of the given names. -/
def AgreeOn (names : List Text) (u v : Variables α) : Prop := ∀ x ∈ names, u.get? x = v.get? x

theorem AgreeOn.mono {names fewer : List Text} {u v : Variables α} (h : AgreeOn names u v)
    (hsub : fewer ⊆ names) : AgreeOn fewer u v := fun x hx => h x (hsub hx)

/-- A computation that depends on the variables of certain names only, and changes certain others
or the same only. -/
structure Confined (reads writes : List Text) (m : Evaluation α β) : Prop where
  same : ∀ {u v : Variables α}, AgreeOn reads u v → (m.run.run u).1 = (m.run.run v).1
  stays : ∀ {u v : Variables α} {x : Text}, AgreeOn reads u v → u.get? x = v.get? x →
    (m.run.run u).2.get? x = (m.run.run v).2.get? x
  frame : ∀ (u : Variables α) {x : Text}, x ∉ writes → (m.run.run u).2.get? x = u.get? x

namespace Confined

variable {reads writes reads' writes' : List Text} {m : Evaluation α β}

theorem agreeOn {names : List Text} {u v : Variables α} (h : Confined reads writes m)
    (hr : AgreeOn reads u v) (hn : AgreeOn names u v) :
    AgreeOn names (m.run.run u).2 (m.run.run v).2 := fun x hx => h.stays hr (hn x hx)

theorem mono (h : Confined reads writes m) (hr : reads ⊆ reads') (hw : writes ⊆ writes') :
    Confined reads' writes' m where
  same ha := h.same (ha.mono hr)
  stays ha hx := h.stays (ha.mono hr) hx
  frame u _ hx := h.frame u fun hmem => hx (hw hmem)

theorem pure (b : β) : Confined (α := α) reads writes (Pure.pure b) where
  same _ := rfl
  stays _ hx := hx
  frame _ _ _ := rfl

theorem throw (e : Failure) :
    Confined reads writes (MonadExcept.throw e : Evaluation α β) where
  same _ := rfl
  stays _ hx := hx
  frame _ _ _ := rfl

theorem bind {f : β → Evaluation α γ} (hm : Confined reads writes m)
    (hf : ∀ b, Confined reads writes (f b)) : Confined reads writes (m >>= f) where
  same {u v} ha := by
    have hsame := hm.same ha
    have hafter := hm.agreeOn ha ha
    rw [run_bind, run_bind]
    rcases hu : m.run.run u with ⟨e | b, u'⟩ <;> rcases hv : m.run.run v with ⟨e' | b', v'⟩ <;>
      rw [hu, hv] at hsame hafter <;> cases hsame
    · rfl
    · exact (hf b).same hafter
  stays {u v x} ha hx := by
    have hsame := hm.same ha
    have hafter := hm.agreeOn ha ha
    have hstay := hm.stays ha hx
    rw [run_bind, run_bind]
    rcases hu : m.run.run u with ⟨e | b, u'⟩ <;> rcases hv : m.run.run v with ⟨e' | b', v'⟩ <;>
      rw [hu, hv] at hsame hafter hstay <;> cases hsame
    · exact hstay
    · exact (hf b).stays hafter hstay
  frame u x hx := by
    have hframe := hm.frame u hx
    rw [run_bind]
    rcases hu : m.run.run u with ⟨e | b, u'⟩ <;> rw [hu] at hframe
    · exact hframe
    · exact ((hf b).frame u' hx).trans hframe

theorem inOrder [Arithmetic α] {x y : Evaluation α α} (op : BinaryOp)
    (hx : Confined reads writes x) (hy : Confined reads writes y) :
    Confined reads writes (op.inOrder x y) :=
  hx.bind fun _ => hy.bind fun _ => pure _

end Confined

variable [Arithmetic α]

theorem confined_lookUp (term e : Text) : Confined (α := α) [term] [] (lookUp term e) where
  same {u v} ha := by
    rw [run_lookUp, run_lookUp, ha term List.mem_cons_self]
    cases v.get? term with
    | some value => rfl
    | none => rw [run_numberOf, run_numberOf]
  stays {u v x} ha hx := by
    rw [run_lookUp, run_lookUp, ha term List.mem_cons_self]
    cases v.get? term with
    | some value => exact hx
    | none =>
      rw [run_numberOf, run_numberOf]
      exact hx
  frame u x _ := by
    rw [run_lookUp]
    cases u.get? term with
    | some value => rfl
    | none => rw [run_numberOf]

theorem confined_takeStep (step : Step) (name term : Text) :
    Confined (α := α) [trim name] [trim name] (takeStep step name term) where
  same {u v} ha := by
    rw [run_takeStep, run_takeStep, ha (trim name) List.mem_cons_self]
    cases v.get? (trim name) <;> rfl
  stays {u v x} ha hx := by
    rw [run_takeStep, run_takeStep, ha (trim name) List.mem_cons_self]
    cases v.get? (trim name) with
    | none => exact hx
    | some old => simp only [Variables.get?_insert, hx]
  frame u x hx := by
    rw [run_takeStep]
    cases u.get? (trim name) with
    | none => rfl
    | some old => exact Variables.get?_insert_of_ne _ fun h => hx (h ▸ List.mem_cons_self)

/-- An evaluation depends on the variables that its text mentions only, and changes those that the
steps of the text write only. -/
theorem confined_evaluateWithin (depth : Nat) (s : Text) :
    Confined (α := α) (mentioned s) (written s) (evaluateWithin depth s) := by
  refine evaluateWithin_induction (P := fun s m => Confined (mentioned s) (written s) m)
    (fun s => Confined.throw _) ?plain ?stepped ?negated ?binary depth s
  case plain =>
    intro s hs ho
    have hn : ∀ rest, Operand.ofTerm (trim s) ≠ .negated rest := fun rest h => by
      rw [ho] at h
      cases h
    rw [mentioned_leaf hs hn, written_leaf hs hn, ho]
    exact confined_lookUp _ _
  case stepped =>
    intro s name step hs ho
    have hn : ∀ rest, Operand.ofTerm (trim s) ≠ .negated rest := fun rest h => by
      rw [ho] at h
      cases h
    rw [mentioned_leaf hs hn, written_leaf hs hn, ho]
    exact confined_takeStep _ _ _
  case negated =>
    intro s rest x hs ho hx
    rw [mentioned_of_negated hs ho, written_of_negated hs ho]
    exact hx.bind fun _ => Confined.pure _
  case binary =>
    intro s u v op x y hs hx hy
    rw [mentioned_of_split hs, written_of_split hs]
    exact (hx.mono (List.subset_append_left _ _) (List.subset_append_left _ _)).inOrder op
      (hy.mono (List.subset_append_right _ _) (List.subset_append_right _ _))

theorem evaluate_agree {s : Text} {u v : Variables α} (depth : Nat)
    (h : AgreeOn (mentioned s) u v) :
    (evaluate s u depth).1 = (evaluate s v depth).1 ∧ ∀ x, u.get? x = v.get? x →
      (evaluate s u depth).2.get? x = (evaluate s v depth).2.get? x :=
  ⟨(confined_evaluateWithin depth s).same h, fun _ hx =>
    (confined_evaluateWithin depth s).stays h hx⟩

theorem evaluate_frame (s : Text) (u : Variables α) (depth : Nat) {x : Text}
    (h : x ∉ written s) : (evaluate s u depth).2.get? x = u.get? x :=
  (confined_evaluateWithin depth s).frame u h

section OperandNames

/-- What a term can name: what it is itself, and what it is without a mark at one of its ends. -/
def nameTexts (term : Text) : List Text :=
  term :: [Direction.up, Direction.down].flatMap fun d =>
    ((d.mark.isPrefixOf? term).toList ++ (d.mark.isSuffixOf? term).toList).map trim

/-- The names that the operand texts of a text can be, with a mark or without it. -/
def operandNames (s : Text) : List Text := (leaves s).flatMap fun t => nameTexts (trim t)

theorem trim_mem_nameTexts (step : Step) (name : Text) :
    trim name ∈ nameTexts (step.text name) := by
  obtain ⟨d, yieldsNew⟩ := step
  have hd : d ∈ [Direction.up, Direction.down] := by cases d <;> decide
  refine List.mem_cons_of_mem _ (List.mem_flatMap.mpr ⟨d, hd, List.mem_map_of_mem ?_⟩)
  rw [List.mem_append, Option.mem_toList, Option.mem_toList,
    List.isPrefixOf?_eq_some_iff_append_eq, List.isSuffixOf?_eq_some_iff_append_eq]
  cases yieldsNew with
  | true => exact Or.inl rfl
  | false => exact Or.inr rfl

theorem Operand.written_subset_mentioned (o : Operand) : o.written ⊆ o.mentioned := by
  cases o with
  | negated rest => exact List.Subset.refl _
  | stepped step name => exact List.Subset.refl _
  | plain text => exact List.nil_subset _

theorem mentioned_subset_nameTexts (term : Text) :
    (Operand.ofTerm term).mentioned ⊆ nameTexts term := by
  intro x hx
  cases ho : Operand.ofTerm term with
  | negated rest =>
    rw [ho] at hx
    cases hx
  | stepped step name =>
    rw [ho] at hx
    rw [List.mem_singleton.mp hx, ← eq_of_ofTerm_stepped ho]
    exact trim_mem_nameTexts step name
  | plain text =>
    rw [ho] at hx
    rw [List.mem_singleton.mp hx, eq_of_ofTerm_plain ho]
    exact List.mem_cons_self

theorem written_subset_mentioned (s : Text) : written s ⊆ mentioned s := by
  intro x hx
  obtain ⟨t, ht, hmem⟩ := List.mem_flatMap.mp hx
  exact List.mem_flatMap.mpr ⟨t, ht, Operand.written_subset_mentioned _ hmem⟩

theorem mentioned_subset_operandNames (s : Text) : mentioned s ⊆ operandNames s := by
  intro x hx
  obtain ⟨t, ht, hmem⟩ := List.mem_flatMap.mp hx
  exact List.mem_flatMap.mpr ⟨t, ht, mentioned_subset_nameTexts _ hmem⟩

end OperandNames

/-- Evaluation sees only what it mentions. Over variables that agree on the names that the operand
texts of a text can be, it has the same value or the same failure, and afterwards the variables
still agree on those names; all others stay as they were. -/
theorem evaluate_operandNames {s : Text} {u v : Variables α} (h : AgreeOn (operandNames s) u v)
    (depth : Nat) :
    (evaluate s u depth).1 = (evaluate s v depth).1 ∧
      AgreeOn (operandNames s) (evaluate s u depth).2 (evaluate s v depth).2 ∧
      ∀ x, x ∉ operandNames s →
        (evaluate s u depth).2.get? x = u.get? x ∧ (evaluate s v depth).2.get? x = v.get? x := by
  obtain ⟨houtcome, hstays⟩ := evaluate_agree depth (h.mono (mentioned_subset_operandNames s))
  have hwritten : written s ⊆ operandNames s :=
    List.Subset.trans (written_subset_mentioned s) (mentioned_subset_operandNames s)
  refine ⟨houtcome, fun x hx => hstays x (h x hx), fun x hx => ?_⟩
  exact ⟨evaluate_frame s u depth fun hmem => hx (hwritten hmem),
    evaluate_frame s v depth fun hmem => hx (hwritten hmem)⟩

/-- A text that makes two steps and then misses a name, over variables that differ elsewhere. -/
theorem evaluate_operandNames_failing_steps :
    let s := "a++ * - --b + c++ / 2".toList
    let u := (Variables.ofList [(['a'], 1), (['b'], 2), (['x'], 3)] : Variables Float)
    let v := (Variables.ofList [(['a'], 1), (['b'], 2), (['x'], 4), (['y'], 5)] : Variables Float)
    AgreeOn (operandNames s) u v ∧
      (evaluate s u).1 = .error (.unknownVariable ['c'] "c++".toList) ∧
      (evaluate s v).1 = .error (.unknownVariable ['c'] "c++".toList) ∧
      (evaluate s u).2.get? ['b'] = some 1 ∧ (evaluate s v).2.get? ['b'] = some 1 ∧
      (evaluate s u).2.get? ['x'] = some 3 ∧ (evaluate s v).2.get? ['y'] = some 5 := by
  intro s u v
  have hagree : AgreeOn (operandNames s) u v := by
    unfold AgreeOn
    decide +kernel
  obtain ⟨houtcome, hafter, hframe⟩ := evaluate_operandNames hagree maxDepth
  have hu : (evaluate s u).1 = .error (.unknownVariable ['c'] "c++".toList) := by decide +kernel
  have hb : (evaluate s u).2.get? ['b'] = some 1 := by decide +kernel
  have hx : ['x'] ∉ operandNames s := by decide +kernel
  have hy : ['y'] ∉ operandNames s := by decide +kernel
  have hbv : (evaluate s v).2.get? ['b'] = some 1 :=
    (hafter ['b'] (by decide +kernel)).symm.trans hb
  exact ⟨hagree, hu, houtcome ▸ hu, hb, hbv, (hframe _ hx).1.trans (by decide +kernel),
    (hframe _ hy).2.trans (by decide +kernel)⟩

end Worksheet.Expression
