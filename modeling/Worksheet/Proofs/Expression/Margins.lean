import Worksheet.Proofs.Expression.Leaf
import Worksheet.Proofs.Expression.Splits

/-! # Margins

White space at the two ends of a text belongs to the outer halves of its splits and to nothing else.
So an expression has the same value and makes the same steps whatever stands at its ends, and if it
fails it fails with the same message: a message trims the text that it quotes.
-/
namespace Worksheet
open Text

theorem BinaryOp.allows_filter (op : BinaryOp) (before after : Option Char) :
    op.allows (before.filter (!isSpace ·)) (after.filter (!isSpace ·)) =
      op.allows before after := by
  rw [Bool.eq_iff_iff, allows_iff, allows_iff]
  simp only [Option.mem_def, Option.filter_eq_some_iff, Bool.not_eq_true', and_imp]
  constructor
  · rintro ⟨hb, ha⟩
    refine ⟨fun c hc => ?_, fun c hc => ?_⟩
    · cases hs : isSpace c with
      | true => exact Expression.not_fuses_of_isSpace_left hs
      | false => exact hb c hc hs
    · cases hs : isSpace c with
      | true =>
        exact ⟨Expression.not_fuses_of_isSpace_right hs, fun _ =>
          Expression.ne_equals_of_isSpace hs⟩
      | false => exact ha c hc hs
  · rintro ⟨hb, ha⟩
    exact ⟨fun c hc _ => hb c hc, fun c hc _ => ha c hc⟩

namespace Expression
open Series

section Cut
variable {op : BinaryOp} {b b' : Text}

theorem head?_append_blank (s : Text) (hb : isBlank b = true) :
    (s ++ b).head?.filter (!isSpace ·) = s.head?.filter (!isSpace ·) := by
  cases s with
  | cons c s => rfl
  | nil =>
    cases b with
    | nil => rfl
    | cons c b => simp [isSpace_of_mem hb List.mem_cons_self]

theorem occursAt_append_blank (before s : Text) (c : Char) (hb : isBlank b = true)
    (hb' : isBlank b' = true) :
    op.occursAt (before ++ b).head? c (s ++ b').head? = op.occursAt before.head? c s.head? := by
  unfold BinaryOp.occursAt
  rw [← op.allows_filter (before ++ b).head?, head?_append_blank before hb,
    head?_append_blank s hb', op.allows_filter]

theorem occursAt_of_isSpace {c : Char} (hc : isSpace c = true) (before after : Option Char) :
    op.occursAt before c after = false := by
  simp [BinaryOp.occursAt, ne_char_of_isSpace hc op]

theorem endsOperand_append_blank (before : Text) (hb : isBlank b = true) :
    endsOperand (before ++ b) = endsOperand before := by
  have hends : ∀ s : Text, endsOperand s = !isBlank (last (chunks s.reverse)) := fun s => by
    rw [← endsOperand_eq, List.reverse_reverse]
  rw [hends, hends, List.reverse_append]
  have hq := chunks_append_of_quiet (quiet_of_isBlank (b := b.reverse) (by simpa using hb))
    (apart_of_isBlank_left (by simpa using hb) before.reverse)
  rw [hq]
  cases h : (chunks before.reverse).2 with
  | nil => simp [Series.last, h, hb]
  | cons e later => simp [Series.last, h, List.getLast?_cons]

theorem cutFirst_blank (before : Text) (hb : isBlank b = true) : cutFirst op before b = none := by
  induction b generalizing before with
  | nil => rfl
  | cons c b ih =>
    obtain ⟨hc, hb⟩ := Bool.and_eq_true_iff.mp hb
    rw [cutFirst, occursAt_of_isSpace hc, if_neg Bool.false_ne_true, ih _ hb]

theorem cutFirst_blank_append (before : Text) (hb : isBlank b = true) (s : Text) :
    cutFirst op before (b ++ s) = cutFirst op (b.reverse ++ before) s := by
  induction b generalizing before with
  | nil => rfl
  | cons c b ih =>
    obtain ⟨hc, hb⟩ := Bool.and_eq_true_iff.mp hb
    rw [List.cons_append, cutFirst, occursAt_of_isSpace hc, if_neg Bool.false_ne_true, ih _ hb]
    simp

theorem cutFirst_append_blank (before s : Text) (hb : isBlank b = true) (hb' : isBlank b' = true) :
    cutFirst op (before ++ b) (s ++ b') =
      (cutFirst op before s).map fun h => (b.reverse ++ h.1, h.2 ++ b') := by
  induction s generalizing before with
  | nil =>
    rw [List.nil_append, cutFirst_blank _ hb']
    rfl
  | cons c s ih =>
    rw [List.cons_append, cutFirst, cutFirst, occursAt_append_blank before s c hb hb']
    split
    · rw [isBlank_append, isBlank_append, hb, hb', Bool.and_true, Bool.and_true]
      split
      · rfl
      · simp
    · exact ih (c :: before)

theorem cutLast_blank (after : Text) (hb : isBlank b = true) : cutLast op b after = none := by
  induction b generalizing after with
  | nil => rfl
  | cons c b ih =>
    obtain ⟨hc, hb⟩ := Bool.and_eq_true_iff.mp hb
    rw [cutLast, occursAt_of_isSpace hc, if_neg Bool.false_ne_true, ih _ hb]

theorem cutLast_blank_append (before : Text) (hb : isBlank b = true) (after : Text) :
    cutLast op (b ++ before) after = cutLast op before (b.reverse ++ after) := by
  induction b generalizing after with
  | nil => rfl
  | cons c b ih =>
    obtain ⟨hc, hb⟩ := Bool.and_eq_true_iff.mp hb
    rw [List.cons_append, cutLast, occursAt_of_isSpace hc, if_neg Bool.false_ne_true, ih hb _]
    simp

theorem cutLast_append_blank (before after : Text) (hb : isBlank b = true)
    (hb' : isBlank b' = true) :
    cutLast op (before ++ b) (after ++ b') =
      (cutLast op before after).map fun h => (b.reverse ++ h.1, h.2 ++ b') := by
  induction before generalizing after with
  | nil =>
    rw [List.nil_append, cutLast_blank _ hb]
    rfl
  | cons c before ih =>
    have hrec := ih (c :: after)
    rw [List.cons_append, cutLast, cutLast, occursAt_append_blank before after c hb hb',
      isBlank_append, hb', Bool.and_true, endsOperand_append_blank before hb, ← List.cons_append,
      hrec]
    split
    · split
      · rfl
      · split
        · simp
        · rfl
    · rfl

/-- White space at the ends of a text goes to the outer ends of the halves. -/
theorem splitAt_append_blank (hb : isBlank b = true) (s : Text) (hb' : isBlank b' = true) :
    splitAt op (b ++ s ++ b') = (splitAt op s).map fun h => (b ++ h.1, h.2 ++ b') := by
  rw [splitAt, splitAt]
  cases op.grouping with
  | fromRight =>
    have h : cutFirst op ([] ++ b.reverse) (s ++ b') =
        (cutFirst op [] s).map fun h => (b.reverse.reverse ++ h.1, h.2 ++ b') :=
      cutFirst_append_blank [] s (by simpa using hb) hb'
    have hshift : cutFirst op [] (b ++ (s ++ b')) = cutFirst op (b.reverse ++ []) (s ++ b') :=
      cutFirst_blank_append [] hb (s ++ b')
    simp only [List.nil_append, List.append_nil, List.reverse_reverse] at h hshift
    simp only [splitFirst, List.append_assoc, hshift, h]
  | fromLeft =>
    have h : cutLast op (s.reverse ++ b.reverse) ([] ++ b') =
        (cutLast op s.reverse []).map fun h => (b.reverse.reverse ++ h.1, h.2 ++ b') :=
      cutLast_append_blank s.reverse [] (by simpa using hb) hb'
    have hshift : cutLast op (b'.reverse ++ (s.reverse ++ b.reverse)) [] =
        cutLast op (s.reverse ++ b.reverse) (b'.reverse.reverse ++ []) :=
      cutLast_blank_append (s.reverse ++ b.reverse) (by simpa using hb') []
    simp only [List.nil_append, List.append_nil, List.reverse_reverse] at h hshift
    simp only [splitLast, List.reverse_append, List.append_assoc, hshift, h]

theorem split?_append_blank (hb : isBlank b = true) (s : Text) (hb' : isBlank b' = true) :
    split? (b ++ s ++ b') = (split? s).map fun p => ⟨p.op, b ++ p.left, p.right ++ b'⟩ := by
  unfold split?
  induction BinaryOp.all with
  | nil => rfl
  | cons op ops ih =>
    rw [List.findSome?_cons, List.findSome?_cons, splitAt_append_blank hb s hb', ih]
    cases splitAt op s <;> rfl

end Cut

section Halves
variable {s t u v : Text} {op : BinaryOp}

theorem split?_trim_eq_none (h : trim s = trim t) (hs : split? s = none) : split? t = none := by
  obtain ⟨b, b', hb, hb', hts⟩ := exists_trim s
  obtain ⟨d, d', hd, hd', htt⟩ := exists_trim t
  rw [hts, split?_append_blank hb _ hb', Option.map_eq_none_iff] at hs
  rw [htt, split?_append_blank hd _ hd', ← h, hs]
  rfl

/-- Texts with the same trimmed form are split at the same place. -/
theorem exists_split_of_trim_eq (h : trim s = trim t) (hs : split? s = some ⟨op, u, v⟩) :
    ∃ u' v', split? t = some ⟨op, u', v'⟩ ∧ trim u = trim u' ∧ trim v = trim v' := by
  obtain ⟨b, b', hb, hb', hts⟩ := exists_trim s
  obtain ⟨d, d', hd, hd', htt⟩ := exists_trim t
  rw [hts, split?_append_blank hb _ hb'] at hs
  obtain ⟨p, hp, heq⟩ := Option.map_eq_some_iff.mp hs
  obtain ⟨rfl, rfl, rfl⟩ := Split.mk.inj heq
  refine ⟨d ++ p.left, p.right ++ d', ?_, ?_, ?_⟩
  · rw [htt, split?_append_blank hd _ hd', ← h, hp]
    rfl
  · rw [trim_append_left hb, trim_append_left hd]
  · rw [trim_append_right _ hb', trim_append_right _ hd']

end Halves

def Failure.trimmed : Failure → Failure
  | unknownVariable name expression => unknownVariable name (trim expression)
  | notANumber text => notANumber (trim text)
  | tooDeep => tooDeep

section Indistinct

variable {α β γ : Type}

/-- What a computation comes to, up to white space around what its failure quotes. -/
def told (outcome : Except Failure β × Variables α) : Except Failure β × Variables α :=
  (outcome.1.mapError Failure.trimmed, outcome.2)

theorem eq_of_told_eq_ok {o : Except Failure β × Variables α} {value : β} {after : Variables α}
    (h : told o = (.ok value, after)) : o = (.ok value, after) := by
  rcases o with ⟨failure | v, vars⟩
  · cases h
  · exact h

theorem exists_of_told_eq_error {o : Except Failure β × Variables α} {failure : Failure}
    {after : Variables α} (h : told o = (.error failure, after)) :
    ∃ f, o = (.error f, after) ∧ f.trimmed = failure := by
  rcases o with ⟨f | value, vars⟩
  · obtain ⟨hf, rfl⟩ := Prod.mk.inj h
    exact ⟨f, rfl, Except.error.inj hf⟩
  · cases h

theorem told_eq_tooDeep {o : Except Failure β × Variables α} :
    (told o).1 = .error .tooDeep ↔ o.1 = .error .tooDeep := by
  rcases o with ⟨failure | v, vars⟩
  · cases failure <;> simp [told, Except.mapError, Failure.trimmed]
  · exact ⟨nofun, nofun⟩

theorem told_map (f : β → γ) (o : Except Failure β × Variables α) :
    told (Prod.map (Except.map f) id o) = Prod.map (Except.map f) id (told o) := by
  rcases o with ⟨failure | v, vars⟩ <;> rfl

theorem map_eq_error (f : β → γ) {o : Except Failure β × Variables α} {failure : Failure} :
    (Prod.map (Except.map f) id o).1 = .error failure ↔ o.1 = .error failure := by
  rcases o with ⟨e | v, vars⟩
  · exact ⟨fun h => congrArg Except.error (Except.error.inj h),
      fun h => congrArg Except.error (Except.error.inj h)⟩
  · exact ⟨nofun, nofun⟩

/-- Computations with the same values, the same messages and the same variables afterwards. -/
def Indistinct (m m' : Evaluation α β) : Prop :=
  ∀ vars, told (m.run.run vars) = told (m'.run.run vars)

namespace Indistinct

variable {m m' : Evaluation α β}

theorem refl (m : Evaluation α β) : Indistinct m m := fun _ => rfl

theorem symm (h : Indistinct m m') : Indistinct m' m := fun vars => (h vars).symm

theorem bind {f f' : β → Evaluation α γ} (hm : Indistinct m m')
    (hf : ∀ b, Indistinct (f b) (f' b)) : Indistinct (m >>= f) (m' >>= f') := by
  intro vars
  have h := hm vars
  rw [run_bind, run_bind]
  rcases hr : m.run.run vars with ⟨e | b, after⟩ <;>
    rcases hr' : m'.run.run vars with ⟨e' | b', after'⟩ <;>
    rw [hr, hr'] at h <;>
    simp only [told, Except.mapError, Prod.mk.injEq, Except.error.injEq, Except.ok.injEq,
      reduceCtorEq, false_and] at h <;>
    obtain ⟨he, rfl⟩ := h
  · simp [told, Except.mapError, he]
  · rw [he]
    exact hf b' after

theorem inOrder [Arithmetic α] {x x' y y' : Evaluation α α} (op : BinaryOp)
    (hx : Indistinct x x') (hy : Indistinct y y') :
    Indistinct (op.inOrder x y) (op.inOrder x' y') :=
  hx.bind fun _ => hy.bind fun _ => refl _

end Indistinct

variable [Arithmetic α]

theorem indistinct_lookUp (term : Text) {e e' : Text} (h : trim e = trim e') :
    Indistinct (α := α) (lookUp term e) (lookUp term e') := by
  intro vars
  rw [run_lookUp, run_lookUp]
  cases vars.get? term with
  | some value => rfl
  | none =>
    simp only [run_numberOf]
    split
    · simp [told, Except.mapError, Failure.trimmed, h]
    · rfl

theorem indistinct_chainValue (op : BinaryOp) {value : Text → Evaluation α α}
    (hvalue : ∀ {s t : Text}, trim s = trim t → Indistinct (value s) (value t)) {s t : Text}
    (h : trim s = trim t) :
    Indistinct (chainValue op (operands op s) value) (chainValue op (operands op t) value) := by
  induction hn : s.length using Nat.strongRecOn generalizing s t with
  | _ n ih =>
    by_cases hsplit : ∃ u v, split? s = some ⟨op, u, v⟩
    · obtain ⟨u, v, hs⟩ := hsplit
      obtain ⟨u', v', ht, hu, hv⟩ := exists_split_of_trim_eq h hs
      obtain ⟨hul, hvl⟩ := length_lt_of_split? hs
      rw [hn] at hul hvl
      cases hg : op.grouping with
      | fromRight =>
        rw [chainValue_fromRight value hs hg, chainValue_fromRight value ht hg]
        exact (hvalue hu).inOrder op (ih v.length hvl hv rfl)
      | fromLeft =>
        rw [chainValue_fromLeft value hs hg, chainValue_fromLeft value ht hg]
        exact (ih u.length hul hu rfl).inOrder op (hvalue hv)
    · have hself : ∀ {s t : Text}, trim s = trim t → (¬ ∃ u v, split? s = some ⟨op, u, v⟩) →
          ∀ p, split? t = some p → p.op ≠ op := by
        rintro s t h hn p hp rfl
        obtain ⟨u', v', hs, -⟩ := exists_split_of_trim_eq h.symm hp
        exact hn ⟨u', v', hs⟩
      rw [chainValue_self value (hself rfl hsplit), chainValue_self value (hself h hsplit)]
      exact hvalue h

/-- Texts with the same trimmed form are evaluated alike. -/
theorem indistinct_evaluateWithin (depth : Nat) {s t : Text} (h : trim s = trim t) :
    Indistinct (α := α) (evaluateWithin depth s) (evaluateWithin depth t) := by
  induction depth using Nat.strongRecOn generalizing s t with
  | _ depth ih =>
    cases depth with
    | zero => exact Indistinct.refl _
    | succ depth =>
      cases hs : split? s with
      | none =>
        rw [evaluateWithin_leaf hs, evaluateWithin_leaf (split?_trim_eq_none h hs), ← h]
        cases Operand.ofTerm (trim s) with
        | negated rest => exact Indistinct.refl _
        | stepped step name => exact Indistinct.refl _
        | plain text => exact indistinct_lookUp text h
      | some p =>
        obtain ⟨u', v', ht, -, -⟩ := exists_split_of_trim_eq h hs
        rw [evaluateWithin, evaluateWithin, hs, ht]
        cases depth with
        | zero => exact Indistinct.refl _
        | succ inner => exact indistinct_chainValue p.op (fun h => ih inner (by omega) h) h

theorem told_evaluate {s t : Text} (h : trim s = trim t) (vars : Variables α) {depth : Nat} :
    told (evaluate s vars depth) = told (evaluate t vars depth) :=
  indistinct_evaluateWithin depth h vars

theorem evaluate_eq_ok_iff {s t : Text} (h : trim s = trim t) {vars after : Variables α} {value : α}
    {depth : Nat} :
    evaluate s vars depth = (.ok value, after) ↔ evaluate t vars depth = (.ok value, after) :=
  have htold := told_evaluate h vars
  ⟨fun hs => eq_of_told_eq_ok (htold.symm.trans (congrArg told hs)),
    fun ht => eq_of_told_eq_ok (htold.trans (congrArg told ht))⟩

end Indistinct

end Expression
end Worksheet
