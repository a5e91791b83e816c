import Worksheet.Proofs.Expression.Tree

/-! # Outcomes

The evaluation of a text and the meaning of a tree have the same outcome when they give the same
number or miss the same name, and leave the same variables behind.
-/
namespace Worksheet.Expression
open Text Series

variable {α β γ : Type}

/-- Where `deep` holds, an evaluation may also give up because of its depth. -/
inductive SameOutcome (deep : Prop) :
    Except Failure β × Variables α → Except Name β × Variables α → Prop
  | value (b : β) (after : Variables α) : SameOutcome deep (.ok b, after) (.ok b, after)
  | unknown (x : Name) (expression : Text) (after : Variables α) :
      SameOutcome deep (.error (.unknownVariable x.1 expression), after) (.error x, after)
  | tooDeep (h : deep) (after : Variables α) (outcome : Except Name β × Variables α) :
      SameOutcome deep (.error .tooDeep, after) outcome

/-- An evaluation has the outcome of a meaning over all variables. -/
def Matches (deep : Prop) (m : Evaluation α β) (d : Meaning α β) : Prop :=
  ∀ vars, SameOutcome deep (m.run.run vars) (d.run.run vars)

theorem run_bind {ε σ : Type} (m : ExceptT ε (StateM σ) β) (f : β → ExceptT ε (StateM σ) γ)
    (s : σ) : (m >>= f).run.run s = match m.run.run s with
      | (.ok b, s) => (f b).run.run s
      | (.error e, s) => (.error e, s) := by
  change (match m.run.run s with | (result, s) => ExceptT.bindCont f result s) = _
  rcases m.run.run s with ⟨e | b, s⟩ <;> rfl

theorem bind_eq_error {ε σ : Type} {m : ExceptT ε (StateM σ) β} {f : β → ExceptT ε (StateM σ) γ}
    {s : σ} {e : ε} : ((m >>= f).run.run s).1 = .error e ↔
      (m.run.run s).1 = .error e ∨
        ∃ b t, m.run.run s = (.ok b, t) ∧ ((f b).run.run t).1 = .error e := by
  rw [run_bind]
  rcases m.run.run s with ⟨d | b, t⟩
  · constructor
    · exact fun h => Or.inl (congrArg Except.error (Except.error.inj h))
    · rintro (h | ⟨_, _, hb, -⟩)
      · exact congrArg Except.error (Except.error.inj h)
      · cases hb
  · constructor
    · exact fun h => Or.inr ⟨b, t, rfl, h⟩
    · rintro (h | ⟨_, _, hb, h⟩)
      · cases h
      · cases hb
        exact h

theorem bind_pure_eq_error {ε σ : Type} {m : ExceptT ε (StateM σ) β} {f : β → γ} {s : σ} {e : ε} :
    ((m >>= fun b => pure (f b)).run.run s).1 = .error e ↔ (m.run.run s).1 = .error e := by
  rw [bind_eq_error]
  refine or_iff_left ?_
  rintro ⟨b, t, -, h⟩
  cases h

theorem run_get {ε σ : Type} (f : σ → ExceptT ε (StateM σ) γ) (s : σ) :
    (get >>= f).run.run s = (f s).run.run s := rfl

theorem run_inOrder [Arithmetic α] (op : BinaryOp) (x y : Evaluation α α) (vars : Variables α) :
    (op.inOrder x y).run.run vars = match x.run.run vars with
      | (.ok a, mid) => Prod.map (Except.map (op.apply a)) id (y.run.run mid)
      | (.error e, mid) => (.error e, mid) := by
  rw [BinaryOp.inOrder, run_bind]
  rcases x.run.run vars with ⟨e | a, mid⟩
  · rfl
  · simp only [run_bind]
    rcases y.run.run mid with ⟨e | b, after⟩ <;> rfl

namespace Matches

variable {deep : Prop} {m : Evaluation α β} {d : Meaning α β}

theorem mono {deeper : Prop} (h : Matches deep m d) (himp : deep → deeper) :
    Matches deeper m d := by
  intro vars
  have ho := h vars
  generalize m.run.run vars = o at ho ⊢
  generalize d.run.run vars = o' at ho ⊢
  cases ho with
  | value b after => exact .value b after
  | unknown x e after => exact .unknown x e after
  | tooDeep hd after => exact .tooDeep (himp hd) after _

theorem pure (b : β) : Matches (α := α) deep (Pure.pure b) (Pure.pure b) :=
  fun vars => .value b vars

theorem bind {f : β → Evaluation α γ} {g : β → Meaning α γ} (hm : Matches deep m d)
    (hf : ∀ b, Matches deep (f b) (g b)) : Matches deep (m >>= f) (d >>= g) := by
  intro vars
  have ho := hm vars
  rw [run_bind, run_bind]
  generalize m.run.run vars = o at ho
  generalize d.run.run vars = o' at ho
  cases ho with
  | value b after => exact hf b after
  | unknown x e after => exact .unknown x e after
  | tooDeep hd after => exact .tooDeep hd after _

theorem of_tooDeep (h : deep) (d : Meaning α β) : Matches deep (throw .tooDeep) d :=
  fun vars => .tooDeep h vars _

theorem inOrder [Arithmetic α] {x y : Evaluation α α} {x' y' : Meaning α α} (op : BinaryOp)
    (hx : Matches deep x x') (hy : Matches deep y y') :
    Matches deep (op.inOrder x y) (op.inOrder x' y') :=
  hx.bind fun a => hy.bind fun b => pure (op.apply a b)

end Matches

end Worksheet.Expression
