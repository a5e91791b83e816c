import Worksheet.Proofs.Expression.Leaf

/-! # More depth

A computation with more levels does what one with fewer levels does, unless that one gives up. So an
expression that does not need all levels is evaluated alike as a whole and as the last operand of
a chain.
-/
namespace Worksheet.Expression
open Text

variable {α β γ : Type}

/-- The second computation does what the first one does, unless that gives up. -/
def Extends (m m' : Evaluation α β) : Prop :=
  ∀ vars, (m.run.run vars).1 ≠ .error .tooDeep → m'.run.run vars = m.run.run vars

namespace Extends

variable {m m' m'' : Evaluation α β}

theorem refl (m : Evaluation α β) : Extends m m := fun _ _ => rfl

theorem trans (h : Extends m m') (h' : Extends m' m'') : Extends m m'' := by
  intro vars hv
  have hm := h vars hv
  rw [h' vars (by rwa [hm]), hm]

theorem throw (m : Evaluation α β) : Extends (MonadExcept.throw .tooDeep) m :=
  fun _ hv => absurd rfl hv

theorem bind {f f' : β → Evaluation α γ} (h : Extends m m') (hf : ∀ b, Extends (f b) (f' b)) :
    Extends (m >>= f) (m' >>= f') := by
  intro vars hv
  have hm := h vars fun he => hv (bind_eq_error.mpr (Or.inl he))
  rw [run_bind, run_bind, hm]
  rcases hr : m.run.run vars with ⟨e | b, after⟩
  · rfl
  · exact hf b after fun he => hv (bind_eq_error.mpr (Or.inr ⟨b, after, hr, he⟩))

theorem mapM {δ : Type} {f f' : δ → Evaluation α β} (hf : ∀ b, Extends (f b) (f' b))
    (l : List δ) : Extends (l.mapM f) (l.mapM f') := by
  induction l with
  | nil => exact refl _
  | cons b l ih =>
    rw [List.mapM_cons, List.mapM_cons]
    exact (hf b).bind fun _ => ih.bind fun _ => refl _

theorem inOrder [Arithmetic α] {x x' y y' : Evaluation α α} (op : BinaryOp) (hx : Extends x x')
    (hy : Extends y y') : Extends (op.inOrder x y) (op.inOrder x' y') :=
  hx.bind fun _ => hy.bind fun _ => refl _

end Extends

variable [Arithmetic α]

theorem extends_chainValue {value value' : Text → Evaluation α α}
    (h : ∀ s, Extends (value s) (value' s)) (op : BinaryOp) (chain : Operands) :
    Extends (chainValue op chain value) (chainValue op chain value') :=
  (h chain.first).bind fun _ => (Extends.mapM h chain.later).bind fun _ => Extends.refl _

theorem extends_succ (depth : Nat) (s : Text) :
    Extends (evaluateWithin (α := α) depth s) (evaluateWithin (depth + 1) s) := by
  induction depth using Nat.strongRecOn generalizing s with
  | _ depth ih =>
    cases depth with
    | zero => exact Extends.throw _
    | succ depth =>
      cases hs : split? s with
      | none =>
        rw [evaluateWithin_leaf hs, evaluateWithin_leaf hs]
        cases Operand.ofTerm (trim s) with
        | negated rest => exact (ih depth (Nat.lt_succ_self _) rest).bind fun _ => Extends.refl _
        | stepped step name => exact Extends.refl _
        | plain text => exact Extends.refl _
      | some p =>
        rw [evaluateWithin, evaluateWithin, hs]
        cases depth with
        | zero => exact Extends.throw _
        | succ inner => exact extends_chainValue (ih inner (by omega)) p.op _

theorem extends_of_le {depth deeper : Nat} (h : depth ≤ deeper) (s : Text) :
    Extends (evaluateWithin (α := α) depth s) (evaluateWithin deeper s) := by
  induction h with
  | refl => exact Extends.refl _
  | step _ ih => exact ih.trans (extends_succ _ s)

theorem evaluate_of_le {depth deeper : Nat} (h : depth ≤ deeper) {s : Text} {vars : Variables α}
    (hd : (evaluate s vars depth).1 ≠ .error .tooDeep) :
    evaluate s vars deeper = evaluate s vars depth := extends_of_le h s vars hd

/-- The operands of a chain need no more levels than the chain itself. -/
theorem extends_chain (op : BinaryOp) (depth : Nat) (s : Text) :
    Extends (evaluateWithin (α := α) depth s)
      (chainValue op (operands op s) (evaluateWithin depth)) := by
  by_cases hself : ∀ p, split? s = some p → p.op ≠ op
  · rw [chainValue_self _ hself]
    exact Extends.refl _
  · obtain ⟨p, hp, rfl⟩ : ∃ p, split? s = some p ∧ p.op = op := by simpa using hself
    match depth with
    | 0 => exact Extends.throw _
    | 1 =>
      have hd : evaluateWithin (α := α) 1 s = throw .tooDeep := by rw [evaluateWithin, hp]
      rw [hd]
      exact Extends.throw _
    | inner + 2 =>
      have hd : evaluateWithin (α := α) (inner + 2) s =
          chainValue p.op (operands p.op s) (evaluateWithin inner) := by rw [evaluateWithin, hp]
      rw [hd]
      exact extends_chainValue (extends_of_le (by omega)) p.op _

theorem extends_inOrder {op : BinaryOp} {s u v : Text} (hs : split? s = some ⟨op, u, v⟩)
    (depth : Nat) :
    Extends (op.inOrder (evaluateWithin (α := α) depth u) (evaluateWithin depth v))
      (evaluateWithin (depth + 2) s) := by
  have hd : evaluateWithin (α := α) (depth + 2) s =
      chainValue op (operands op s) (evaluateWithin depth) := by rw [evaluateWithin, hs]
  rw [hd]
  cases hg : op.grouping with
  | fromRight =>
    rw [chainValue_fromRight _ hs hg]
    exact (Extends.refl _).inOrder op (extends_chain op depth v)
  | fromLeft =>
    rw [chainValue_fromLeft _ hs hg]
    exact (extends_chain op depth u).inOrder op (Extends.refl _)

/-- A text has the value of its halves, if they do not need all levels. -/
theorem evaluate_of_split {op : BinaryOp} {s u v : Text} (hs : split? s = some ⟨op, u, v⟩)
    {vars : Variables α} {depth : Nat}
    (hd : ((op.inOrder (evaluateWithin depth u) (evaluateWithin depth v)).run.run vars).1 ≠
      .error .tooDeep) :
    evaluate s vars (depth + 2) =
      (op.inOrder (evaluateWithin depth u) (evaluateWithin depth v)).run.run vars :=
  extends_inOrder hs depth vars hd

end Worksheet.Expression
