import Worksheet.Proofs.Expression.Budget
import Worksheet.Proofs.Expression.Leaves

/-! # Plain recursion

A text can be evaluated by its splits alone: its left half, then its right half, then the operator,
each half again in this way. This recursion nests as deeply as the text is long. The evaluation by
chains, which collects the operands of one operator first, comes to the same wherever it does not
give up, and it does not give up when it has two levels for each character.
-/
namespace Worksheet.Expression
open Text

variable {α : Type} [Arithmetic α]

/-- The value of a text by plain recursion along its splits. Nothing bounds the nesting. -/
def evaluateHalves (s : Text) : Evaluation α α :=
  match hs : split? s with
  | some p =>
    have := length_lt_of_split? hs
    p.op.inOrder (evaluateHalves p.left) (evaluateHalves p.right)
  | none =>
    match ho : Operand.ofTerm (trim s) with
    | .negated rest =>
      have := length_lt_of_ofTerm_negated ho
      do return -(← evaluateHalves rest)
    | .stepped step name => takeStep step name (trim s)
    | .plain text => lookUp text s
termination_by s.length
decreasing_by all_goals omega

section Halves
variable {s u v : Text} {op : BinaryOp}

theorem evaluateHalves_of_split (h : split? s = some ⟨op, u, v⟩) :
    evaluateHalves (α := α) s = op.inOrder (evaluateHalves u) (evaluateHalves v) := by
  rw [evaluateHalves]
  split
  · next p hp =>
    obtain rfl := Option.some.inj (h.symm.trans hp)
    rfl
  · next hn =>
    rw [h] at hn
    cases hn

theorem evaluateHalves_leaf (h : split? s = none) :
    evaluateHalves (α := α) s = match Operand.ofTerm (trim s) with
      | .negated rest => do return -(← evaluateHalves rest)
      | .stepped step name => takeStep step name (trim s)
      | .plain text => lookUp text s := by
  rw [evaluateHalves]
  split
  · next p hp =>
    rw [h] at hp
    cases hp
  · split <;> next ho => simp only [ho]

end Halves

/-- The operands of a chain, collected and then combined, have the value of the splits at their
operator one after the other. -/
theorem chainValue_eq_evaluateHalves {value : Text → Evaluation α α} {n : Nat}
    (hvalue : ∀ t : Text, t.length < n → value t = evaluateHalves t) (op : BinaryOp) {s : Text}
    (hs : s.length < n) : chainValue op (operands op s) value = evaluateHalves s := by
  revert hs
  apply chainValue_induction (P := fun s m => s.length < n → m = evaluateHalves s)
  · intro s u v x y hsplit hx hy hs
    obtain ⟨hu, hv⟩ := length_lt_of_split? hsplit
    rw [hx (Nat.lt_trans hu hs), hy (Nat.lt_trans hv hs), evaluateHalves_of_split hsplit]
  · exact hvalue

theorem evaluateWithin_eq_evaluateHalves {depth : Nat} {s : Text} (hd : 2 * s.length < depth) :
    evaluateWithin (α := α) depth s = evaluateHalves s := by
  induction depth using Nat.strongRecOn generalizing s with
  | _ depth ih =>
    cases hs : split? s with
    | none =>
      obtain ⟨depth, rfl⟩ : ∃ d, depth = d + 1 := ⟨depth - 1, by omega⟩
      rw [evaluateWithin_leaf hs, evaluateHalves_leaf hs]
      cases ho : Operand.ofTerm (trim s) with
      | negated rest =>
        have hrest := length_lt_of_ofTerm_negated ho
        simp only [ih depth (Nat.lt_succ_self depth) (s := rest) (by omega)]
      | stepped step name => rfl
      | plain text => rfl
    | some p =>
      obtain ⟨op, u, v⟩ := p
      obtain ⟨hu, hv⟩ := length_lt_of_split? hs
      obtain ⟨inner, rfl⟩ : ∃ d, depth = d + 2 := ⟨depth - 2, by omega⟩
      have hinner : ∀ t : Text, t.length < s.length →
          evaluateWithin (α := α) inner t = evaluateHalves t := fun t ht =>
        ih inner (by omega) (by omega)
      have hchain : evaluateWithin (α := α) (inner + 2) s =
          chainValue op (operands op s) (evaluateWithin inner) := by
        rw [evaluateWithin, hs]
      rw [hchain, evaluateHalves_of_split hs]
      cases hg : op.grouping with
      | fromRight =>
        rw [chainValue_fromRight _ hs hg, hinner u hu, chainValue_eq_evaluateHalves hinner op hv]
      | fromLeft =>
        rw [chainValue_fromLeft _ hs hg, hinner v hv, chainValue_eq_evaluateHalves hinner op hu]

theorem extends_evaluateHalves (depth : Nat) (s : Text) :
    Extends (evaluateWithin (α := α) depth s) (evaluateHalves s) := by
  have hdeep : 2 * s.length < depth + (2 * s.length + 1) := by omega
  rw [← evaluateWithin_eq_evaluateHalves hdeep]
  exact extends_of_le (Nat.le_add_right _ _) s

/-- The evaluation by chains is the plain recursion, with the same value or the same failure and the
same variables after it: in whatever depth it is, if that is enough for the text or if it does not
give up. -/
theorem evaluateWithin_plain (s : Text) (vars : Variables α) (depth : Nat) :
    (evaluateWithin (2 * s.length + 1 + depth) s).run.run vars =
        (evaluateHalves s).run.run vars ∧
      (((evaluateWithin depth s).run.run vars).1 = .error .tooDeep ∨
        (evaluateWithin depth s).run.run vars = (evaluateHalves s).run.run vars) := by
  constructor
  · rw [evaluateWithin_eq_evaluateHalves (by omega)]
  · by_cases h : ((evaluateWithin depth s).run.run vars).1 = .error .tooDeep
    · exact Or.inl h
    · exact Or.inr (extends_evaluateHalves depth s vars h).symm

end Worksheet.Expression
