import Worksheet.Proofs.Expression.Leaf

/-! # Induction along the splits

A chain is evaluated split by split, and a text that is not split as one operand. What holds of
giving up, of every operand, and of a split whenever it holds of both halves, therefore holds of
every evaluation.
-/
namespace Worksheet.Expression
open Text

variable {α : Type} [Arithmetic α] {P : Text → Evaluation α α → Prop}

/-- Along the splits at its operator, a chain is a computation of its first half and then of its
second half. -/
theorem chainValue_induction {op : BinaryOp} {value : Text → Evaluation α α}
    (binary : ∀ {s u v : Text} {x y : Evaluation α α}, split? s = some ⟨op, u, v⟩ →
      P u x → P v y → P s (op.inOrder x y))
    (hvalue : ∀ s, P s (value s)) (s : Text) : P s (chainValue op (operands op s) value) := by
  induction hn : s.length using Nat.strongRecOn generalizing s with
  | _ n ih =>
    by_cases hsplit : ∃ u v, split? s = some ⟨op, u, v⟩
    · obtain ⟨u, v, hsplit⟩ := hsplit
      obtain ⟨hu, hv⟩ := length_lt_of_split? hsplit
      rw [hn] at hu hv
      cases hg : op.grouping with
      | fromRight =>
        rw [chainValue_fromRight value hsplit hg]
        exact binary hsplit (hvalue u) (ih v.length hv v rfl)
      | fromLeft =>
        rw [chainValue_fromLeft value hsplit hg]
        exact binary hsplit (ih u.length hu u rfl) (hvalue v)
    · have hself : ∀ p, split? s = some p → p.op ≠ op := by
        rintro p hp rfl
        exact hsplit ⟨p.left, p.right, hp⟩
      rw [chainValue_self value hself]
      exact hvalue s

theorem evaluateWithin_induction (tooDeep : ∀ s, P s (throw .tooDeep))
    (plain : ∀ {s : Text}, split? s = none → Operand.ofTerm (trim s) = .plain (trim s) →
      P s (lookUp (trim s) s))
    (stepped : ∀ {s name : Text} {step : Step}, split? s = none →
      Operand.ofTerm (trim s) = .stepped step name → P s (takeStep step name (trim s)))
    (negated : ∀ {s rest : Text} {x : Evaluation α α}, split? s = none →
      Operand.ofTerm (trim s) = .negated rest → P rest x → P s (do return -(← x)))
    (binary : ∀ {s u v : Text} {op : BinaryOp} {x y : Evaluation α α},
      split? s = some ⟨op, u, v⟩ → P u x → P v y → P s (op.inOrder x y))
    (depth : Nat) (s : Text) : P s (evaluateWithin depth s) := by
  induction depth using Nat.strongRecOn generalizing s with
  | _ depth ih =>
    cases depth with
    | zero => exact tooDeep s
    | succ depth =>
      cases hs : split? s with
      | none =>
        rw [evaluateWithin_leaf hs]
        cases ho : Operand.ofTerm (trim s) with
        | negated rest => exact negated hs ho (ih depth (Nat.lt_succ_self _) rest)
        | stepped step name => exact stepped hs ho
        | plain text =>
          obtain rfl := eq_of_ofTerm_plain ho
          exact plain hs ho
      | some p =>
        rw [evaluateWithin, hs]
        cases depth with
        | zero => exact tooDeep s
        | succ inner => exact chainValue_induction binary (fun t => ih inner (by omega) t) s

end Worksheet.Expression
