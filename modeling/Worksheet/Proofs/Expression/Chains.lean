import Worksheet.Expression.Value

/-! # Values of chains

A chain is listed along the splits of its text, and its value is computed along the same splits:
operands strictly from left to right, each operation when both its sides are known.
-/
namespace Worksheet

/-- Applies an operator to two results, of which the left one is computed first. -/
def BinaryOp.inOrder {m : Type → Type} [Monad m] {α : Type} [Arithmetic α] (op : BinaryOp)
    (x y : m α) : m α := do
  let a ← x
  let b ← y
  return op.apply a b

namespace Expression

section Operands

variable {op : BinaryOp} {s u v : Text}

theorem operands_eq_self (h : ∀ p, split? s = some p → p.op ≠ op) : operands op s = ⟨s, []⟩ := by
  rw [operands]
  split
  · rfl
  · next p hp => rw [if_neg (h p hp)]

theorem operands_fromRight (h : split? s = some ⟨op, u, v⟩) (hg : op.grouping = .fromRight) :
    operands op s = ⟨u, (operands op v).first :: (operands op v).later⟩ := by
  rw [operands]
  split
  · next hn => rw [h] at hn; cases hn
  · next p hp =>
    obtain rfl : ⟨op, u, v⟩ = p := Option.some.inj (h.symm.trans hp)
    rw [if_pos rfl, hg]

theorem operands_fromLeft (h : split? s = some ⟨op, u, v⟩) (hg : op.grouping = .fromLeft) :
    operands op s = ⟨(operands op u).first, (operands op u).later ++ [v]⟩ := by
  rw [operands]
  split
  · next hn => rw [h] at hn; cases hn
  · next p hp =>
    obtain rfl : ⟨op, u, v⟩ = p := Option.some.inj (h.symm.trans hp)
    rw [if_pos rfl, hg]

end Operands

variable {α : Type} [Arithmetic α] {op : BinaryOp} {s u v : Text} (value : Text → Evaluation α α)

theorem chainValue_self (h : ∀ p, split? s = some p → p.op ≠ op) :
    chainValue op (operands op s) value = value s := by
  have hcombine : ∀ a : α, combine op.apply op.grouping a [] = a := fun a => by
    cases op.grouping <;> rfl
  simp [operands_eq_self h, chainValue, hcombine]

theorem chainValue_fromRight (h : split? s = some ⟨op, u, v⟩) (hg : op.grouping = .fromRight) :
    chainValue op (operands op s) value =
      op.inOrder (value u) (chainValue op (operands op v) value) := by
  simp [operands_fromRight h hg, chainValue, BinaryOp.inOrder, hg, combine]

theorem chainValue_fromLeft (h : split? s = some ⟨op, u, v⟩) (hg : op.grouping = .fromLeft) :
    chainValue op (operands op s) value =
      op.inOrder (chainValue op (operands op u) value) (value v) := by
  simp [operands_fromLeft h hg, chainValue, BinaryOp.inOrder, hg, combine, List.mapM_append]

end Expression
end Worksheet
