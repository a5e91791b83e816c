import Worksheet.Text.Blank
import Worksheet.Number.Arithmetic

/-! # Binary operators

Whether a character is a binary operator is decided by its two neighbours: a plus or a minus next
to its like belongs to an increment or a decrement, and a plus before an equals sign to a compound
assignment.
-/
namespace Worksheet

inductive BinaryOp
  | plus
  | minus
  | star
  | slash
deriving DecidableEq, Repr

/-- Which side of a chain of one operator is applied first. -/
inductive Grouping
  | fromLeft
  | fromRight
deriving DecidableEq, Repr

namespace BinaryOp

def char : BinaryOp → Char
  | plus => '+'
  | minus => '-'
  | star => '*'
  | slash => '/'

/-- From the loosest to the tightest. -/
def all : List BinaryOp :=
  [plus, minus, star, slash]

def grouping : BinaryOp → Grouping
  | plus | star => .fromRight
  | minus | slash => .fromLeft

def apply {α : Type} [Arithmetic α] : BinaryOp → α → α → α
  | plus => (· + ·)
  | minus => (· - ·)
  | star => (· * ·)
  | slash => (· / ·)

/-- Whether the operator's character is an operator between the two given neighbours. -/
def allows : BinaryOp → (before after : Option Char) → Bool
  | plus, before, after => before ≠ some '+' && after ≠ some '+' && after ≠ some '='
  | minus, before, after => before ≠ some '-' && after ≠ some '-'
  | star, _, _ | slash, _, _ => true

def occursAt (op : BinaryOp) (before : Option Char) (c : Char) (after : Option Char) : Bool :=
  c = op.char && op.allows before after

theorem char_injective {p q : BinaryOp} (h : p.char = q.char) : p = q := by
  cases p <;> cases q <;> first | rfl | exact absurd h (by decide)

theorem mem_all (op : BinaryOp) : op ∈ all := by
  cases op <;> decide

theorem eq_char_of_occursAt {op : BinaryOp} {before after : Option Char} {c : Char}
    (h : op.occursAt before c after = true) : c = op.char := by
  simp only [occursAt, Bool.and_eq_true, decide_eq_true_eq] at h
  exact h.1

end BinaryOp

def operatorAt (before : Option Char) (c : Char) (after : Option Char) : Option BinaryOp :=
  BinaryOp.all.find? fun op => op.occursAt before c after

theorem operatorAt_eq_some_iff {before after : Option Char} {c : Char} {op : BinaryOp} :
    operatorAt before c after = some op ↔ op.occursAt before c after = true := by
  constructor
  · intro h
    exact List.find?_some (p := fun op : BinaryOp => op.occursAt before c after) h
  · intro h
    obtain ⟨p, hp⟩ : ∃ p, operatorAt before c after = some p := by
      refine Option.isSome_iff_exists.mp (List.find?_isSome.mpr ⟨op, op.mem_all, h⟩)
    have hpc := List.find?_some (p := fun op : BinaryOp => op.occursAt before c after) hp
    rw [hp, BinaryOp.char_injective ((BinaryOp.eq_char_of_occursAt hpc).symm.trans
      (BinaryOp.eq_char_of_occursAt h))]

end Worksheet
