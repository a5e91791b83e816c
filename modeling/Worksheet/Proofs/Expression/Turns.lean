import Worksheet.Proofs.Expression.Chains
import Worksheet.Proofs.Expression.Halves

/-! # Turns

A chain is taken apart in turns. Each turn splits what remains at the operator of the chain and
takes one half as an operand: the left one when the chain is grouped from the right, else the right
one. The half that is taken is never split at the same operator again, so the turns end with the
operands of the chain.
-/
namespace Worksheet

namespace Grouping

/-- The half that a turn takes. -/
def taken : Grouping → Expression.Halves → Text
  | fromRight, h => h.1
  | fromLeft, h => h.2

def remaining : Grouping → Expression.Halves → Text
  | fromRight, h => h.2
  | fromLeft, h => h.1

/-- What turns took, in their order, and what they left, put into text order. -/
def arrange : Grouping → (taken : List Text) → (left : Text) → List Text
  | fromRight, xs, r => xs ++ [r]
  | fromLeft, xs, r => r :: xs.reverse

end Grouping

namespace Expression
open Text Series

variable {op : BinaryOp} {s t u v w x y r : Text} {xs ys : List Text}

section Operand

/-- The last character of the text that is no white space is no operator, or is a doubled sign. -/
def EndsInOperand (s : Text) : Prop :=
  ∃ w c b, s = w ++ c :: b ∧ isSpace c = false ∧ isBlank b = true ∧
    (c ∉ ['+', '-', '*', '/'] ∨ (c = '+' ∨ c = '-') ∧ w.getLast? = some c)

theorem endsOperand_eq_true_iff : endsOperand s.reverse = true ↔ EndsInOperand s := by
  have hlast : ∀ {w b : Text} {c : Char}, isSpace c = false → isBlank b = true →
      (endsOperand (w ++ c :: b).reverse = true ↔
        c ∉ ['+', '-', '*', '/'] ∨ (c = '+' ∨ c = '-') ∧ w.getLast? = some c) := by
    intro w b c hc hb
    rw [endsOperand, dropWhile_reverse_append hc hb]
    by_cases hop : c ∈ ['+', '-', '*', '/'] <;> simp [hop]
  constructor
  · intro h
    rcases isBlank_or_exists_last s with hblank | ⟨w, c, b, rfl, hc, hb⟩
    · rw [endsOperand_of_isBlank hblank] at h
      cases h
    · exact ⟨w, c, b, rfl, hc, hb, (hlast hc hb).mp h⟩
  · rintro ⟨w, c, b, rfl, hc, hb, h⟩
    exact (hlast hc hb).mpr h

theorem endsInOperand_iff : EndsInOperand s ↔ isBlank (last (chunks s)) = false := by
  rw [← endsOperand_eq_true_iff, endsOperand_eq, Bool.not_eq_true']

end Operand

section Halves

theorem splitAt_taken_eq_none (h : splitAt op s = some (u, v)) :
    splitAt op (op.grouping.taken (u, v)) = none := by
  unfold splitAt at h ⊢
  cases hg : op.grouping with
  | fromRight =>
    rw [hg] at h
    exact splitFirst_eq_none (splitFirst_eq_some_iff.mp h).2.2.1
  | fromLeft =>
    rw [hg] at h
    exact splitLast_eq_none (splitLast_eq_some_iff.mp h).2.2.2.1

/-- A last split has an operand on its left, and is at the last occurrence that has one. -/
theorem endsInOperand_of_splitAt (hg : op.grouping = .fromLeft)
    (h : splitAt op s = some (u, v)) :
    EndsInOperand u ∧ ∀ x y, v = x ++ op.char :: y →
      op.allows x.getLast? y.head? = true → ¬ EndsInOperand x := by
  rw [splitAt, hg] at h
  obtain ⟨-, -, hu, hv, -, -⟩ := splitLast_eq_some_iff.mp h
  refine ⟨endsInOperand_iff.mpr hu, ?_⟩
  rintro x y rfl ha hx
  have hblank := isBlank_last_of_not_mem ha hv
  rw [endsInOperand_iff.mp hx] at hblank
  cases hblank

end Halves

section Turns

/-- What a turn takes and what it leaves. Where the text is not split, or is split at another
operator, there is no turn. -/
def turn? (op : BinaryOp) (s : Text) : Option (Text × Text) :=
  ((split? s).filter (·.op = op)).map fun p =>
    (op.grouping.taken (p.left, p.right), op.grouping.remaining (p.left, p.right))

/-- Some turns one after the other, with what they take in their order and what they leave. -/
inductive Turns (op : BinaryOp) : Text → List Text → Text → Prop
  | stop (s : Text) : Turns op s [] s
  | more {s x t r : Text} {xs : List Text} (h : turn? op s = some (x, t))
      (later : Turns op t xs r) : Turns op s (x :: xs) r

theorem turn?_eq_some_iff : turn? op s = some (x, r) ↔
    ∃ u v, split? s = some ⟨op, u, v⟩ ∧ op.grouping.taken (u, v) = x ∧
      op.grouping.remaining (u, v) = r := by
  simp only [turn?, Option.map_eq_some_iff, Option.filter_eq_some_iff, decide_eq_true_eq,
    Prod.mk.injEq]
  constructor
  · rintro ⟨⟨o, u, v⟩, ⟨hs, rfl⟩, hx, hr⟩
    exact ⟨u, v, hs, hx, hr⟩
  · rintro ⟨u, v, hs, hx, hr⟩
    exact ⟨⟨op, u, v⟩, ⟨hs, rfl⟩, hx, hr⟩

theorem turn?_eq_none_iff : turn? op s = none ↔ ∀ p, split? s = some p → p.op ≠ op := by
  simp [turn?, Option.filter_eq_none_iff]

theorem length_lt_of_turn? (h : turn? op s = some (x, r)) : r.length < s.length := by
  obtain ⟨u, v, hs, -, rfl⟩ := turn?_eq_some_iff.mp h
  obtain ⟨hu, hv⟩ := length_lt_of_split? hs
  cases op.grouping with
  | fromRight => exact hv
  | fromLeft => exact hu

theorem splitAt_eq_none_of_turn? (h : turn? op s = some (x, r)) : splitAt op x = none := by
  obtain ⟨u, v, hs, rfl, -⟩ := turn?_eq_some_iff.mp h
  exact splitAt_taken_eq_none (splitAt_of_split? hs)

theorem exists_turns (op : BinaryOp) (s : Text) :
    ∃ xs r, Turns op s xs r ∧ turn? op r = none := by
  induction hn : s.length using Nat.strongRecOn generalizing s with
  | _ n ih =>
    subst hn
    cases h : turn? op s with
    | none => exact ⟨[], s, .stop s, h⟩
    | some p =>
      obtain ⟨xs, r, hr, hend⟩ := ih _ (length_lt_of_turn? h) p.2 rfl
      exact ⟨p.1 :: xs, r, .more h hr, hend⟩

namespace Turns

theorem isPrefixOf_of_end (h : Turns op s xs r) (hend : turn? op r = none)
    (h' : Turns op s ys t) : ys <+: xs := by
  induction h generalizing ys with
  | stop s =>
    cases h' with
    | stop => exact List.prefix_refl []
    | more hturn => rw [hend] at hturn; cases hturn
  | more hturn _ ih =>
    cases h' with
    | stop => exact List.nil_prefix
    | more hturn' later' =>
      obtain ⟨rfl, rfl⟩ := Prod.mk.inj (Option.some.inj (hturn.symm.trans hturn'))
      exact (List.prefix_cons_inj _).mpr (ih hend later')

theorem splitAt_eq_none (h : Turns op s xs r) (hx : x ∈ xs) : splitAt op x = none := by
  induction h with
  | stop => cases hx
  | more hturn _ ih =>
    rcases List.mem_cons.mp hx with rfl | hx
    · exact splitAt_eq_none_of_turn? hturn
    · exact ih hx

/-- The operands of a chain are what the turns take and what the last one leaves. -/
theorem operands_eq (h : Turns op s xs r) (hend : turn? op r = none) :
    (operands op s).first :: (operands op s).later = op.grouping.arrange xs r := by
  induction h with
  | stop s =>
    rw [operands_eq_self (turn?_eq_none_iff.mp hend)]
    cases op.grouping <;> rfl
  | more hturn _ ih =>
    obtain ⟨u, v, hs, rfl, rfl⟩ := turn?_eq_some_iff.mp hturn
    have hrest := ih hend
    cases hg : op.grouping with
    | fromRight =>
      rw [hg] at hrest
      rw [operands_fromRight hs hg]
      exact congrArg (u :: ·) hrest
    | fromLeft =>
      rw [hg] at hrest
      rw [operands_fromLeft hs hg, ← List.cons_append]
      refine (congrArg (· ++ [v]) hrest).trans ?_
      simp [Grouping.arrange, Grouping.taken]

end Turns

end Turns

/-- A split takes out one operator between halves that are not blank. The half that a turn takes is
not split at the operator again. A last split has an operand on its left, and no later occurrence
has one within the right half. So each turn over a chain leaves a shorter text, the turns end, and
they take operands that are no chains of the operator. -/
theorem splitAt_laws (op : BinaryOp) (s : Text) :
    (∀ left right, splitAt op s = some (left, right) →
      s = left ++ op.char :: right ∧ isBlank left = false ∧ isBlank right = false ∧
      splitAt op (op.grouping.taken (left, right)) = none ∧
      (op.grouping = .fromLeft → EndsInOperand left ∧
        ∀ before after, right = before ++ op.char :: after →
          op.allows before.getLast? after.head? = true → ¬ EndsInOperand before)) ∧
    (∀ x rest, turn? op s = some (x, rest) → rest.length < s.length) ∧
    ∃ xs rest, Turns op s xs rest ∧ turn? op rest = none ∧
      (∀ ys t, Turns op s ys t → ys <+: xs) ∧ (∀ x ∈ xs, splitAt op x = none) ∧
      (operands op s).first :: (operands op s).later = op.grouping.arrange xs rest := by
  refine ⟨fun left right h => ?_, fun x rest => length_lt_of_turn?, ?_⟩
  · obtain ⟨hleft, hright⟩ := not_isBlank_of_splitAt h
    exact ⟨splitAt_eq h, hleft, hright, splitAt_taken_eq_none h,
      fun hg => endsInOperand_of_splitAt hg h⟩
  · obtain ⟨xs, rest, hturns, hend⟩ := exists_turns op s
    exact ⟨xs, rest, hturns, hend, fun _ _ => hturns.isPrefixOf_of_end hend,
      fun _ => hturns.splitAt_eq_none, hturns.operands_eq hend⟩

/-- The last minus is a sign, and the two before it belong to a decrement. -/
theorem splitAt_laws_signs :
    let s := "a - b-- - -c".toList
    splitAt .minus s = some ("a - b-- ".toList, " -c".toList) ∧
      EndsInOperand "a - b-- ".toList ∧ ¬ EndsInOperand [' '] ∧
      splitAt .minus " -c".toList = none ∧
      ∃ xs rest, Turns .minus s xs rest ∧ turn? .minus rest = none ∧
        [" -c".toList, " b-- ".toList] <+: xs ∧ ∀ x ∈ xs, splitAt .minus x = none := by
  intro s
  have hs : splitAt .minus s = some ("a - b-- ".toList, " -c".toList) := by decide +kernel
  have hfirst : turn? .minus s = some (" -c".toList, "a - b-- ".toList) := by decide +kernel
  have hsecond : turn? .minus "a - b-- ".toList = some (" b-- ".toList, "a ".toList) := by
    decide +kernel
  obtain ⟨hsplit, -, xs, rest, hturns, hend, hinitial, htaken, -⟩ := splitAt_laws .minus s
  obtain ⟨-, -, -, hnone, hlast⟩ := hsplit _ _ hs
  obtain ⟨hleft, hright⟩ := hlast rfl
  exact ⟨hs, hleft, hright [' '] ['c'] rfl rfl, hnone, xs, rest, hturns, hend,
    hinitial _ _ (.more hfirst (.more hsecond (.stop _))), htaken⟩

end Expression

end Worksheet
