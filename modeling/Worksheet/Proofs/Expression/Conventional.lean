import Worksheet.Proofs.Expression.Reading

/-! # The conventional reading

Conventionally sums and differences are one level, products and quotients another, and both are
grouped from the left. Splitting groups otherwise. In exact arithmetic the two readings of an
expression have the same value, and they make the same steps in the same order.
-/
namespace Worksheet.Expression
open Text Series

instance : Arithmetic Rat where
  unit := 1
  ofNumeral n := (if n.negative then -1 else 1) * n.significand * 10 ^ n.exponent

namespace Phrase

def conventional (p : Phrase) : Tree := Series.conventional Tree.binary (map Signed.tree p)

def signRun (p : Phrase) : Nat := (items p).foldr (fun g n => max g.signs n) 0

theorem signs_le (p : Phrase) : ∀ g ∈ items p, g.signs ≤ signRun p := by
  unfold signRun
  induction items p with
  | nil => simp
  | cons b l ih =>
    intro g hg
    rw [List.foldr_cons]
    rcases List.mem_cons.mp hg with rfl | hg
    · exact Nat.le_max_left _ _
    · exact Nat.le_trans (ih g hg) (Nat.le_max_right _ _)

end Phrase

theorem regroups_inOrder {m : Type → Type} [Monad m] [LawfulMonad m] {α : Type} [Arithmetic α]
    {outer op : BinaryOp} (h : Regroups (BinaryOp.apply (α := α)) outer op) :
    Regroups (BinaryOp.inOrder (m := m) (α := α)) outer op := by
  intro x y z
  simp only [BinaryOp.inOrder, bind_assoc, pure_bind]
  congr 1
  funext a
  congr 1
  funext b
  congr 1
  funext c
  rw [h a b c]

section Laws

theorem regroups_plus_plus : Regroups (BinaryOp.apply (α := Rat)) .plus .plus :=
  fun a b c => Rat.add_assoc a b c

theorem regroups_plus_minus : Regroups (BinaryOp.apply (α := Rat)) .plus .minus := by
  intro a b c
  change a + b - c = a + (b - c)
  rw [Rat.sub_eq_add_neg, Rat.sub_eq_add_neg, Rat.add_assoc]

theorem regroups_star_star : Regroups (BinaryOp.apply (α := Rat)) .star .star :=
  fun a b c => Rat.mul_assoc a b c

theorem regroups_star_slash : Regroups (BinaryOp.apply (α := Rat)) .star .slash := by
  intro a b c
  change a * b / c = a * (b / c)
  rw [Rat.div_def, Rat.div_def, Rat.mul_assoc]

end Laws

/-- In exact arithmetic the tree that splitting makes of a phrase means the same as the conventional
reading. -/
theorem Phrase.evaluate_tree_eq_conventional (p : Phrase) :
    (Phrase.tree p).evaluate (α := Rat) shadowed = (conventional p).evaluate shadowed := by
  rw [← meaning_eq, meaning, conventional, map_conventional (Tree.evaluate_binary shadowed),
    map_map]
  exact grouped_eq_conventional (regroups_inOrder regroups_plus_plus)
    (regroups_inOrder regroups_plus_minus) (regroups_inOrder regroups_star_star)
    (regroups_inOrder regroups_star_slash) _

/-- In exact arithmetic the grouping of a phrase does not matter, however deep its signs nest, and a
text is evaluated as the conventional reading of the phrase that it spells, over any variables. -/
theorem evaluate_pad_conventional {p : Phrase} {s : Text} (h : Spacing (Phrase.tokens p) s)
    (vars : Variables Rat) (depth : Nat) :
    (Phrase.tree p).evaluate (α := Rat) shadowed = (Phrase.conventional p).evaluate shadowed ∧
      SameOutcome (depth < Phrase.signRun p + 9) (evaluate (pad s) vars depth)
        (((Phrase.conventional p).evaluate shadowed).run.run vars) := by
  have htree := Phrase.evaluate_tree_eq_conventional p
  have hout := evaluate_phrase h (Phrase.signs_le p) vars depth
  rw [Phrase.meaning_eq, htree] at hout
  exact ⟨htree, hout⟩

/-- A difference before a sum, with a step between two uses of a variable. -/
theorem evaluate_pad_conventional_difference_sum :
    let a : Name := ⟨['a'], isName_a⟩
    let p : Phrase :=
      (⟨0, .name a⟩, [(.minus, ⟨1, .stepped ⟨.up, false⟩ a⟩), (.plus, ⟨0, .name a⟩)])
    let vars : Variables Rat := .ofList [(['a'], 1)]
    Spacing (Phrase.tokens p) "a - - a ++ + a ".toList ∧
      (Phrase.tree p).evaluate (α := Rat) shadowed = (Phrase.conventional p).evaluate shadowed ∧
      SameOutcome (maxDepth < Phrase.signRun p + 9) (evaluate (pad "a - - a ++ + a ".toList) vars)
        (((Phrase.conventional p).evaluate shadowed).run.run vars) := by
  intro a p vars
  have hs : Spacing (Phrase.tokens p) "a - - a ++ + a ".toList := spacing_spaced _
  exact ⟨hs, evaluate_pad_conventional hs vars maxDepth⟩

end Worksheet.Expression
