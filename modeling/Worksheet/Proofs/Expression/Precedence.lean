import Worksheet.Proofs.Expression.Reading

/-! # Precedence

Written in any way without parentheses, a grouped tree is evaluated as the tree. This is about
variables that have names. A variable that went by the text of a literal would shadow the literal.
-/
namespace Worksheet.Expression
open Text Series

variable {α : Type}

/-- Computations that agree over variables with names, and leave only such variables. -/
def Unshadowed {β : Type} (m d : Meaning α β) : Prop :=
  ∀ vars, Named vars → m.run.run vars = d.run.run vars ∧ Named (m.run.run vars).2

namespace Unshadowed
variable {β γ : Type}

theorem pure (b : β) : Unshadowed (α := α) (Pure.pure b) (Pure.pure b) := fun _ hv => ⟨rfl, hv⟩

theorem bind {m d : Meaning α β} {f g : β → Meaning α γ} (hm : Unshadowed m d)
    (hf : ∀ b, Unshadowed (f b) (g b)) : Unshadowed (m >>= f) (d >>= g) := by
  intro vars hv
  obtain ⟨heq, hn⟩ := hm vars hv
  rw [run_bind, run_bind, ← heq]
  generalize m.run.run vars = o at hn
  obtain ⟨e | b, after⟩ := o
  · exact ⟨rfl, hn⟩
  · exact hf b after hn

end Unshadowed

variable [Arithmetic α]

theorem Atom.unshadowed (a : Atom) :
    Unshadowed (α := α) (a.evaluate shadowed) (a.evaluate denoted) := by
  intro vars hv
  cases a with
  | literal l =>
    rw [evaluate, run_shadowed, hv.get?_literal l]
    exact ⟨rfl, hv⟩
  | name x =>
    refine ⟨rfl, ?_⟩
    rw [evaluate, run_valueOf]
    cases vars.get? x.1 <;> exact hv
  | stepped step x =>
    refine ⟨rfl, ?_⟩
    rw [evaluate, run_bind, run_valueOf]
    cases vars.get? x.1 with
    | none => exact hv
    | some old => exact hv.insert x _

/-- Where all variables have names, no literal is shadowed. -/
theorem Tree.unshadowed (t : Tree) :
    Unshadowed (α := α) (t.evaluate shadowed) (t.evaluate denoted) := by
  induction t with
  | atom a => exact a.unshadowed
  | negated t ih => exact ih.bind fun b => Unshadowed.pure _
  | binary op l r ihl ihr => exact ihl.bind fun a => ihr.bind fun b => Unshadowed.pure _

/-- Any text that spells a grouped tree is evaluated, when padded, as the tree: with the same
number or the same unknown name, and the same variables afterwards. Only runs of minuses that are
longer than the nesting allows may fail as too deep instead. -/
theorem evaluate_pad_of_grouped {t : Tree} (ht : t.Grouped) {s : Text} (hs : Spacing t.tokens s)
    {vars : Variables α} (hv : Named vars) (depth : Nat) :
    SameOutcome (depth < t.signRun + 9) (evaluate (pad s) vars depth)
      ((t.evaluate denoted).run.run vars) := by
  have hp : Spacing (Phrase.tokens t.phrase) s := t.tokens_phrase ▸ hs
  have htree : Phrase.meaning (α := α) BinaryOp.all t.phrase = t.evaluate shadowed := by
    rw [Phrase.meaning_eq, ht.tree_phrase]
  have h := evaluate_phrase hp t.signs_le vars depth
  rwa [htree, (t.unshadowed vars hv).1] at h

/-- An increment minus a negative number. -/
theorem evaluate_pad_increment_minus_negative :
    let a : Name := ⟨['a'], isName_a⟩
    let two : Literal := ⟨['2'], none, none, by decide, nofun, by decide, nofun, nofun⟩
    let t : Tree :=
      .binary .minus (.atom (.stepped ⟨.up, false⟩ a)) (.negated (.atom (.literal two)))
    let vars : Variables Float := .ofList [(['a'], 1)]
    t.Grouped ∧ Spacing t.tokens "a ++ - - 2 ".toList ∧ Named vars ∧
      SameOutcome (maxDepth < t.signRun + 9) (evaluate (pad "a ++ - - 2 ".toList) vars)
        ((t.evaluate denoted).run.run vars) := by
  intro a two t vars
  have ht : t.Grouped := ⟨trivial, ⟨trivial, by decide⟩, by decide, by decide⟩
  have hs : Spacing t.tokens "a ++ - - 2 ".toList := spacing_spaced t.tokens
  have hv : Named vars := named_ofList_single a 1
  exact ⟨ht, hs, hv, evaluate_pad_of_grouped ht hs hv maxDepth⟩

end Worksheet.Expression
