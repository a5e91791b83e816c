import Worksheet.Proofs.Expression.Depth
import Worksheet.Proofs.Expression.Recursion

/-! # Nested evaluations

An evaluation evaluates what stands behind a sign, and the operands of a chain one after the other,
each inside itself. What is counted here is how many evaluations are inside each other, apart from
any bound on them. Nothing but this number makes an evaluation give up, and over variables of which
the names begin with letters only runs of signs make it large.
-/
namespace Worksheet.Expression
open Text

variable {α β γ : Type} [Arithmetic α] {s t : Text} {u v w : Variables α}

/-- Texts that are evaluated in order get to one of them when those before it have values. -/
inductive Reaches : List Text → Variables α → Text → Variables α → Prop
  | here (t : Text) (later : List Text) (u : Variables α) : Reaches (t :: later) u t u
  | later {s t : Text} {later : List Text} {u v w : Variables α} {value : α}
      (hv : (evaluateHalves s).run.run u = (.ok value, v)) (h : Reaches later v t w) :
      Reaches (s :: later) u t w

/-- The evaluation of a text over some variables evaluates another one, over those that there are by
then. -/
inductive Calls : Text → Variables α → Text → Variables α → Prop
  | sign {s rest : Text} (hs : split? s = none) (ho : Operand.ofTerm (trim s) = .negated rest)
      (u : Variables α) : Calls s u rest u
  | operand {s t : Text} {p : Split} {u v : Variables α} (hs : split? s = some p)
      (h : Reaches ((operands p.op s).first :: (operands p.op s).later) u t v) : Calls s u t v

/-- So many evaluations are inside each other, of which the first one is that of a text over some
variables. -/
inductive Nests : Nat → Text → Variables α → Prop
  | one (s : Text) (u : Variables α) : Nests 1 s u
  | call {n : Nat} {s t : Text} {u v : Variables α} (h : Calls s u t v) (hn : Nests n t v) :
      Nests (n + 1) s u

/-- A computation that gives up because of its depth. -/
def GivesUp (m : Evaluation α β) (u : Variables α) : Prop := (m.run.run u).1 = .error .tooDeep

omit [Arithmetic α] in
theorem givesUp_bind {m : Evaluation α β} {f : β → Evaluation α γ} : GivesUp (m >>= f) u ↔
    GivesUp m u ∨ ∃ b v, m.run.run u = (.ok b, v) ∧ GivesUp (f b) v := bind_eq_error

omit [Arithmetic α] in
theorem not_givesUp_pure (b : β) : ¬ GivesUp (pure b) u := nofun

omit [Arithmetic α] in
theorem givesUp_bind_pure {m : Evaluation α β} {f : β → γ} :
    GivesUp (m >>= fun b => pure (f b)) u ↔ GivesUp m u := bind_pure_eq_error

theorem givesUp_mapM {value : Text → Evaluation α α}
    (hvalue : ∀ s, Extends (value s) (evaluateHalves s)) {l : List Text} :
    GivesUp (l.mapM value) u ↔ ∃ t v, Reaches l u t v ∧ GivesUp (value t) v := by
  constructor
  · intro h
    induction l generalizing u with
    | nil => exact absurd h (not_givesUp_pure [])
    | cons s l ih =>
      rw [List.mapM_cons] at h
      rcases givesUp_bind.mp h with h | ⟨a, v, ha, h⟩
      · exact ⟨s, u, .here s l u, h⟩
      · obtain ⟨t, w, ht, h⟩ := ih (givesUp_bind_pure.mp h)
        have hne : ((value s).run.run u).1 ≠ .error .tooDeep := by
          rw [ha]
          exact nofun
        exact ⟨t, w, .later ((hvalue s u hne).trans ha) ht, h⟩
  · rintro ⟨t, w, ht, h⟩
    induction ht with
    | here t later u =>
      rw [List.mapM_cons]
      exact givesUp_bind.mpr (Or.inl h)
    | @later s t later u v w a hv _ ih =>
      rw [List.mapM_cons]
      -- What has a value without a bound may itself give up within one.
      by_cases hs : GivesUp (value s) u
      · exact givesUp_bind.mpr (Or.inl hs)
      · exact givesUp_bind.mpr (Or.inr ⟨a, v, (hvalue s u hs).symm.trans hv,
          givesUp_bind_pure.mpr (ih h)⟩)

theorem givesUp_chainValue {value : Text → Evaluation α α}
    (hvalue : ∀ s, Extends (value s) (evaluateHalves s)) (op : BinaryOp) (chain : Operands) :
    GivesUp (chainValue op chain value) u ↔
      ∃ t v, Reaches (chain.first :: chain.later) u t v ∧ GivesUp (value t) v := by
  rw [← givesUp_mapM hvalue, List.mapM_cons, chainValue, givesUp_bind, givesUp_bind]
  simp only [givesUp_bind_pure]

theorem givesUp_zero (s : Text) (u : Variables α) : GivesUp (evaluateWithin 0 s) u := rfl

theorem GivesUp.of_le {depth deeper : Nat} (h : GivesUp (evaluateWithin deeper s) u)
    (hle : depth ≤ deeper) : GivesUp (evaluateWithin depth s) u := by
  by_contra hne
  unfold GivesUp at h
  rw [extends_of_le hle s u hne] at h
  exact hne h

/-- An evaluation gives up with one level more than one that it calls. -/
theorem Calls.givesUp {depth : Nat} (hc : Calls s u t v) (h : GivesUp (evaluateWithin depth t) v) :
    GivesUp (evaluateWithin (depth + 1) s) u := by
  cases hc with
  | sign hs ho =>
    rw [evaluateWithin_leaf hs, ho]
    exact givesUp_bind_pure.mpr h
  | operand hs hr =>
    rw [evaluateWithin, hs]
    cases depth with
    | zero => rfl
    | succ inner =>
      exact (givesUp_chainValue (extends_evaluateHalves inner) _ _).mpr
        ⟨t, v, hr, h.of_le (Nat.le_succ inner)⟩

/-- An evaluation that gives up calls one that gives up with two levels less, since that is what a
chain takes. -/
theorem exists_call {depth : Nat} (h : GivesUp (evaluateWithin (depth + 2) s) u) :
    ∃ t v, Calls s u t v ∧ GivesUp (evaluateWithin depth t) v := by
  cases hs : split? s with
  | some p =>
    rw [evaluateWithin, hs] at h
    obtain ⟨t, v, hr, h⟩ := (givesUp_chainValue (extends_evaluateHalves depth) _ _).mp h
    exact ⟨t, v, .operand hs hr, h⟩
  | none =>
    rw [evaluateWithin_leaf hs] at h
    cases ho : Operand.ofTerm (trim s) with
    | negated rest =>
      rw [ho] at h
      exact ⟨rest, u, .sign hs ho u, (givesUp_bind_pure.mp h).of_le (Nat.le_succ depth)⟩
    | stepped step name =>
      rw [ho] at h
      exact absurd h (inDepth_takeStep (I := fun _ => True) step name (trim s) u trivial)
    | plain text =>
      rw [ho] at h
      exact absurd h (inDepth_lookUp (I := fun _ => True) text s u trivial)

theorem Nests.givesUp {n depth : Nat} (h : Nests n s u) (hd : depth < n) :
    GivesUp (evaluateWithin depth s) u := by
  induction h generalizing depth with
  | one s u =>
    obtain rfl : depth = 0 := by omega
    exact givesUp_zero s u
  | call hc _ ih =>
    cases depth with
    | zero => exact givesUp_zero _ _
    | succ depth => exact hc.givesUp (ih (Nat.lt_of_succ_lt_succ hd))

/-- Nothing but nested evaluations makes an evaluation give up. -/
theorem nests_of_givesUp {depth : Nat} (h : GivesUp (evaluateWithin depth s) u) :
    Nests (depth / 2 + 1) s u := by
  induction depth using Nat.strongRecOn generalizing s u with
  | _ depth ih =>
    match depth with
    | 0 | 1 => exact .one s u
    | depth + 2 =>
      obtain ⟨t, v, hc, h⟩ := exists_call h
      rw [Nat.add_div_right depth Nat.two_pos]
      exact .call hc (ih depth (by omega) h)

/-- Over variables of which the names begin with letters, no more evaluations of a padded text nest
than its longest run of signs is long, and eleven more. -/
theorem Nests.le (hl : Lettered u.names) {n : Nat} (h : Nests n (pad s) u) :
    n ≤ signRun s + 11 := by
  by_contra hn
  exact evaluateWithin_ne_tooDeep hl (Nat.lt_succ_self (signRun s + 10)) (h.givesUp (by omega))

end Worksheet.Expression
