import Worksheet.Proofs.Expression.Leaf
import Worksheet.Proofs.Expression.Splits

/-! # Reading phrases

A text that spells a phrase is split at the loosest operator of the phrase, although the signs of
the phrase are operators of the text too. Its evaluation is therefore that of the phrase grouped by
splitting.
-/
namespace Worksheet.Expression
open Text Series

theorem Spacing.isBlank_eq_false {ts : List Token} {s : Text} (h : Spacing ts s) (hne : ts ≠ []) :
    isBlank s = false := by
  cases h with
  | nil => exact absurd rfl hne
  | @cons b s t => simp [t.not_isBlank]

theorem Atom.isOperator_eq_false (a : Atom) : ∀ t ∈ a.tokens, t.isOperator = false := by
  rcases a with l | x | ⟨⟨d, _ | _⟩, x⟩ <;> simp [Atom.tokens, Token.isOperator]

theorem Atom.tokens_ne_nil (a : Atom) : a.tokens ≠ [] := by
  rcases a with l | x | ⟨⟨d, _ | _⟩, x⟩ <;> simp [Atom.tokens]

/-- What the chunks of a text show of the phrase that it spells, given the operators of the phrase:
the other operators of the text are signs. -/
structure Shape (ops : List BinaryOp) (s : Text) : Prop where
  signs_minus : ∀ op ∈ operatorsBehind true (chunks s), op = .minus
  binary_eq : operatorsBehind false (chunks s) = ops
  not_blank_last : isBlank (last (chunks s)) = false

section Shape
variable {ops ops' : List BinaryOp} {op : BinaryOp} {s u v : Text}

theorem Shape.mem_operators (h : Shape ops s) (hop : op ∈ operators (chunks s)) :
    op = .minus ∨ op ∈ ops := by
  rcases mem_operators_iff.mp hop with hop | hop
  · exact Or.inl (h.signs_minus op hop)
  · rw [h.binary_eq] at hop
    exact Or.inr hop

theorem Shape.attach (hu : Shape ops u) (hv : Shape ops' v)
    (ha : op.allows u.getLast? v.head? = true) :
    Shape (ops ++ op :: ops') (u ++ op.char :: v) := by
  have hcut := chunks_append_operator ha
  refine ⟨?_, ?_, ?_⟩
  · intro o ho
    rw [hcut, operatorsBehind_attach, hu.not_blank_last] at ho
    rcases List.mem_append.mp ho with ho | ho
    · exact hu.signs_minus o (by simpa using ho)
    · exact hv.signs_minus o ho
  · rw [hcut, operatorsBehind_attach, hu.binary_eq, hv.binary_eq, hu.not_blank_last]
    simp
  · rw [hcut, last_attach, hv.not_blank_last]

theorem Shape.minus {b : Text} (hb : isBlank b = true) (hs : Shape ops s)
    (ha : BinaryOp.minus.allows b.getLast? s.head? = true) :
    Shape ops (b ++ BinaryOp.minus.char :: s) := by
  have hq : chunks b = single b := quiet_of_isBlank hb
  have hcut := chunks_append_operator ha
  rw [hq] at hcut
  refine ⟨?_, ?_, ?_⟩
  · intro op hop
    rw [hcut, operatorsBehind_attach, operatorsBehind_single, last_single, hb] at hop
    rcases List.mem_cons.mp hop with rfl | hop
    · rfl
    · exact hs.signs_minus op hop
  · rw [hcut, operatorsBehind_attach, operatorsBehind_single, last_single, hb, hs.binary_eq]
    rfl
  · rw [hcut, last_attach, hs.not_blank_last]

theorem shape_of_quiet (hq : Quiet s) (hb : isBlank s = false) : Shape [] s := by
  refine ⟨?_, ?_, ?_⟩
  · rw [hq]
    exact nofun
  · rw [hq]
    rfl
  · rw [hq, last_single, hb]

theorem shape_signed {g : Signed} (h : Spacing g.tokens s) : Shape [] s := by
  obtain ⟨n, a⟩ := g
  induction n generalizing s with
  | zero =>
    exact shape_of_quiet (h.quiet a.isOperator_eq_false) (h.isBlank_eq_false a.tokens_ne_nil)
  | succ n ih =>
    have h : Spacing ([] ++ .operator .minus :: Signed.tokens ⟨n, a⟩) s := h
    obtain ⟨u, v, rfl, ha, hu, hv⟩ := h.exists_of_operator
    exact (ih hv).minus (Spacing.nil_iff.mp hu) ha

theorem shape_phrase {p : Phrase} (h : Spacing (Phrase.tokens p) s) : Shape (operators p) s := by
  induction p using attach_induction generalizing s with
  | single g =>
    rw [Phrase.tokens_single] at h
    exact shape_signed h
  | attach g op p ih =>
    rw [Phrase.tokens_attach, Phrase.tokens_single] at h
    obtain ⟨u, v, rfl, ha, hu, hv⟩ := h.exists_of_operator
    have hs := (shape_signed hu).attach (ih hv) ha
    rw [operators_attach, operators_single]
    exact hs

theorem Shape.splitAt_eq_none (h : Shape ops s) (hop : op ∉ ops) : splitAt op s = none := by
  rw [splitAt]
  cases hg : op.grouping with
  | fromRight =>
    refine splitFirst_eq_none fun hmem => ?_
    rcases h.mem_operators hmem with rfl | hmem
    · cases hg
    · exact hop hmem
  | fromLeft =>
    refine splitLast_eq_none fun hmem => hop ?_
    rwa [h.binary_eq] at hmem

theorem Shape.split?_eq_none (h : Shape [] s) : split? s = none :=
  Expression.split?_eq_none fun _ => h.splitAt_eq_none nofun

theorem Shape.splitLast_append (hu : isBlank (last (chunks u)) = false) (hv : Shape ops' v)
    (ha : op.allows u.getLast? v.head? = true) (hl : op ∉ ops') :
    splitLast op (u ++ op.char :: v) = some (u, v) := by
  have hmem : op ∉ operatorsBehind false (chunks v) := by rwa [hv.binary_eq]
  have hend : ¬ Trailing op v := fun h =>
    Bool.noConfusion (hv.not_blank_last.symm.trans h.isBlank_last)
  exact Expression.splitLast_append ha hu (isBlank_eq_false_of_last hv.not_blank_last) hend hmem

/-- A text is split at the outermost of the occurrences that its phrase has. -/
theorem Shape.splitAt_append (hu : Shape ops u) (hv : Shape ops' v)
    (ha : op.allows u.getLast? v.head? = true) (hr : op.grouping = .fromRight → op ∉ ops)
    (hl : op.grouping = .fromLeft → op ∉ ops') : splitAt op (u ++ op.char :: v) = some (u, v) := by
  rw [splitAt]
  cases hg : op.grouping with
  | fromRight =>
    have hmem : op ∉ operators (chunks u) := by
      intro hmem
      rcases hu.mem_operators hmem with rfl | hmem
      · cases hg
      · exact hr hg hmem
    exact splitFirst_append ha hmem (isBlank_eq_false_of_last hu.not_blank_last)
      (isBlank_eq_false_of_last hv.not_blank_last)
  | fromLeft => exact hv.splitLast_append hu.not_blank_last ha (hl hg)

end Shape

section Halves
variable {looser tighter : List BinaryOp} {op : BinaryOp} {p : Phrase} {s : Text}

theorem not_mem_of_looser {ops : List BinaryOp} (hall : BinaryOp.all = looser ++ ops)
    {o : BinaryOp} (ho : o ∈ looser) : o ∉ ops := by
  have hnodup : (looser ++ ops).Nodup := hall ▸ by decide
  exact fun h => (List.nodup_append.mp hnodup).2.2 o ho o h rfl

theorem mem_tighter (hp : ∀ o ∈ operators p, o ∈ op :: tighter) (hop : op ∉ operators p) :
    ∀ o ∈ operators p, o ∈ tighter := by
  intro o ho
  rcases List.mem_cons.mp (hp o ho) with rfl | h
  · exact absurd ho hop
  · exact h

/-- The loosest operator of a phrase divides the phrase where the text is split. -/
theorem exists_halves (hall : BinaryOp.all = looser ++ op :: tighter)
    (h : Spacing (Phrase.tokens p) s) (hp : ∀ o ∈ operators p, o ∈ op :: tighter)
    (hop : op ∈ operators p) :
    ∃ q r u v, p = attach q op r ∧ split? s = some ⟨op, u, v⟩ ∧
      Spacing (Phrase.tokens q) u ∧ Spacing (Phrase.tokens r) v ∧
      (op.grouping = .fromRight → op ∉ operators q) ∧
      (op.grouping = .fromLeft → op ∉ operators r) := by
  obtain ⟨q, r, rfl, hr, hl⟩ : ∃ q r, p = attach q op r ∧
      (op.grouping = .fromRight → op ∉ operators q) ∧
      (op.grouping = .fromLeft → op ∉ operators r) := by
    cases hg : op.grouping with
    | fromRight =>
      obtain ⟨q, r, rfl, hq⟩ := exists_first hop
      exact ⟨q, r, rfl, fun _ => hq, nofun⟩
    | fromLeft =>
      obtain ⟨q, r, rfl, hr⟩ := exists_last hop
      exact ⟨q, r, rfl, nofun, fun _ => hr⟩
  have hloose : ∀ o ∈ looser, splitAt o s = none := fun o ho =>
    (shape_phrase h).splitAt_eq_none fun hmem => not_mem_of_looser hall ho (hp o hmem)
  rw [Phrase.tokens_attach] at h
  obtain ⟨u, v, rfl, ha, hu, hv⟩ := h.exists_of_operator
  have hsplit := (shape_phrase hu).splitAt_append (shape_phrase hv) ha hr hl
  exact ⟨q, r, u, v, rfl, split?_eq_some hall hloose hsplit, hu, hv, hr, hl⟩

end Halves

section Evaluate
variable {α : Type} [Arithmetic α] {deep : Prop}

def Phrase.meaning (ops : List BinaryOp) (p : Phrase) : Meaning α α :=
  grouped BinaryOp.inOrder ops (map (fun g => g.tree.evaluate shadowed) p)

theorem evaluateWithin_signed {g : Signed} {s : Text} (h : Spacing g.tokens s) (depth : Nat) :
    Matches (depth ≤ g.signs) (evaluateWithin (α := α) depth s) (g.tree.evaluate shadowed) := by
  obtain ⟨n, a⟩ := g
  induction n generalizing s depth with
  | zero =>
    have hs : split? s = none := (shape_signed h).split?_eq_none
    cases depth with
    | zero => exact Matches.of_tooDeep (Nat.le_refl 0) _
    | succ depth => exact evaluateWithin_atom h hs depth
  | succ n ih =>
    have hs : split? s = none := (shape_signed h).split?_eq_none
    cases depth with
    | zero => exact Matches.of_tooDeep (Nat.zero_le _) _
    | succ depth =>
      have hminus : Spacing (.operator .minus :: Signed.tokens ⟨n, a⟩) s := h
      obtain ⟨r, hr, hd⟩ := evaluateWithin_minus (α := α) hminus hs
      rw [hd depth]
      exact ((ih depth hr).mono Nat.succ_le_succ).bind fun b => Matches.pure _

/-- If operands are evaluated as phrases of the tighter operators, then so are chains. -/
theorem chainValue_phrase {looser tighter : List BinaryOp} {op : BinaryOp}
    (hall : BinaryOp.all = looser ++ op :: tighter) {k : Nat} {value : Text → Evaluation α α}
    (hvalue : ∀ {p : Phrase} {s : Text}, Spacing (Phrase.tokens p) s →
      (∀ o ∈ operators p, o ∈ tighter) → (∀ g ∈ items p, g.signs ≤ k) →
      Matches deep (value s) (Phrase.meaning tighter p))
    {p : Phrase} {s : Text} (h : Spacing (Phrase.tokens p) s)
    (hp : ∀ o ∈ operators p, o ∈ op :: tighter) (hk : ∀ g ∈ items p, g.signs ≤ k) :
    Matches deep (chainValue op (operands op s) value) (Phrase.meaning (op :: tighter) p) := by
  induction hn : (operators p).length using Nat.strongRecOn generalizing p s with
  | _ n ih =>
    by_cases hop : op ∈ operators p
    · obtain ⟨q, r, u, v, rfl, hsplit, hu, hv, hr, hl⟩ := exists_halves hall h hp hop
      have hpq : ∀ o ∈ operators q, o ∈ op :: tighter := fun o ho => hp o (by simp [ho])
      have hpr : ∀ o ∈ operators r, o ∈ op :: tighter := fun o ho => hp o (by simp [ho])
      have hkq : ∀ g ∈ items q, g.signs ≤ k := fun g hg => hk g (by simp [hg])
      have hkr : ∀ g ∈ items r, g.signs ≤ k := fun g hg => hk g (by simp [hg])
      rw [operators_attach, List.length_append, List.length_cons] at hn
      rw [Phrase.meaning, map_attach]
      cases hg : op.grouping with
      | fromRight =>
        have hleft := hvalue hu (mem_tighter hpq (hr hg)) hkq
        have hright := ih (operators r).length (by omega) hv hpr hkr rfl
        rw [chainValue_fromRight value hsplit hg,
          grouped_attach_fromRight hg (by simpa using hr hg)]
        exact hleft.inOrder op hright
      | fromLeft =>
        have hleft := ih (operators q).length (by omega) hu hpq hkq rfl
        have hright := hvalue hv (mem_tighter hpr (hl hg)) hkr
        rw [chainValue_fromLeft value hsplit hg,
          grouped_attach_fromLeft hg _ (by simpa using hl hg)]
        exact hleft.inOrder op hright
    · have hself : ∀ c, split? s = some c → c.op ≠ op := by
        rintro c hc rfl
        have hnone := (shape_phrase h).splitAt_eq_none hop
        rw [splitAt_of_split? hc] at hnone
        cases hnone
      rw [chainValue_self value hself, Phrase.meaning, grouped_cons_of_not_mem (by simpa using hop)]
      exact hvalue h (mem_tighter hp hop) hk

/-- A text is evaluated as the phrase that it spells, split at the operators that may occur. -/
theorem evaluateWithin_phrase {looser ops : List BinaryOp} (hall : BinaryOp.all = looser ++ ops)
    {k : Nat} {p : Phrase} {s : Text} (h : Spacing (Phrase.tokens p) s)
    (hp : ∀ o ∈ operators p, o ∈ ops) (hk : ∀ g ∈ items p, g.signs ≤ k) (depth : Nat) :
    Matches (depth ≤ k + 2 * ops.length) (evaluateWithin (α := α) depth s)
      (Phrase.meaning ops p) := by
  induction ops generalizing looser p s depth with
  | nil =>
    obtain ⟨g, rfl⟩ : ∃ g, p = single g := by
      have hnil : operators p = [] := List.eq_nil_iff_forall_not_mem.mpr fun o ho =>
        List.not_mem_nil (hp o ho)
      exact ⟨p.1, Prod.ext rfl (List.map_eq_nil_iff.mp hnil)⟩
    rw [Phrase.tokens_single] at h
    rw [Phrase.meaning, map_single, grouped_single]
    have hg := hk g List.mem_cons_self
    exact (evaluateWithin_signed h depth).mono fun hd => Nat.le_trans hd hg
  | cons op tighter ih =>
    have hall' : BinaryOp.all = (looser ++ [op]) ++ tighter := by simpa using hall
    by_cases hop : op ∈ operators p
    · obtain ⟨q, r, u, v, -, hsplit, -⟩ := exists_halves hall h hp hop
      match depth with
      | 0 => exact Matches.of_tooDeep (Nat.zero_le _) _
      | 1 =>
        have hd : evaluateWithin (α := α) 1 s = throw .tooDeep := by
          rw [evaluateWithin, hsplit]
        rw [hd]
        refine Matches.of_tooDeep ?_ _
        rw [List.length_cons]
        omega
      | inner + 2 =>
        have hd : evaluateWithin (α := α) (inner + 2) s =
            chainValue op (operands op s) (evaluateWithin inner) := by
          rw [evaluateWithin, hsplit]
        rw [hd]
        refine chainValue_phrase hall (fun h hp hk => ?_) h hp hk
        refine (ih hall' h hp hk inner).mono fun hle => ?_
        rw [List.length_cons]
        omega
    · rw [Phrase.meaning, grouped_cons_of_not_mem (by simpa using hop)]
      refine (ih hall' h (mem_tighter hp hop) hk depth).mono fun hle => ?_
      rw [List.length_cons]
      omega

theorem Phrase.meaning_eq (p : Phrase) :
    Phrase.meaning (α := α) BinaryOp.all p = (Phrase.tree p).evaluate shadowed := by
  rw [Phrase.tree, map_grouped (Tree.evaluate_binary shadowed), map_map]
  rfl

theorem evaluate_phrase {k : Nat} {p : Phrase} {s : Text} (h : Spacing (Phrase.tokens p) s)
    (hk : ∀ g ∈ items p, g.signs ≤ k) (vars : Variables α) (depth : Nat) :
    SameOutcome (depth < k + 9) (evaluate (pad s) vars depth)
      ((Phrase.meaning BinaryOp.all p).run.run vars) := by
  have hall : BinaryOp.all = [] ++ BinaryOp.all := rfl
  have hpad : Spacing (Phrase.tokens p) (pad s) := h.of_alike (alike_pad s).symm
  have hmatches :=
    evaluateWithin_phrase (α := α) hall hpad (fun o _ => o.mem_all) hk depth
  exact hmatches.mono Nat.lt_succ_of_le vars

end Evaluate

end Worksheet.Expression
