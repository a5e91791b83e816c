import Worksheet.Proofs.Expression.Pending

/-! # Depth

A chain takes two levels and takes a hurdle away from every operand that is reached: its operator
is not pending there any more. A sign takes one level. So nothing but runs of signs nests deeply,
whatever the operators of a text and their order, also where the text is malformed.
-/
namespace Worksheet.Expression
open Text Series

section InDepth
variable {α β γ : Type} {I : Variables α → Prop} {Q : Prop}

/-- A computation that does not give up because of its depth. -/
def InDepth (I : Variables α → Prop) (m : Evaluation α β) : Prop :=
  ∀ vars, I vars → (m.run.run vars).1 ≠ .error .tooDeep

namespace InDepth

theorem pure (b : β) : InDepth I (Pure.pure b) := fun _ _ => nofun

theorem bind {m : Evaluation α β} {f : β → Evaluation α γ} (hm : InDepth I m)
    (hs : Ensures I m Q) (hf : Q → ∀ b, InDepth I (f b)) : InDepth I (m >>= f) := by
  intro vars hv he
  rcases bind_eq_error.mp he with he | ⟨b, after, hr, he⟩
  · exact hm vars hv he
  · obtain ⟨hQ, ha⟩ := hs vars b after hv hr
    exact hf hQ b after ha he

theorem neg [Arithmetic α] {m : Evaluation α α} (hm : InDepth I m) :
    InDepth I (do return -(← m) : Evaluation α α) :=
  fun vars hv he => hm vars hv (bind_pure_eq_error.mp he)

theorem inOrder [Arithmetic α] {x y : Evaluation α α} (op : BinaryOp) (hx : InDepth I x)
    (hs : Ensures I x Q) (hy : Q → InDepth I y) : InDepth I (op.inOrder x y) := by
  exact hx.bind hs fun hQ _ vars hv he => hy hQ vars hv (bind_pure_eq_error.mp he)

end InDepth

variable [Arithmetic α]

theorem inDepth_takeStep (step : Step) (name term : Text) :
    InDepth I (takeStep (α := α) step name term) := by
  intro vars _
  rw [run_takeStep]
  cases vars.get? (trim name) <;> simp

theorem inDepth_lookUp (term e : Text) : InDepth I (lookUp (α := α) term e) := by
  intro vars _
  rw [run_lookUp]
  cases vars.get? term with
  | some v => exact nofun
  | none =>
    simp only [run_numberOf]
    split
    · exact nofun
    · cases Numeral.ofText? term <;> simp

end InDepth

variable {α : Type} [Arithmetic α] {names : List Text} {hurdles : List (Option BinaryOp)}
  {k depth : Nat} {op : BinaryOp} {s u v : Text}

/-- A text that is not split takes one level more than it has signs in front. -/
theorem inDepth_leaf {I : Variables α → Prop} (hs : split? s = none)
    (hd : leadingSigns (chunks s) < depth) : InDepth I (evaluateWithin (α := α) depth s) := by
  induction depth generalizing s with
  | zero => exact absurd hd (Nat.not_lt_zero _)
  | succ depth ih =>
    rw [evaluateWithin_leaf hs]
    cases ho : Operand.ofTerm (trim s) with
    | negated rest =>
      obtain ⟨hterm, hne⟩ := eq_of_ofTerm_negated ho
      have hlead := (alike_trim s).leadingSigns_eq
      rw [hterm, leadingSigns_minus (allows_minus_of_ne hne)] at hlead
      exact (ih (split?_of_negated hs ho) (by omega)).neg
    | stepped step name => exact inDepth_takeStep step name _
    | plain text => exact inDepth_lookUp text s

/-- Texts that meet none but the given hurdles, and no longer run of signs. -/
structure Within (hurdles : List (Option BinaryOp)) (k : Nat) (s : Text) : Prop where
  meets : ∀ h, Meets h s → h ∈ hurdles
  signs : signRun s ≤ k

namespace Within

theorem left (h : Within hurdles k s) (hs : split? s = some ⟨op, u, v⟩) : Within hurdles k u where
  meets hurdle hu := h.meets hurdle (hu.of_left hs)
  signs := by
    have hle := signRun_le_left (split?_allows hs)
    rw [← split?_eq hs] at hle
    exact Nat.le_trans hle h.signs

theorem right (h : Within hurdles k s) (hs : split? s = some ⟨op, u, v⟩)
    (hb : ∀ o, o ≠ .minus → ¬ Begins o u) : Within hurdles k v where
  meets hurdle hv := h.meets hurdle (hv.of_right hs hb)
  signs := by
    have hle := signRun_le_right (split?_allows hs)
    rw [← split?_eq hs] at hle
    exact Nat.le_trans hle h.signs

theorem erase (h : Within hurdles k s) {hurdle : Option BinaryOp} (hs : ¬ Meets hurdle s) :
    Within (hurdles.erase hurdle) k s where
  meets other ho := by
    refine (List.mem_erase_of_ne ?_).mpr (h.meets other ho)
    rintro rfl
    exact hs ho
  signs := h.signs

end Within

/-- Along a chain of links a chain is evaluated in depth if its operands are. A right half is only
reached when all leaves of the left one are known. -/
theorem inDepth_chain (Link Piece : Text → Prop)
    (piece : ∀ {t}, Piece t → InDepth (Defines names) (evaluateWithin (α := α) depth t))
    (stop : ∀ {t}, Link t → (∀ p, split? t = some p → p.op ≠ op) → Piece t)
    (fromRight : op.grouping = .fromRight → ∀ {t u v}, Link t → split? t = some ⟨op, u, v⟩ →
      Piece u ∧ (Known names u → Link v))
    (fromLeft : op.grouping = .fromLeft → ∀ {t u v}, Link t → split? t = some ⟨op, u, v⟩ →
      Link u ∧ (Known names u → Piece v))
    (ha : Airy s) (hs : Link s) :
    InDepth (Defines names) (chainValue op (operands op s) (evaluateWithin (α := α) depth)) := by
  induction hn : s.length using Nat.strongRecOn generalizing s with
  | _ n ih =>
    by_cases hsplit : ∃ u v, split? s = some ⟨op, u, v⟩
    · obtain ⟨u, v, hsplit⟩ := hsplit
      obtain ⟨hul, hvl⟩ := length_lt_of_split? hsplit
      rw [hn] at hul hvl
      obtain ⟨hua, hva⟩ := ha.of_split hsplit
      cases hg : op.grouping with
      | fromRight =>
        obtain ⟨hu, hv⟩ := fromRight hg hs hsplit
        rw [chainValue_fromRight _ hsplit hg]
        exact (piece hu).inOrder op (ensures_known depth hua) fun hk =>
          ih v.length hvl hva (hv hk) rfl
      | fromLeft =>
        obtain ⟨hu, hv⟩ := fromLeft hg hs hsplit
        rw [chainValue_fromLeft _ hsplit hg]
        exact (ih u.length hul hua hu rfl).inOrder op (ensures_known_chain op depth hua) fun hk =>
          piece (hv hk)
    · have hself : ∀ p, split? s = some p → p.op ≠ op := by
        rintro p hp rfl
        exact hsplit ⟨p.left, p.right, hp⟩
      rw [chainValue_self _ hself]
      exact piece (stop hs hself)

theorem slash_of_pending_looser (hs : split? s = some ⟨op, u, v⟩) (hg : op.grouping = .fromLeft)
    (h : ¬ ∀ o : BinaryOp, o.level < op.level → ¬ Pending o s) :
    op = .slash ∧ Pending .minus s := by
  simp only [not_forall, not_not] at h
  obtain ⟨o, ho, hp⟩ := h
  have hnone := splitAt_eq_none_of_lt hs ho
  cases hgo : o.grouping with
  | fromRight => exact absurd hnone ((pending_fromRight hgo).mp hp)
  | fromLeft =>
    cases op <;> cases o <;> simp [BinaryOp.level, BinaryOp.grouping] at ho hg hgo
    exact ⟨rfl, hp⟩

section Split

variable (hl : Lettered names) (ha : Airy s) (hw : Within hurdles k s)
include hl ha hw

theorem inDepth_fromRight (hs : split? s = some ⟨op, u, v⟩) (hg : op.grouping = .fromRight)
    (piece : ∀ {t}, Airy t → Within (hurdles.erase (some op)) k t →
      InDepth (Defines names) (evaluateWithin (α := α) depth t)) :
    InDepth (Defines names) (chainValue op (operands op s) (evaluateWithin (α := α) depth)) := by
  have hnot : ∀ {t : Text}, splitAt op t = none → ¬ Meets (some op) t := fun h hp =>
    (pending_fromRight hg).mp hp h
  refine inDepth_chain
    (fun t => Airy t ∧ Within hurdles k t ∧ ∀ o : BinaryOp, o.level < op.level → splitAt o t = none)
    (fun t => Airy t ∧ Within (hurdles.erase (some op)) k t)
    (fun ⟨ha, hw⟩ => piece ha hw) ?stop (fun _ => ?right) (fun h => ?left) ha
    ⟨ha, hw, fun o ho => splitAt_eq_none_of_lt hs ho⟩
  case stop =>
    rintro t ⟨hat, hwt, hloose⟩ hself
    exact ⟨hat, hwt.erase (hnot (splitAt_eq_none_of_ne hloose hself))⟩
  case right =>
    rintro t u v ⟨hat, hwt, hloose⟩ hst
    obtain ⟨hau, hav⟩ := hat.of_split hst
    have hu : splitAt op u = none := by
      rw [splitAt, hg]
      exact splitFirst_eq_none (not_mem_left_of_split hst hg)
    refine ⟨⟨hau, (hwt.left hst).erase (hnot hu)⟩, fun hk => ⟨hav, ?_, fun o ho => ?_⟩⟩
    · exact hwt.right hst fun o ho => hk.not_begins hl ho
    · exact splitAt_right_eq_none hst (fun o ho => hk.not_begins hl ho) (hloose o ho)
  case left =>
    rw [hg] at h
    cases h

/-- No operand of a chain that is grouped from the left meets a hurdle, if right halves do not and
an operand does not that ends the chain. -/
theorem inDepth_fromLeft (hurdle : Option BinaryOp) (closed : List BinaryOp)
    (hs : split? s = some ⟨op, u, v⟩) (hg : op.grouping = .fromLeft)
    (hclosed : ∀ o ∈ closed, ¬ Pending o s)
    (hright : ∀ {t}, op ∉ operatorsBehind false (chunks t) → ¬ Meets hurdle t)
    (hstop : ∀ {t}, isBlank (last (chunks t)) = false → (∀ o ∈ closed, ¬ Pending o t) →
      (∀ p, split? t = some p → p.op ≠ op) → ¬ Meets hurdle t)
    (piece : ∀ {t}, Airy t → Within (hurdles.erase hurdle) k t →
      InDepth (Defines names) (evaluateWithin (α := α) depth t)) :
    InDepth (Defines names) (chainValue op (operands op s) (evaluateWithin (α := α) depth)) := by
  refine inDepth_chain
    (fun t => Airy t ∧ Within hurdles k t ∧ (∀ o ∈ closed, ¬ Pending o t) ∧
      ((∃ u v, split? t = some ⟨op, u, v⟩) ∨ isBlank (last (chunks t)) = false))
    (fun t => Airy t ∧ Within (hurdles.erase hurdle) k t)
    (fun ⟨ha, hw⟩ => piece ha hw) ?stop (fun h => ?right) (fun _ => ?left) ha
    ⟨ha, hw, hclosed, Or.inl ⟨u, v, hs⟩⟩
  case stop =>
    rintro t ⟨hat, hwt, hct, hlast⟩ hself
    have hlast := hlast.resolve_left fun ⟨u, v, hst⟩ => hself _ hst rfl
    exact ⟨hat, hwt.erase (hstop hlast hct hself)⟩
  case right =>
    rw [hg] at h
    cases h
  case left =>
    rintro t u v ⟨hat, hwt, hct, -⟩ hst
    obtain ⟨hau, hav⟩ := hat.of_split hst
    obtain ⟨hlast, hv⟩ := not_mem_right_of_split hst hg
    refine ⟨⟨hau, hwt.left hst, fun o ho hp => hct o ho ?_, Or.inr hlast⟩, fun hk => ⟨hav, ?_⟩⟩
    · rw [split?_eq hst]
      exact hp.append_right (split?_allows hst)
    · exact (hwt.right hst fun o ho => hk.not_begins hl ho).erase (hright hv)

/-- Every chain takes a hurdle away. -/
theorem inDepth_split (hs : split? s = some ⟨op, u, v⟩)
    (piece : ∀ {hurdle}, Meets hurdle s → ∀ {t}, Airy t → Within (hurdles.erase hurdle) k t →
      InDepth (Defines names) (evaluateWithin (α := α) depth t)) :
    InDepth (Defines names) (chainValue op (operands op s) (evaluateWithin (α := α) depth)) := by
  have hmeets : Meets (some op) s := pending_of_splitAt (by
    rw [splitAt_of_split? hs]
    exact Option.some_ne_none _)
  cases hg : op.grouping with
  | fromRight => exact inDepth_fromRight hl ha hw hs hg (piece hmeets)
  | fromLeft =>
    have hright : ∀ {t : Text}, op ∉ operatorsBehind false (chunks t) → ¬ Pending op t :=
      fun h hp => h ((pending_fromLeft hg).mp hp)
    by_cases hloose : ∀ o : BinaryOp, o.level < op.level → ¬ Pending o s
    · refine inDepth_fromLeft hl ha hw (some op) (BinaryOp.all.filter (·.level < op.level)) hs hg
        ?_ hright ?_ (piece hmeets)
      · intro o ho
        exact hloose o (by simpa using (List.mem_filter.mp ho).2)
      · intro t hlast hct hself hp
        have hnone : splitAt op t = none := by
          refine splitAt_eq_none_of_ne (fun o ho => ?_) hself
          by_contra hsome
          exact hct o (List.mem_filter.mpr ⟨o.mem_all, by simpa using ho⟩)
            (pending_of_splitAt hsome)
        exact Bool.noConfusion (hlast.symm.trans (hp.trailing hnone).isBlank_last)
    · -- The minuses between the slashes are pending, and wait for the end of the text.
      obtain ⟨rfl, hminus⟩ : op = .slash ∧ Pending .minus s := slash_of_pending_looser hs hg hloose
      have hnone : Meets none s :=
        ⟨hminus, hmeets, (hminus.minus_of_split hs).resolve_left nofun⟩
      have hplus : ¬ Pending .plus s := fun hp =>
        (pending_fromRight rfl).mp hp (splitAt_eq_none_of_lt hs (by decide))
      refine inDepth_fromLeft hl ha hw none [.plus] hs hg (by simpa using hplus)
        (fun h hp => hright h hp.2.1) (fun hlast hct _ hp => ?_) (piece hnone)
      rcases hp.2.2 with ht | hp
      · exact Bool.noConfusion (hlast.symm.trans ht.isBlank_last)
      · exact hct .plus (by simp) hp

end Split

/-- Two levels for each hurdle and one for each sign of a run are enough. -/
theorem inDepth_evaluateWithin (hl : Lettered names) (ha : Airy s) (hw : Within hurdles k s)
    (hd : 2 * hurdles.length + k < depth) :
    InDepth (Defines names) (evaluateWithin (α := α) depth s) := by
  induction depth using Nat.strongRecOn generalizing hurdles s with
  | _ depth ih =>
    cases hs : split? s with
    | none =>
      have hlead := leadingSigns_le_longestRun (chunks s)
      have hsigns : longestRun (chunks s) ≤ k := hw.signs
      exact inDepth_leaf hs (by omega)
    | some p =>
      have hmeets : Meets (some p.op) s := pending_of_splitAt (by
        rw [splitAt_of_split? hs]
        exact Option.some_ne_none _)
      have hpos := List.length_pos_of_mem (hw.meets _ hmeets)
      obtain ⟨inner, rfl⟩ : ∃ inner, depth = inner + 2 := ⟨depth - 2, by omega⟩
      have hdepth : evaluateWithin (α := α) (inner + 2) s =
          chainValue p.op (operands p.op s) (evaluateWithin inner) := by
        rw [evaluateWithin, hs]
      rw [hdepth]
      refine inDepth_split hl ha hw hs fun hm t hat hwt => ih inner (by omega) hat hwt ?_
      have hlen := List.length_erase_of_mem (hw.meets _ hm)
      have hpos := List.length_pos_of_mem (hw.meets _ hm)
      omega

def allHurdles : List (Option BinaryOp) := none :: BinaryOp.all.map some

theorem within_allHurdles (s : Text) : Within allHurdles (signRun s) s where
  meets h _ := by
    cases h with
    | none => exact List.mem_cons_self
    | some op => exact List.mem_cons_of_mem _ (List.mem_map_of_mem op.mem_all)
  signs := Nat.le_refl _

/-- Over variables of which the names begin with letters, a padded text is evaluated within as many
levels as its longest run of signs is long, and eleven more. -/
theorem evaluateWithin_ne_tooDeep {vars : Variables α} (hl : Lettered vars.names) {s : Text}
    (hd : signRun s + 10 < depth) :
    ((evaluateWithin depth (pad s)).run.run vars).1 ≠ .error .tooDeep := by
  have hrun : signRun (pad s) = signRun s := (alike_pad s).signRun_eq
  refine inDepth_evaluateWithin hl (airy_pad s) (within_allHurdles (pad s)) ?_ vars fun _ => Iff.rfl
  rw [hrun]
  change 2 * 5 + signRun s < depth
  omega

/-- The evaluation of a padded text ends within so many levels: all names begin with letters and no
run of unary minuses is too long, or the evaluation is seen not to give up. -/
def EndsWithin (depth : Nat) (s : Text) (vars : Variables α) : Prop :=
  (Lettered vars.names ∧ signRun s + 10 < depth) ∨
    ((evaluateWithin depth (pad s)).run.run vars).1 ≠ .error .tooDeep

theorem EndsWithin.ne_tooDeep {vars : Variables α} (h : EndsWithin depth s vars) :
    ((evaluateWithin depth (pad s)).run.run vars).1 ≠ .error .tooDeep :=
  h.elim (fun h => evaluateWithin_ne_tooDeep h.1 h.2) id

end Worksheet.Expression
