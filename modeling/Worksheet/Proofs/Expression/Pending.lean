import Worksheet.Proofs.Expression.Known
import Worksheet.Proofs.Expression.Signs

/-! # Pending operators

An operator is pending in a text when it may still give a split, now or further down. Halves have no
other pending operators than the text that is split, unless the left half begins with an operator;
then that half has no value, and the right one is never reached.
-/
namespace Worksheet.Expression
open Text Series

variable {op o : BinaryOp} {s u v x y : Text}

/-- A plus or a star gives a split now or never. A minus or a slash may have to wait until the end
of the text is cut off. -/
def Pending (op : BinaryOp) (s : Text) : Prop :=
  match op.grouping with
  | .fromRight => splitAt op s ≠ none
  | .fromLeft => op ∈ operatorsBehind false (chunks s)

section Pending

theorem pending_fromRight (hg : op.grouping = .fromRight) : Pending op s ↔ splitAt op s ≠ none := by
  rw [Pending, hg]

theorem pending_fromLeft (hg : op.grouping = .fromLeft) :
    Pending op s ↔ op ∈ operatorsBehind false (chunks s) := by
  rw [Pending, hg]

theorem pending_of_splitAt (h : splitAt op s ≠ none) : Pending op s := by
  cases hg : op.grouping with
  | fromRight => exact (pending_fromRight hg).mpr h
  | fromLeft =>
    refine (pending_fromLeft hg).mpr ?_
    by_contra hop
    rw [splitAt, hg] at h
    exact h (splitLast_eq_none hop)

/-- Only an occurrence at the end keeps a pending operator from giving a split. -/
theorem Pending.trailing (h : Pending op s) (hs : splitAt op s = none) : Trailing op s := by
  cases hg : op.grouping with
  | fromRight => exact absurd hs ((pending_fromRight hg).mp h)
  | fromLeft =>
    obtain ⟨q, r, hqr, hq, hr⟩ := exists_last_behind ((pending_fromLeft hg).mp h)
    obtain ⟨x, y, rfl, ha, rfl, rfl⟩ := exists_of_chunks_eq_attach hqr
    by_cases hy : isBlank y = true
    · exact ⟨x, y, rfl, ha, hy⟩
    · by_contra hend
      have hyend : ¬ Trailing op y := fun ht => hend (ht.append_left ha)
      rw [splitAt, hg] at hs
      rw [splitLast_append ha hq (by simpa using hy) hyend hr] at hs
      cases hs

theorem splitAt_append_left (ha : o.allows u.getLast? v.head? = true)
    (hu : op.grouping = .fromRight → op ∉ operators (chunks u) ∧ op ≠ o)
    (h : splitAt op v = some (x, y)) :
    splitAt op (u ++ o.char :: v) = some (u ++ o.char :: x, y) := by
  have hop := splitAt_allows h
  obtain rfl := splitAt_eq h
  have hx : o.allows u.getLast? x.head? = true :=
    BinaryOp.allows_mono ha (fun _ hc => hc) fun c hc => List.mem_head?_append_of_mem_head? hc
  have hcut := chunks_append_operator hx
  rw [splitAt] at h ⊢
  cases hg : op.grouping with
  | fromRight =>
    rw [hg] at h
    obtain ⟨-, -, hxop, hxb, hyb⟩ := splitFirst_eq_some_iff.mp h
    refine splitFirst_eq_some_iff.mpr ⟨by simp, allows_append_left ha hop, ?_, by simp [hxb], hyb⟩
    rw [hcut, operators_attach]
    simpa [hxop] using hu hg
  | fromLeft =>
    rw [hg] at h
    obtain ⟨-, -, hxb, hyop, hyb, hend⟩ := splitLast_eq_some_iff.mp h
    refine splitLast_eq_some_iff.mpr ⟨by simp, allows_append_left ha hop, ?_, hyop, hyb, hend⟩
    rw [hcut, last_attach, hxb]

theorem Pending.append_right (ha : o.allows u.getLast? v.head? = true) (h : Pending op u) :
    Pending op (u ++ o.char :: v) := by
  cases hg : op.grouping with
  | fromLeft =>
    rw [pending_fromLeft hg] at h ⊢
    rw [chunks_append_operator ha, operatorsBehind_attach]
    simp [h]
  | fromRight =>
    rw [pending_fromRight hg] at h ⊢
    obtain ⟨⟨x, y⟩, hxy⟩ := Option.ne_none_iff_exists'.mp h
    have hop := splitAt_allows hxy
    obtain rfl := splitAt_eq hxy
    rw [splitAt, hg] at hxy ⊢
    obtain ⟨-, -, hx, hxb, hyb⟩ := splitFirst_eq_some_iff.mp hxy
    have hwhole : splitFirst op ((x ++ op.char :: y) ++ o.char :: v) = some (x, y ++ o.char :: v) :=
      splitFirst_eq_some_iff.mpr ⟨by simp, allows_append_right ha hop, hx, hxb, by simp [hyb]⟩
    simp only [hwhole]
    exact Option.some_ne_none _

theorem Pending.append_left (ha : o.allows u.getLast? v.head? = true) (hu : isBlank u = false)
    (hb : op.grouping = .fromRight → ¬ Begins op u) (h : Pending op v) :
    Pending op (u ++ o.char :: v) := by
  cases hg : op.grouping with
  | fromLeft =>
    rw [pending_fromLeft hg] at h ⊢
    rw [chunks_append_operator ha, operatorsBehind_attach]
    simp [h]
  | fromRight =>
    rw [pending_fromRight hg] at h ⊢
    by_cases hmem : op ∈ operators (chunks u)
    · obtain ⟨q, r, hqr, hq⟩ := exists_first hmem
      obtain ⟨x, y, rfl, hop, rfl, rfl⟩ := exists_of_chunks_eq_attach hqr
      have hx : isBlank x = false := by
        rw [← Bool.not_eq_true]
        exact fun hx => hb hg (Begins.of_isBlank hx hop)
      have hwhole : splitFirst op ((x ++ op.char :: y) ++ o.char :: v) =
          some (x, y ++ o.char :: v) := by
        refine splitFirst_eq_some_iff.mpr ⟨by simp, allows_append_right ha hop, hq, hx, ?_⟩
        simp [not_isSpace_char]
      simp only [splitAt, hg, hwhole]
      exact Option.some_ne_none _
    · obtain ⟨⟨x, y⟩, hxy⟩ := Option.ne_none_iff_exists'.mp h
      by_cases ho : op = o
      · subst ho
        have hv : isBlank v = false := by
          rw [splitAt_eq hxy]
          simp [not_isSpace_char]
        simp only [splitAt, hg, splitFirst_append ha hmem hu hv]
        exact Option.some_ne_none _
      · rw [splitAt_append_left ha (fun _ => ⟨hmem, ho⟩) hxy]
        exact Option.some_ne_none _

theorem split?_of_negated {rest : Text} (hs : split? s = none)
    (ho : Operand.ofTerm (trim s) = .negated rest) : split? rest = none := by
  obtain ⟨hterm, hne⟩ := eq_of_ofTerm_negated ho
  refine split?_eq_none fun op => ?_
  by_contra hsome
  obtain ⟨⟨x, y⟩, hxy⟩ := Option.ne_none_iff_exists'.mp hsome
  have ha := allows_minus_of_ne hne
  have hu : op.grouping = .fromRight → op ∉ operators (chunks []) ∧ op ≠ .minus := by
    refine fun hg => ⟨List.not_mem_nil, ?_⟩
    rintro rfl
    cases hg
  have hsign := splitAt_append_left (u := []) (o := .minus) ha hu hxy
  have hnone := split?_eq_none_iff.mp (split?_trim_eq_none (trim_trim s).symm hs) op
  rw [hterm] at hnone
  exact Option.some_ne_none _ (hsign.symm.trans hnone)

end Pending

section Meets

theorem not_mem_left_of_split (hs : split? s = some ⟨op, u, v⟩) (hg : op.grouping = .fromRight) :
    op ∉ operators (chunks u) := by
  have h := splitAt_of_split? hs
  rw [splitAt, hg] at h
  exact (splitFirst_eq_some_iff.mp h).2.2.1

theorem not_mem_right_of_split (hs : split? s = some ⟨op, u, v⟩) (hg : op.grouping = .fromLeft) :
    isBlank (last (chunks u)) = false ∧ op ∉ operatorsBehind false (chunks v) := by
  have h := splitAt_of_split? hs
  rw [splitAt, hg] at h
  obtain ⟨-, -, hu, hv, -⟩ := splitLast_eq_some_iff.mp h
  exact ⟨hu, hv⟩

theorem splitAt_right_eq_none (hs : split? s = some ⟨op, u, v⟩)
    (hb : ∀ o, o ≠ .minus → ¬ Begins o u) (ho : splitAt o s = none) : splitAt o v = none := by
  have ha := split?_allows hs
  have hu := (not_isBlank_of_split? hs).1
  rw [split?_eq hs] at ho
  by_contra hne
  cases hg : o.grouping with
  | fromRight =>
    have hpending := ((pending_fromRight hg).mpr hne).append_left ha hu fun _ => hb o fun h => by
      rw [h] at hg
      cases hg
    exact (pending_fromRight hg).mp hpending ho
  | fromLeft =>
    obtain ⟨⟨x, y⟩, hxy⟩ := Option.ne_none_iff_exists'.mp hne
    have hwhole := splitAt_append_left ha (fun h => by rw [hg] at h; cases h) hxy
    exact Option.some_ne_none _ (hwhole.symm.trans ho)

/-- What may still take up levels of an evaluation: a pending operator, and slashes that are cut
before the minuses between them, because the text ends in a minus or is first cut at a plus. -/
def Meets : Option BinaryOp → Text → Prop
  | some op, s => Pending op s
  | none, s => Pending .minus s ∧ Pending .slash s ∧ (Trailing .minus s ∨ Pending .plus s)

/-- Minuses are only passed over for a plus, or because the text ends in a minus. -/
theorem Pending.minus_of_split (hs : split? s = some ⟨op, u, v⟩) (h : Pending .minus s) :
    op = .minus ∨ Trailing .minus s ∨ Pending .plus s := by
  cases op with
  | plus =>
    refine Or.inr (Or.inr (pending_of_splitAt ?_))
    rw [splitAt_of_split? hs]
    exact Option.some_ne_none _
  | minus => exact Or.inl rfl
  | star | slash => exact Or.inr (Or.inl (h.trailing (splitAt_eq_none_of_lt hs (by decide))))

theorem Meets.of_left {h : Option BinaryOp} (hs : split? s = some ⟨op, u, v⟩) (hu : Meets h u) :
    Meets h s := by
  have ha := split?_allows hs
  have hpending : ∀ {o : BinaryOp}, Pending o u → Pending o s := fun ho => by
    rw [split?_eq hs]
    exact ho.append_right ha
  cases h with
  | some o => exact hpending hu
  | none =>
    obtain ⟨hminus, hslash, hend⟩ := hu
    refine ⟨hpending hminus, hpending hslash, ?_⟩
    rcases (hpending hminus).minus_of_split hs with rfl | h
    · have hlast := (not_mem_right_of_split hs rfl).1
      refine Or.inr (hpending (hend.resolve_left fun ht => ?_))
      exact Bool.noConfusion (hlast.symm.trans ht.isBlank_last)
    · exact h

theorem Meets.of_right {h : Option BinaryOp} (hs : split? s = some ⟨op, u, v⟩)
    (hb : ∀ o, o ≠ .minus → ¬ Begins o u) (hv : Meets h v) : Meets h s := by
  have ha := split?_allows hs
  have hu := (not_isBlank_of_split? hs).1
  have hpending : ∀ {o : BinaryOp}, Pending o v → Pending o s := fun {o} ho => by
    rw [split?_eq hs]
    refine ho.append_left ha hu fun hg => hb o ?_
    rintro rfl
    cases hg
  cases h with
  | some o => exact hpending hv
  | none =>
    obtain ⟨hminus, hslash, -⟩ := hv
    refine ⟨hpending hminus, hpending hslash, ?_⟩
    refine ((hpending hminus).minus_of_split hs).resolve_left ?_
    rintro rfl
    exact (not_mem_right_of_split hs rfl).2 hminus

end Meets

end Worksheet.Expression
