import Worksheet.Proofs.Expression.Alike
import Worksheet.Proofs.Expression.Budget
import Worksheet.Proofs.Expression.Depth

/-! # Pasted operands

A name and an operator are put in front of a text, and both are padded together. The text is the
right operand of a plus that is put there. A minus that is put there takes the text for its right
operand only when the text is no sum and no difference; else it takes the first term of the text.
-/
namespace Worksheet.Expression
open Text Series

variable {n s t u v x y : Text} {op o : BinaryOp}

/-- What the padding of a name, an operator and a text comes to, but for white space at the end. -/
def pasted (n : Text) (op : BinaryOp) (s : Text) : Text :=
  (n ++ [' ']) ++ op.char :: (' ' :: layout s)

theorem allows_pasted (n : Text) (op : BinaryOp) (s : Text) :
    op.allows (n ++ [' ']).getLast? (' ' :: s).head? = true := by
  rw [List.getLast?_concat]
  exact allows_space op

section Front

variable (hn : IsName n)
include hn

theorem quiet_name : Quiet n := quiet_of_forall_ne hn.no_operator

theorem quiet_front : Quiet (n ++ [' ']) :=
  (quiet_name hn).append (quiet_of_isBlank isBlank_space) (apart_of_isBlank_right n isBlank_space)

theorem trim_front : trim (n ++ [' ']) = n := (trim_append_right n isBlank_space).trans hn.trimmed

theorem isBlank_front : isBlank (n ++ [' ']) = false := by
  rw [Bool.eq_false_iff]
  intro hb
  have hnil : n = [] := (trim_front hn).symm.trans (trim_eq_nil_iff.mpr hb)
  exact hn.ne_nil hnil

theorem trim_pad_paste (op : BinaryOp) (h : Alike t s) :
    trim (pad (n ++ ' ' :: op.char :: ' ' :: t)) = trim (pasted n op s) := by
  have hs : n ++ ' ' :: op.char :: ' ' :: t = (n ++ [' ']) ++ op.char :: ([' '] ++ t) := by simp
  have ha : op.allows (n ++ [' ']).getLast? ([' '] ++ t).head? = true := allows_pasted n op t
  rw [hs, trim_pad, layout_append_operator ha, layout_of_quiet (quiet_front hn), trim_front hn,
    ((alike_append_left isBlank_space t).trans h).layout_eq]
  rfl

theorem not_mem_front (o : BinaryOp) : o ∉ operators (chunks (n ++ [' '])) := by
  rw [quiet_front hn]
  exact List.not_mem_nil

theorem run_front {α : Type} [Arithmetic α] {depth : Nat} (hd : 0 < depth) (vars : Variables α) :
    (evaluateWithin depth (n ++ [' '])).run.run vars = match vars.get? n with
      | some v => (.ok v, vars)
      | none => (.error (.unknownVariable n (n ++ [' '])), vars) := by
  obtain ⟨depth, rfl⟩ := Nat.exists_eq_add_one.mpr hd
  have hs : split? (n ++ [' ']) = none :=
    split?_eq_none fun op => splitAt_eq_none_of_quiet (quiet_front hn) op
  rw [evaluateWithin_leaf hs, trim_front hn, ofTerm_plain hn.no_operator]
  simp only [run_lookUp]
  cases vars.get? n with
  | some v => rfl
  | none => simp only [run_numberOf, if_pos hn.letter]

theorem run_inOrder_front {α : Type} [Arithmetic α] (op : BinaryOp) {depth : Nat} (hd : 0 < depth)
    (m : Evaluation α α) (vars : Variables α) :
    (op.inOrder (evaluateWithin depth (n ++ [' '])) m).run.run vars = match vars.get? n with
      | some v => Prod.map (Except.map (op.apply v)) id (m.run.run vars)
      | none => (.error (.unknownVariable n (n ++ [' '])), vars) := by
  rw [run_inOrder, run_front hn hd]
  cases vars.get? n <;> rfl

end Front

section Split

theorem trim_text (s : Text) : trim (' ' :: layout s) = trim (pad s) := by
  rw [trim_pad]
  exact trim_append_left isBlank_space (layout s)

theorem alike_text (s : Text) : Alike (' ' :: layout s) s :=
  (alike_append_left isBlank_space _).trans (alike_layout s)

theorem eq_plus_of_level_lt (h : o.level < BinaryOp.minus.level) : o = .plus := by
  cases o with
  | plus => rfl
  | minus | star | slash => exact absurd h (by decide)

theorem split?_pasted_plus (hn : IsName n) (hs : isBlank s = false) :
    split? (pasted n .plus s) = some ⟨.plus, n ++ [' '], ' ' :: layout s⟩ := by
  have hblank : isBlank (' ' :: layout s) = false := (alike_text s).isBlank_eq.trans hs
  exact split?_of_splitAt (fun o ho => absurd ho (Nat.not_lt_zero _))
    (splitFirst_append (allows_pasted n .plus _) (not_mem_front hn _) (isBlank_front hn) hblank)

/-- Behind a text without that operator nothing is split that is not split without the text, if the
operator is not what the other half begins with. -/
theorem splitAt_append_eq_none (ha : o.allows u.getLast? v.head? = true)
    (hg : op.grouping = .fromRight) (hu : op ∉ operators (chunks u)) (ho : op ≠ o)
    (hb : ¬ Begins op v) (hv : splitAt op v = none) : splitAt op (u ++ o.char :: v) = none := by
  rw [splitAt, hg] at hv ⊢
  by_cases hop : op ∈ operators (chunks v)
  · obtain ⟨q, r, hqr, hq⟩ := exists_first hop
    obtain ⟨x, y, rfl, hxy, rfl, rfl⟩ := exists_of_chunks_eq_attach hqr
    have hx : isBlank x ≠ true := fun hx => hb (Begins.of_isBlank hx hxy)
    have hy : isBlank y = true := by
      by_contra hy
      rw [splitFirst_append hxy hq (by simpa using hx) (by simpa using hy)] at hv
      cases hv
    have hux : op ∉ operators (chunks (u ++ o.char :: x)) := by
      have hxa : o.allows u.getLast? x.head? = true :=
        BinaryOp.allows_mono ha (fun _ hc => hc) fun _ hc => List.mem_head?_append_of_mem_head? hc
      rw [chunks_append_operator hxa, operators_attach]
      simp [hu, hq, ho]
    have hwhole := splitFirst_append_eq (allows_append_left ha hxy) hux
    rw [hy, Bool.or_true, if_pos rfl] at hwhole
    simpa using hwhole
  · refine splitFirst_eq_none ?_
    rw [chunks_append_operator ha, operators_attach]
    simp [hu, hop, ho]

theorem split?_pasted_minus (hn : IsName n) (hs : isBlank s = false) (hb : ¬ Begins .plus s)
    (hplus : splitAt .plus s = none) (hminus : .minus ∉ operatorsBehind false (chunks s))
    (hend : ¬ Trailing .minus s) :
    split? (pasted n .minus s) = some ⟨.minus, n ++ [' '], ' ' :: layout s⟩ := by
  have halike := (alike_text s).symm
  have ha := allows_pasted n .minus (layout s)
  have hloose : splitAt .plus (pasted n .minus s) = none :=
    splitAt_append_eq_none ha rfl (not_mem_front hn _) nofun (fun h => hb (halike.symm.begins h))
      (halike.splitAt_eq_none hplus)
  have hlast : isBlank (last (chunks (n ++ [' ']))) = false := by
    rw [quiet_front hn]
    exact isBlank_front hn
  refine split?_of_splitAt (fun o ho => eq_plus_of_level_lt ho ▸ hloose)
    (splitLast_append ha hlast ?_ (fun h => hend (halike.symm.trailing h)) ?_)
  · rw [← halike.isBlank_eq, hs]
  · rwa [← halike.operatorsBehind_eq]

/-- Texts that are read as no sum and no difference, and do not end in a minus. -/
structure SingleTerm (s : Text) : Prop where
  not_additive : ∀ p, split? (pad s) = some p → p.op ≠ .plus ∧ p.op ≠ .minus
  not_trailing : ¬ Trailing .minus s

theorem SingleTerm.of_last (hs : ∀ p ∈ split? (pad s), p.op ≠ .plus ∧ p.op ≠ .minus)
    (hlast : isBlank (last (chunks s)) = false) : SingleTerm s :=
  ⟨fun _ hp => hs _ hp, fun ht => by simp [ht.isBlank_last] at hlast⟩

theorem SingleTerm.split?_pasted (h : SingleTerm s) (hn : IsName n) (hs : isBlank s = false)
    (hb : ¬ Begins .plus s) :
    split? (pasted n .minus s) = some ⟨.minus, n ++ [' '], ' ' :: layout s⟩ := by
  have hplus : splitAt .plus (pad s) = none :=
    splitAt_eq_none_of_ne (fun _ ho => absurd ho (Nat.not_lt_zero _))
      fun p hp => (h.not_additive p hp).1
  have hminus : splitAt .minus (pad s) = none :=
    splitAt_eq_none_of_ne (fun o ho => eq_plus_of_level_lt ho ▸ hplus)
      fun p hp => (h.not_additive p hp).2
  refine split?_pasted_minus hn hs hb ((alike_pad s).splitAt_eq_none hplus) (fun hop => ?_)
    h.not_trailing
  rw [← (alike_pad s).operatorsBehind_eq] at hop
  have htrailing := Pending.trailing ((pending_fromLeft rfl).mpr hop) hminus
  exact h.not_trailing ((alike_pad s).trailing htrailing)

theorem split?_text (hs : split? (pad s) = some ⟨op, u, v⟩) :
    split? (' ' :: layout s) = some ⟨op, ' ' :: layout u ++ [' '], ' ' :: layout v⟩ := by
  have hu : Alike u (' ' :: layout u ++ [' ']) :=
    ((alike_append_right _ isBlank_space).trans (alike_text u)).symm
  have hlayout : ' ' :: layout s = (' ' :: layout u ++ [' ']) ++ op.char :: (' ' :: layout v) := by
    rw [← (alike_pad s).layout_eq, split?_eq hs, layout_append_operator (split?_allows hs)]
    simp
  exact hlayout ▸ hu.split?_eq_some (alike_text v).symm
    (allows_pasted (' ' :: layout u) op (layout v)) hs

theorem trim_pad_halves (hs : split? (pad s) = some ⟨op, u, v⟩) :
    trim (pad u) = trim u ∧ trim (pad v) = trim v := by
  obtain ⟨u', v', hs', hu, hv⟩ := exists_split_of_trim_eq (trim_text s).symm hs
  obtain ⟨-, rfl, rfl⟩ := Split.mk.inj (Option.some.inj ((split?_text hs).symm.trans hs'))
  have hleft : trim (' ' :: layout u ++ [' ']) = trim (pad u) :=
    (trim_append_right _ isBlank_space).trans (trim_text u)
  exact ⟨hleft.symm.trans hu.symm, (trim_text v).symm.trans hv.symm⟩

/-- A minus in front of a sum or a difference goes to its left half. -/
theorem split?_pasted_minus_of_split (hn : IsName n) (hb : ¬ Begins .plus s)
    (hs : split? (pad s) = some ⟨op, u, v⟩) (hop : op = .plus ∨ op = .minus) :
    split? (pasted n .minus s) = some ⟨op, pasted n .minus u ++ [' '], ' ' :: layout v⟩ := by
  have htext := split?_text hs
  have hpasted : splitAt op (pasted n .minus s) =
      some (pasted n .minus u ++ [' '], ' ' :: layout v) := by
    have hleft := splitAt_append_left (allows_pasted n .minus (layout s))
      (fun hg => ⟨not_mem_front hn op, by rintro rfl; cases hg⟩) (splitAt_of_split? htext)
    simpa [pasted] using hleft
  have hbegins : ¬ Begins .plus (' ' :: layout s) := fun h => hb ((alike_text s).begins h)
  rcases hop with rfl | rfl
  · exact split?_of_splitAt (fun o ho => absurd ho (Nat.not_lt_zero _)) hpasted
  · have hloose : splitAt .plus (pasted n .minus s) = none :=
      splitAt_append_eq_none (allows_pasted n .minus (layout s)) rfl (not_mem_front hn _) nofun
        hbegins (splitAt_eq_none_of_lt htext (by decide))
    exact split?_of_splitAt (fun o ho => eq_plus_of_level_lt ho ▸ hloose) hpasted

theorem signRun_paste (hn : IsName n) (op : BinaryOp) (s : Text) :
    signRun (n ++ ' ' :: op.char :: ' ' :: s) = signRun s := by
  have hs : n ++ ' ' :: op.char :: ' ' :: s = (n ++ [' ']) ++ op.char :: ([' '] ++ s) := by simp
  have ha : op.allows (n ++ [' ']).getLast? ([' '] ++ s).head? = true := allows_pasted n op s
  rw [hs, signRun, chunks_append_operator ha, quiet_front hn, longestRun_attach_single,
    leadingSigns_attach_single, isBlank_front hn, ← (alike_append_left isBlank_space s).signRun_eq]
  simp [signRun]

end Split

section Evaluate

variable {α : Type} [Arithmetic α] {vars : Variables α} {depth : Nat}

/-- Where it is split at the operator in front, a pasted text is evaluated as the name and then the
text. -/
theorem told_evaluate_pasted (hn : IsName n) (ht : Alike t s)
    (hs : split? (pasted n op s) = some ⟨op, n ++ [' '], ' ' :: layout s⟩) (hdepth : 0 < depth)
    (hd : (evaluate (pad s) vars depth).1 ≠ .error .tooDeep) :
    told (evaluate (pad (n ++ ' ' :: op.char :: ' ' :: t)) vars (depth + 2)) =
      match vars.get? n with
      | some v => Prod.map (Except.map (op.apply v)) id (told (evaluate (pad s) vars depth))
      | none => (.error (.unknownVariable n n), vars) := by
  have htext : told (evaluate (pad s) vars depth) =
      told ((evaluateWithin depth (' ' :: layout s)).run.run vars) :=
    told_evaluate (trim_text s).symm vars
  have hdeep : ((op.inOrder (evaluateWithin depth (n ++ [' ']))
      (evaluateWithin depth (' ' :: layout s))).run.run vars).1 ≠ .error .tooDeep := by
    rw [run_inOrder_front hn op hdepth]
    cases vars.get? n with
    | none => exact nofun
    | some v => rwa [Ne, map_eq_error, ← told_eq_tooDeep, ← htext, told_eq_tooDeep]
  rw [told_evaluate (trim_pad_paste hn op ht), evaluate_of_split hs hdeep,
    run_inOrder_front hn op hdepth]
  cases vars.get? n with
  | none => rw [told, Except.mapError, Failure.trimmed, trim_front hn]
  | some v =>
    simp only [told_map]
    rw [htext]

theorem evaluate_pasted_minus_of_split {a b : α} {mid after : Variables α} (hn : IsName n)
    (ht : Alike t s) (hb : ¬ Begins .plus s) (hs : split? (pad s) = some ⟨op, u, v⟩)
    (hop : op = .plus ∨ op = .minus)
    (hu : evaluate (pad (n ++ ' ' :: BinaryOp.minus.char :: ' ' :: u)) vars depth = (.ok a, mid))
    (hv : evaluate (pad v) mid depth = (.ok b, after)) :
    evaluate (pad (n ++ ' ' :: BinaryOp.minus.char :: ' ' :: t)) vars (depth + 2) =
      (.ok (op.apply a b), after) := by
  have hleft : trim (pasted n .minus u ++ [' ']) =
      trim (pad (n ++ ' ' :: BinaryOp.minus.char :: ' ' :: u)) :=
    (trim_append_right _ isBlank_space).trans (trim_pad_paste hn .minus rfl).symm
  have hua := (evaluate_eq_ok_iff hleft).mpr hu
  have hvb := (evaluate_eq_ok_iff (trim_text v)).mpr hv
  have hhalves : (op.inOrder (evaluateWithin depth (pasted n .minus u ++ [' ']))
      (evaluateWithin depth (' ' :: layout v))).run.run vars = (.ok (op.apply a b), after) := by
    unfold evaluate at hua hvb
    rw [run_inOrder, hua]
    simp only [hvb]
    rfl
  refine (evaluate_eq_ok_iff (trim_pad_paste hn .minus ht)).mpr ?_
  rw [evaluate_of_split (split?_pasted_minus_of_split hn hb hs hop), hhalves]
  rw [hhalves]
  exact nofun

end Evaluate

end Worksheet.Expression
