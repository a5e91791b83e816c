import Mathlib.Logic.Function.Iterate
import Worksheet.Proofs.Expression.Alike
import Worksheet.Proofs.Expression.Budget
import Worksheet.Proofs.Expression.Glyphs

/-! # Figures

A figure is a text that begins as a number does and holds no operator: an unsigned literal, or what
is in front of the sign of an exponent. A minus in front of a figure is a sign. Every other plus or
minus is an operator, or keeps the text from being read as a number.
-/
namespace Worksheet.Expression
open Text Series

structure Figure (m : Text) : Prop where
  head : ∃ c ∈ m.head?, c.isDigit = true ∨ c = '.'
  inside : ∀ c ∈ m, isSpace c = false ∧ c ≠ '=' ∧ ∀ op : BinaryOp, c ≠ op.char

namespace Figure

variable {m : Text}

theorem of_literal (l : Literal) : Figure l.text where
  head := by
    obtain ⟨c, s, h, hc⟩ := l.head_text
    exact ⟨c, by rw [h]; rfl, hc⟩
  inside _ hc := literal_char hc

theorem of_exponent_mark (l : Literal) {e : Char} (he : e = 'e' ∨ e = 'E') :
    Figure (l.text ++ [e]) where
  head := by
    obtain ⟨c, hc, hdigit⟩ := (of_literal l).head
    exact ⟨c, List.mem_head?_append_of_mem_head? hc, hdigit⟩
  inside c hc := by
    rcases List.mem_append.mp hc with hc | hc
    · exact literal_char hc
    · obtain rfl := List.mem_singleton.mp hc
      rcases he with rfl | rfl <;> exact ⟨by decide, by decide, fun op => by cases op <;> decide⟩

theorem of_digits {d : Text} (hne : d ≠ []) (hd : AllDigits d) : Figure d := by
  have hl := of_literal ⟨d, none, none, hd, nofun, .inl hne, nofun, nofun⟩
  simpa [Literal.text, Literal.fractionText, Literal.exponentText] using hl

theorem quiet (hm : Figure m) : Quiet m := quiet_of_forall_ne fun c hc => (hm.inside c hc).2.2

theorem trim_eq (hm : Figure m) : trim m = m :=
  trim_eq_self (fun c hc => (hm.inside c (List.mem_of_head? hc)).1) fun c hc =>
    (hm.inside c (List.mem_reverse.mp (List.mem_of_head? hc))).1

theorem ne_nil (hm : Figure m) : m ≠ [] := by
  rintro rfl
  obtain ⟨c, hc, -⟩ := hm.head
  cases hc

theorem isBlank_eq_false (hm : Figure m) : isBlank m = false := by
  refine Bool.eq_false_iff.mpr fun hb => hm.ne_nil ?_
  rw [← hm.trim_eq, trim_eq_nil_iff, hb]

theorem any_isLetter_eq_false (hm : Figure m) : m.head?.any isLetter = false := by
  obtain ⟨c, hc, hdigit⟩ := hm.head
  rw [Option.mem_def.mp hc, Option.any_some]
  rcases hdigit with hdigit | rfl
  · exact not_isLetter_of_isDigit hdigit
  · exact not_isLetter (by decide) rfl

theorem exists_last (hm : Figure m) :
    ∃ x z, m = x ++ [z] ∧ isSpace z = false ∧ ∀ op : BinaryOp, z ≠ op.char := by
  obtain ⟨x, z, rfl⟩ := (List.eq_nil_or_concat m).resolve_left hm.ne_nil
  obtain ⟨hz, -, hop⟩ := hm.inside z (by simp)
  exact ⟨x, z, List.concat_eq_append .., hz, hop⟩

theorem operators_eq_nil (hm : Figure m) : operators (chunks m) = [] := quiet_iff.mp hm.quiet

theorem allows (hm : Figure m) {op : BinaryOp} {before : Option Char}
    (hb : ∀ c ∈ before, c ≠ op.char) : op.allows before m.head? = true := by
  refine BinaryOp.allows_iff.mpr ⟨fun c hc hf => hb c hc hf.1, fun c hc => ?_⟩
  obtain ⟨-, hequals, hop⟩ := hm.inside c (List.mem_of_head? hc)
  exact ⟨fun hf => hop op hf.1.symm, fun _ => hequals⟩

theorem allows_space (hm : Figure m) (op : BinaryOp) :
    op.allows [' '].getLast? m.head? = true :=
  hm.allows (by rintro c ⟨⟩; exact ne_char_of_isSpace (by decide) op)

theorem allows_space_append (hm : Figure m) (op : BinaryOp) (r : Text) :
    op.allows [' '].getLast? (m ++ r).head? = true := by
  rw [List.head?_append_of_ne_nil _ hm.ne_nil]
  exact hm.allows_space op

theorem allows_between (hm : Figure m) {d : Text} (hd : Figure d) (op : BinaryOp) (u : Text) :
    op.allows (u ++ m).getLast? d.head? = true := by
  rw [List.getLast?_append_of_ne_nil _ hm.ne_nil]
  exact hd.allows fun c hc => (hm.inside c (List.mem_of_getLast? hc)).2.2 op

theorem shape (hm : Figure m) : Shape [] m := shape_of_quiet hm.quiet hm.isBlank_eq_false

theorem shape_space (hm : Figure m) : Shape [] (' ' :: m) :=
  shape_of_quiet ((quiet_of_isBlank isBlank_space).append hm.quiet
    (apart_of_isBlank_left isBlank_space m)) (by simp [hm.isBlank_eq_false])

theorem shape_minus (hm : Figure m) : Shape [] (' ' :: '-' :: m) :=
  hm.shape.minus isBlank_space (hm.allows_space .minus)

end Figure

theorem Shape.split?_eq_some {u v : Text} {op : BinaryOp} (hu : Shape [] u) (hv : Shape [] v)
    (ha : op.allows u.getLast? v.head? = true) :
    split? (u ++ op.char :: v) = some ⟨op, u, v⟩ := by
  refine split?_of_splitAt (fun o ho => ?_) (hu.splitAt_append hv ha nofun nofun)
  refine (hu.attach hv ha).splitAt_eq_none fun hmem => ?_
  obtain rfl : o = op := by simpa using hmem
  exact Nat.lt_irrefl _ ho

section Plus

variable {u v w : Text} {z c : Char}

/-- A plus in front keeps a text whole, when no other operator is in it. -/
theorem split?_plus_eq_none (hops : ∀ op ∈ operators (chunks v), op = .plus)
    (ha : BinaryOp.plus.allows [' '].getLast? v.head? = true) :
    split? (' ' :: '+' :: v) = none := by
  refine split?_eq_none_iff.mpr fun op => ?_
  by_cases hop : op = .plus
  · subst hop
    exact splitAt_plus_eq_none isBlank_space ha
  · refine splitAt_eq_none_of_not_mem fun hmem => hop ?_
    have hcut := chunks_append_operator (u := [' ']) ha
    rw [quiet_of_isBlank isBlank_space] at hcut
    rw [show ' ' :: '+' :: v = [' '] ++ BinaryOp.plus.char :: v from rfl, hcut] at hmem
    rcases List.mem_cons.mp hmem with rfl | hmem
    · rfl
    · exact hops op hmem

theorem exists_trim_plus (ha : BinaryOp.plus.allows [' '].getLast? v.head? = true)
    (hv : isBlank v = false) (h : Alike (' ' :: '+' :: v) u) (hairy : Airy u) :
    ∃ c w, isSpace c = true ∧ trim u = '+' :: c :: w := by
  have hplus : Alike ([' '] ++ BinaryOp.plus.char :: v) u := h
  obtain ⟨b, w, rfl, hb, hblank, hw⟩ := hplus.exists_of_operator ha
  rw [hw.isBlank_eq] at hv
  cases w with
  | nil => cases hv
  | cons c w =>
    refine ⟨c, trimRight w, hairy b .plus (c :: w) rfl hb c rfl, ?_⟩
    rw [trim_append_left (hblank.isBlank_eq ▸ isBlank_space), trim_char_cons,
      trimRight_cons_of_not_isBlank hv]
    rfl

theorem ofTerm_plus (hc : isSpace c = true) (hu : trim u = '+' :: c :: w)
    (h : Alike (v ++ [z]) u) (hz : isSpace z = false) (hop : ∀ op : BinaryOp, z ≠ op.char) :
    Operand.ofTerm (trim u) = .plain (trim u) := by
  cases ho : Operand.ofTerm (trim u) with
  | plain text => rw [eq_of_ofTerm_plain ho]
  | negated rest =>
    have hminus := hu.symm.trans (eq_of_ofTerm_negated ho).1
    exact absurd (List.cons.inj hminus).1 (by decide)
  | stepped step name =>
    have htext := eq_of_ofTerm_stepped ho
    obtain ⟨d, _ | _⟩ := step
    · have hmark : trim u = (name ++ [d.op.char]) ++ [d.op.char] := by
        rw [← htext, show Step.text ⟨d, false⟩ name = name ++ d.mark from rfl, d.mark_eq,
          List.append_assoc]
        rfl
      have hlast : Alike (v ++ [z]) (trim u) := h.trans (alike_trim u).symm
      rw [hmark] at hlast
      exact absurd (hlast.last_eq hz (not_isSpace_char _)) (hop d.op)
    · rw [hu, show Step.text ⟨d, true⟩ name = d.mark ++ name from rfl, d.mark_eq] at htext
      obtain ⟨-, hmark⟩ := List.cons.inj htext
      exact absurd (List.cons.inj hmark).1.symm (ne_char_of_isSpace hc d.op)

end Plus

section Evaluate

variable {α : Type} {vars : Variables α} {m s u v : Text}

theorem get?_eq_none_of_lettered (hl : Lettered vars.names)
    (hm : m.head?.any isLetter = false) : vars.get? m = none :=
  Variables.get?_eq_none_iff.mpr fun hmem => Bool.noConfusion (hm.symm.trans (hl m hmem))

variable [Arithmetic α]

/-- The value of a text that is no name. -/
def reading (m : Text) : Except Failure α :=
  match Numeral.ofText? m with
  | some n => .ok (Arithmetic.ofNumeral n)
  | none => .error (.notANumber m)

theorem run_lookUp_of_not_letter (hl : Lettered vars.names) (hm : m.head?.any isLetter = false)
    (e : Text) : (lookUp m e).run.run vars = (reading m, vars) := by
  rw [run_lookUp, get?_eq_none_of_lettered hl hm]
  simp only [run_numberOf, hm, Bool.false_eq_true, if_false, reading]
  cases Numeral.ofText? m <;> rfl

theorem run_figure (hm : Figure m) (hl : Lettered vars.names) (h : Alike (' ' :: m) u)
    (depth : Nat) : (evaluateWithin (depth + 1) u).run.run vars = (reading m, vars) := by
  have htrim : trim u = m := by
    rw [← ((alike_append_left isBlank_space m).symm.trans h).trim_eq hm.quiet, hm.trim_eq]
  rw [evaluateWithin_leaf (h.split?_eq_none hm.shape_space.split?_eq_none), htrim,
    ofTerm_plain fun c hc => (hm.inside c hc).2.2]
  exact run_lookUp_of_not_letter hl hm.any_isLetter_eq_false u

theorem exists_negated (hs : split? (' ' :: '-' :: v) = none)
    (ha : BinaryOp.minus.allows [' '].getLast? v.head? = true) (h : Alike (' ' :: '-' :: v) u) :
    ∃ rest, Alike v rest ∧ ∀ depth, evaluateWithin (α := α) (depth + 1) u =
      (do return -(← evaluateWithin depth rest)) := by
  have hminus : Alike ([' '] ++ BinaryOp.minus.char :: v) u := h
  obtain ⟨b, w, rfl, hb, hblank, hw⟩ := hminus.exists_of_operator ha
  have hfuse := (BinaryOp.allows_iff.mp hb).2
  have hhead : ∀ c ∈ (trimRight w).head?, c ≠ '-' := by
    rintro c hc rfl
    obtain ⟨b', -, hright⟩ := exists_trimRight w
    refine (hfuse '-' ?_).1 ⟨rfl, .inr rfl⟩
    rw [hright]
    exact List.mem_head?_append_of_mem_head? hc
  refine ⟨trimRight w, hw.trans (alike_of_trim_eq (trim_trimRight w).symm), fun depth => ?_⟩
  rw [evaluateWithin_leaf (h.split?_eq_none hs),
    trim_append_left (hblank.isBlank_eq ▸ isBlank_space), trim_char_cons,
    show BinaryOp.minus.char = '-' from rfl, ofTerm_minus hhead]

theorem run_minus_figure (hm : Figure m) (hl : Lettered vars.names)
    (h : Alike (' ' :: '-' :: m) u) (depth : Nat) :
    (evaluateWithin (depth + 2) u).run.run vars = ((reading m).map (-·), vars) := by
  obtain ⟨rest, hrest, hu⟩ :=
    exists_negated (α := α) hm.shape_minus.split?_eq_none (hm.allows_space .minus) h
  rw [hu, run_bind, run_figure hm hl ((alike_append_left isBlank_space m).trans hrest) depth]
  cases reading (α := α) m <;> rfl

section BehindSigns

def behindSigns (m : Text) : Nat → Text
  | 0 => ' ' :: m
  | j + 1 => ' ' :: '-' :: behindSigns m j

theorem mem_behindSigns {c : Char} {j : Nat} (h : c ∈ behindSigns m j) :
    c = ' ' ∨ c = '-' ∨ c ∈ m := by
  induction j with
  | zero => exact (List.mem_cons.mp h).imp_right .inr
  | succ j ih =>
    rcases List.mem_cons.mp h with rfl | h
    · exact .inl rfl
    · exact (List.mem_cons.mp h).elim (fun h => .inr (.inl h)) ih

theorem isBlank_behindSigns (hm : Figure m) (j : Nat) : isBlank (behindSigns m j) = false := by
  cases j with
  | zero => rw [behindSigns, isBlank_cons, hm.isBlank_eq_false, Bool.and_false]
  | succ j => rfl

theorem allows_behindSigns (m : Text) (j : Nat) :
    BinaryOp.minus.allows [' '].getLast? (behindSigns m j).head? = true := by cases j <;> rfl

theorem shape_behindSigns (hm : Figure m) (j : Nat) : Shape [] (behindSigns m j) := by
  induction j with
  | zero => exact hm.shape_space
  | succ j ih => exact ih.minus isBlank_space (allows_behindSigns m j)

/-- A figure behind signs is evaluated if there are more levels than signs. -/
theorem run_behindSigns (hm : Figure m) (hl : Lettered vars.names) {j : Nat}
    (h : Alike (behindSigns m j) u) (depth : Nat) :
    (evaluateWithin depth u).run.run vars =
      (if j < depth then (reading m).map (Neg.neg^[j]) else .error .tooDeep, vars) := by
  induction j generalizing depth u with
  | zero =>
    cases depth with
    | zero => rfl
    | succ depth =>
      rw [run_figure hm hl h, if_pos depth.succ_pos, Function.iterate_zero]
      cases reading (α := α) m <;> rfl
  | succ j ih =>
    cases depth with
    | zero => rfl
    | succ depth =>
      have hs := (shape_behindSigns hm (j + 1)).split?_eq_none
      obtain ⟨rest, hrest, hu⟩ := exists_negated (α := α) hs (allows_behindSigns m j) h
      rw [hu, run_bind, ih hrest, Function.iterate_succ']
      by_cases hd : j < depth
      · rw [if_pos hd, if_pos (Nat.succ_lt_succ hd)]
        cases reading (α := α) m <;> rfl
      · rw [if_neg hd, if_neg fun h => hd (Nat.lt_of_succ_lt_succ h)]

end BehindSigns

/-- A plus in front is no sign: where the text is not split, it is not a number. -/
theorem run_plus (hl : Lettered vars.names) (hops : ∀ op ∈ operators (chunks v), op = .plus)
    (ha : BinaryOp.plus.allows [' '].getLast? v.head? = true) (h : Alike (' ' :: '+' :: v) u)
    (hend : ∃ x z, v = x ++ [z] ∧ isSpace z = false ∧ ∀ op : BinaryOp, z ≠ op.char)
    (hairy : Airy u) (depth : Nat) :
    (evaluateWithin (depth + 1) u).run.run vars = (.error (.notANumber (trim u)), vars) := by
  obtain ⟨x, z, rfl, hz, hop⟩ := hend
  obtain ⟨c, w, hc, hu⟩ := exists_trim_plus ha (by simp [hz]) h hairy
  have hletter : (trim u).head?.any isLetter = false := by
    rw [hu, List.head?_cons, Option.any_some]
    exact not_isLetter_char .plus
  have hlast : Alike ((' ' :: '+' :: x) ++ [z]) u := h
  rw [evaluateWithin_leaf (h.split?_eq_none (split?_plus_eq_none hops ha)),
    ofTerm_plus hc hu hlast hz hop]
  have hread := run_lookUp_of_not_letter hl hletter u
  rwa [reading, hu, Numeral.ofText?_plus_of_isSpace hc, ← hu] at hread

theorem evaluate_of_left_fails {op : BinaryOp} (hs : split? s = some ⟨op, u, v⟩) {f : Failure}
    (hf : f ≠ .tooDeep)
    (hu : ∀ depth, (evaluateWithin (depth + 2) u).run.run vars = (.error f, vars)) (depth : Nat) :
    evaluate s vars (depth + 4) = (.error f, vars) := by
  have hleft : (op.inOrder (evaluateWithin (depth + 2) u)
      (evaluateWithin (depth + 2) v)).run.run vars = (.error f, vars) := by
    rw [run_inOrder, hu depth]
  rw [evaluate_of_split hs, hleft]
  rw [hleft]
  exact fun h => hf (Except.error.inj h)

section Pad

variable (depth : Nat)

theorem evaluate_pad_figure (hm : Figure m) (hl : Lettered vars.names) :
    evaluate (pad (' ' :: m)) vars (depth + 4) = (reading m, vars) :=
  run_figure hm hl (alike_pad _).symm (depth + 3)

theorem evaluate_pad_minus_figure (hm : Figure m) (hl : Lettered vars.names) :
    evaluate (pad (' ' :: '-' :: m)) vars (depth + 4) = ((reading m).map (-·), vars) :=
  run_minus_figure hm hl (alike_pad _).symm (depth + 2)

theorem evaluate_pad_figure_operator (hm : Figure m) (hl : Lettered vars.names)
    (hn : Numeral.ofText? m = none) {d : Text} (hd : Figure d) (op : BinaryOp) {g : Text}
    (hg : g = [] ∨ g = ['-']) :
    evaluate (pad (' ' :: (g ++ (m ++ op.char :: d)))) vars (depth + 4) =
      (.error (.notANumber m), vars) := by
  have hreading : reading (α := α) m = .error (.notANumber m) := by rw [reading, hn]
  have hshape : Shape [] (' ' :: (g ++ m)) := by
    rcases hg with rfl | rfl
    · exact hm.shape_space
    · exact hm.shape_minus
  have hsplit := hshape.split?_eq_some hd.shape (hm.allows_between hd op (' ' :: g))
  obtain ⟨u, v, hs, hu, -⟩ := (alike_pad _).symm.exists_split hsplit
  have hleft : ∀ depth,
      (evaluateWithin (depth + 2) u).run.run vars = (.error (.notANumber m), vars) := by
    intro depth
    rcases hg with rfl | rfl
    · rw [run_figure hm hl hu (depth + 1), hreading]
    · rw [run_minus_figure hm hl hu depth, hreading]
      rfl
  have hfail := evaluate_of_left_fails hs (f := .notANumber m) nofun hleft depth
  simpa using hfail

theorem evaluate_pad_plus_figure (hm : Figure m) (hl : Lettered vars.names) :
    ∃ text, evaluate (pad (' ' :: '+' :: m)) vars (depth + 4) =
      (.error (.notANumber text), vars) := by
  have hops : ∀ op ∈ operators (chunks m), op = .plus := by simp [hm.operators_eq_nil]
  exact ⟨_, run_plus hl hops (hm.allows_space .plus) (alike_pad _).symm hm.exists_last (airy_pad _)
    (depth + 3)⟩

/-- Behind a plus in front a text is split at a minus, but not at another plus. -/
theorem evaluate_pad_plus_figure_operator (hm : Figure m) (hl : Lettered vars.names) {d : Text}
    (hd : Figure d) {op : BinaryOp} (hop : op = .minus ∨ op = .plus) :
    ∃ text, evaluate (pad (' ' :: '+' :: (m ++ op.char :: d))) vars (depth + 4) =
      (.error (.notANumber text), vars) := by
  have hbetween := hm.allows_between hd op
  have ha := hm.allows_space_append .plus
  rcases hop with rfl | rfl
  · have hops : ∀ op ∈ operators (chunks m), op = .plus := by simp [hm.operators_eq_nil]
    have hfirst := hm.allows_space .plus
    have hlast : isBlank (last (chunks ([' '] ++ BinaryOp.plus.char :: m))) = false := by
      rw [chunks_append_operator hfirst, last_attach, hm.shape.not_blank_last]
    have hsplit : split? (' ' :: '+' :: (m ++ BinaryOp.minus.char :: d)) =
        some ⟨.minus, ' ' :: '+' :: m, d⟩ := by
      refine split?_of_splitAt (fun o ho => ?_) (hd.shape.splitLast_append hlast
        (hbetween (' ' :: ['+'])) List.not_mem_nil)
      obtain rfl : o = .plus := by cases o <;> first | rfl | exact absurd ho (by decide)
      exact splitAt_plus_eq_none isBlank_space (ha _)
    obtain ⟨u, v, hs, hu, -⟩ := (alike_pad _).symm.exists_split hsplit
    have hairy : Airy u := ((airy_pad _).of_split hs).1
    have hleft : ∀ depth, (evaluateWithin (depth + 2) u).run.run vars =
        (.error (.notANumber (trim u)), vars) := fun depth =>
      run_plus hl hops hfirst hu hm.exists_last hairy (depth + 1)
    exact ⟨_, evaluate_of_left_fails hs (Failure.noConfusion · ) hleft depth⟩
  · have hops : ∀ op ∈ operators (chunks (m ++ BinaryOp.plus.char :: d)), op = .plus := by
      rw [chunks_append_operator (u := m) (hbetween []), operators_attach]
      simp [hm.operators_eq_nil, hd.operators_eq_nil]
    have hend : ∃ x z, m ++ BinaryOp.plus.char :: d = x ++ [z] ∧ isSpace z = false ∧
        ∀ op : BinaryOp, z ≠ op.char := by
      obtain ⟨x, z, rfl, hz, hop⟩ := hd.exists_last
      exact ⟨m ++ BinaryOp.plus.char :: x, z, by simp, hz, hop⟩
    exact ⟨_, run_plus hl hops (ha _) (alike_pad _).symm hend (airy_pad _) (depth + 3)⟩

end Pad

end Evaluate

end Worksheet.Expression
