import Worksheet.Proofs.Expression.Layout

/-! # Padding as a substitution

A padded text comes out of one scan from left to right. At each place the scan takes white space,
an operator and white space again if they stand there, and writes the operator between two spaces;
otherwise it copies one character. What is taken is not looked at again, but an operator is judged
by its neighbours in the text as it was.
-/
namespace Worksheet.Expression
open Text Series

/-- What the scan takes at one place: the operator, the last character that is taken, and the text
behind it. -/
structure Taken where
  op : BinaryOp
  last : Char
  rest : Text

/-- What the scan takes at the beginning of a text that follows the character `before`. -/
def taken? (before : Option Char) (s : Text) : Option Taken :=
  match trimLeft s with
  | [] => none
  | c :: v =>
    (operatorAt ((s.takeWhile isSpace).getLast?.or before) c v.head?).map fun op =>
      ⟨op, (v.takeWhile isSpace).getLast?.getD c, trimLeft v⟩

theorem exists_of_taken? {before : Option Char} {s : Text} {t : Taken}
    (h : taken? before s = some t) :
    ∃ b v, s = b ++ t.op.char :: v ∧ isBlank b = true ∧
      t.op.allows (b.getLast?.or before) v.head? = true ∧
      t = ⟨t.op, (v.takeWhile isSpace).getLast?.getD t.op.char, trimLeft v⟩ := by
  have hs : s = s.takeWhile isSpace ++ trimLeft s := List.takeWhile_append_dropWhile.symm
  unfold taken? at h
  split at h
  · cases h
  · next c v hv =>
    obtain ⟨op, hop, rfl⟩ := Option.map_eq_some_iff.mp h
    obtain ⟨rfl, ha⟩ := operatorAt_eq_some.mp hop
    rw [hv] at hs
    exact ⟨s.takeWhile isSpace, v, hs, List.all_takeWhile, ha, rfl⟩

theorem taken?_append {before : Option Char} {b v : Text} {op : BinaryOp}
    (hb : isBlank b = true) (h : op.allows (b.getLast?.or before) v.head? = true) :
    taken? before (b ++ op.char :: v) =
      some ⟨op, (v.takeWhile isSpace).getLast?.getD op.char, trimLeft v⟩ := by
  have hop := not_isSpace_char op
  have hrest : trimLeft (b ++ op.char :: v) = op.char :: v := by
    rw [trimLeft_append_of_isBlank hb, trimLeft, List.dropWhile_cons_of_neg (by simp [hop])]
  have hspace : (b ++ op.char :: v).takeWhile isSpace = b := by
    rw [List.takeWhile_append_of_pos (List.all_eq_true.mp hb),
      List.takeWhile_cons_of_neg (by simp [hop]), List.append_nil]
  rw [taken?, hrest, hspace]
  simp only [operatorAt_eq_some.mpr ⟨rfl, h⟩, Option.map_some]

theorem length_rest_lt_of_taken? {before : Option Char} {s : Text} {t : Taken}
    (h : taken? before s = some t) : t.rest.length < s.length := by
  obtain ⟨b, v, rfl, -, -, ht⟩ := exists_of_taken? h
  have hle := length_trimLeft_le v
  rw [ht]
  simp only [List.length_append, List.length_cons]
  omega

def substitute (before : Option Char) : Text → Text
  | [] => []
  | c :: s =>
    match _h : taken? before (c :: s) with
    | some t => ' ' :: t.op.char :: ' ' :: substitute (some t.last) t.rest
    | none => c :: substitute (some c) s
termination_by s => s.length
decreasing_by
  · exact length_rest_lt_of_taken? ‹_›
  · simp

def padded : Chunks → Text
  | (c, []) => c
  | (c, later) => trimRight c ++ padTail later

theorem padTail_cons (op : BinaryOp) (c : Text) (later : List (BinaryOp × Text)) :
    padTail ((op, c) :: later) = ' ' :: op.char :: ' ' :: padded (trimLeft c, later) := by
  cases later <;> rfl

theorem chunks_trimLeft (v : Text) :
    chunks (trimLeft v) = (trimLeft (chunks v).1, (chunks v).2) := by
  obtain ⟨b, hb, hv⟩ := exists_trimLeft v
  have hcut := chunks_append_of_quiet (quiet_of_isBlank hb) (apart_of_isBlank_left hb (trimLeft v))
  rw [← hv] at hcut
  have htight : Tight (chunks (trimLeft v)).1 := fun c hc => tight_trimLeft v c (by
    rw [← join_chunks (trimLeft v)]
    exact List.mem_head?_append_of_mem_head? hc)
  rw [hcut, trimLeft_append_of_isBlank hb, trimLeft_eq_self_iff.mpr htight]

theorem chunksAfter_isBlank {b : Text} (hb : isBlank b = true) (before : Option Char) :
    chunksAfter before b = single b := by
  induction b generalizing before with
  | nil => rfl
  | cons c b ih =>
    obtain ⟨hc, hb⟩ := Bool.and_eq_true_iff.mp hb
    have hop : operatorAt before c b.head? = none :=
      Option.eq_none_iff_forall_ne_some.mpr fun op hop =>
        ne_char_of_isSpace hc op (operatorAt_eq_some.mp hop).1
    rw [chunksAfter_cons, hop, ih hb]
    rfl

theorem chunksAfter_last {op : BinaryOp} {v : Text} (h : ∀ c ∈ v.head?, ¬ Fuses op.char c) :
    chunksAfter (some ((v.takeWhile isSpace).getLast?.getD op.char)) (trimLeft v) =
      chunks (trimLeft v) := by
  refine chunksAfter_eq_chunks fun c hc => ?_
  have hv : v = v.takeWhile isSpace ++ trimLeft v := List.takeWhile_append_dropWhile.symm
  have hspace : isBlank (v.takeWhile isSpace) = true := List.all_takeWhile
  cases hlast : (v.takeWhile isSpace).getLast? with
  | none =>
    rw [List.getLast?_eq_none_iff.mp hlast, List.nil_append] at hv
    exact h c (hv ▸ hc)
  | some d => exact not_fuses_of_isSpace_left (isSpace_of_mem hspace (List.mem_of_getLast? hlast))

theorem operatorAt_of_taken?_eq_none {before : Option Char} {c : Char} {s : Text}
    (h : taken? before (c :: s) = none) : operatorAt before c s.head? = none := by
  refine Option.eq_none_iff_forall_ne_some.mpr fun op hop => ?_
  obtain ⟨rfl, ha⟩ := operatorAt_eq_some.mp hop
  have hsome : taken? before ([] ++ op.char :: s) = some _ := taken?_append isBlank_nil ha
  rw [List.nil_append, h] at hsome
  cases hsome

/-- White space in front of an operator would have been taken with it. -/
theorem not_isBlank_of_taken?_eq_none {before : Option Char} {s c : Text} {e : BinaryOp × Text}
    {later : List (BinaryOp × Text)} (h : taken? before s = none)
    (hs : chunksAfter before s = (c, e :: later)) : isBlank c = false := by
  refine Bool.eq_false_iff.mpr fun hb => ?_
  obtain ⟨u, v, rfl, ha, hu, -⟩ :=
    exists_of_chunksAfter_eq_attach (p := single c) (q := (e.2, later)) hs
  have hc : u = c := by
    rw [← join_chunksAfter before u, hu]
    exact List.append_nil _
  rw [taken?_append (hc ▸ hb) ha] at h
  cases h

/-- The scan pads the chunks of what is still to be scanned. -/
theorem substitute_eq_padded (before : Option Char) (s : Text) :
    substitute before s = padded (chunksAfter before s) := by
  fun_induction substitute before s with
  | case1 before => rfl
  | case2 before c s t ht ih =>
    obtain ⟨b, v, hs, hb, ha, hrest⟩ := exists_of_taken? ht
    have hfuse : ∀ c ∈ v.head?, ¬ Fuses t.op.char c := fun c hc =>
      ((BinaryOp.allows_iff.mp ha).2 c hc).1
    have hblank : trimRight b = [] := trimRight_eq_nil_iff.mpr hb
    rw [hrest] at ih
    rw [hs, hrest, ih, chunksAfter_last hfuse, chunks_trimLeft, chunksAfter_append_operator ha,
      chunksAfter_isBlank hb, ← padTail_cons]
    change _ = trimRight b ++ _
    rw [hblank]
    rfl
  | case3 before c s ht ih =>
    have hcut := chunksAfter_cons before c s
    rw [operatorAt_of_taken?_eq_none ht] at hcut
    rw [ih, hcut]
    rcases hs : chunksAfter (some c) s with ⟨d, _ | ⟨e, later⟩⟩
    · rfl
    · rw [hs] at hcut
      change c :: (trimRight d ++ _) = trimRight (c :: d) ++ _
      rw [trimRight_cons_of_not_isBlank (not_isBlank_of_taken?_eq_none ht hcut)]
      rfl

theorem pad_eq_substitute (s : Text) : pad s = substitute none s := by
  rw [substitute_eq_padded]
  rfl

end Worksheet.Expression
