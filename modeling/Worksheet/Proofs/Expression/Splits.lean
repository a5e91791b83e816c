import Worksheet.Expression.Split
import Worksheet.Proofs.Expression.Chunks

/-! # Splits by chunks

Where a text is split can be read off its chunks. An operator has an operand on its left when the
chunk before it is not blank, and is binary then. The first split looks at the first occurrence
only, the last split passes over the occurrences that are not binary.
-/
namespace Worksheet.Expression

namespace Series

variable {β : Type}

def last (p : Series β) : β := (p.2.getLast?.map (·.2)).getD p.1

@[simp] theorem last_single (b : β) : last (single b) = b := rfl

@[simp] theorem last_attach (p : Series β) (op : BinaryOp) (q : Series β) :
    last (attach p op q) = last q := by
  cases h : q.2 with
  | nil => simp [last, attach, h]
  | cons e later => simp [last, attach, h, List.getLast?_cons]

/-- A series is one item, or its last item attached to a series. -/
theorem eq_single_or_attach_last (p : Series β) :
    p = single (last p) ∨ ∃ q op, p = attach q op (single (last p)) := by
  induction p using attach_induction with
  | single b => exact Or.inl rfl
  | attach b op p ih =>
    rw [last_attach]
    rcases ih with ih | ⟨q, o, ih⟩
    · exact Or.inr ⟨single b, op, by rw [← ih]⟩
    · exact Or.inr ⟨attach (single b) op q, o, by rw [attach_assoc, ← ih]⟩

end Series

open Text Series

def operatorsAfter (blank : Bool) (chunk : Text) : List (BinaryOp × Text) → List BinaryOp
  | [] => []
  | (op, next) :: later =>
    if isBlank chunk = blank then op :: operatorsAfter blank next later
    else operatorsAfter blank next later

/-- The operators behind a chunk that is blank, or behind one that is not. -/
def operatorsBehind (blank : Bool) (p : Chunks) : List BinaryOp := operatorsAfter blank p.1 p.2

@[simp] theorem operatorsBehind_single (blank : Bool) (b : Text) :
    operatorsBehind blank (single b) = [] := rfl

theorem operatorsBehind_attach (blank : Bool) (p : Chunks) (op : BinaryOp) (q : Chunks) :
    operatorsBehind blank (attach p op q) =
      operatorsBehind blank p ++ (if isBlank (last p) = blank then [op] else []) ++
        operatorsBehind blank q := by
  have hcons : ∀ (b : Text) (o : BinaryOp) (r : Chunks),
      operatorsBehind blank (attach (single b) o r) =
        (if isBlank b = blank then [o] else []) ++ operatorsBehind blank r := by
    intro b o r
    by_cases hb : isBlank b = blank <;>
      simp [operatorsBehind, operatorsAfter, attach, single, hb]
  induction p using attach_induction with
  | single b => exact hcons b op q
  | attach b o p ih =>
    rw [attach_assoc, hcons, hcons, ih, last_attach]
    simp

theorem mem_operators_iff {p : Chunks} {op : BinaryOp} :
    op ∈ operators p ↔ op ∈ operatorsBehind true p ∨ op ∈ operatorsBehind false p := by
  induction p using attach_induction with
  | single b => simp
  | attach b o p ih =>
    rw [operatorsBehind_attach, operatorsBehind_attach, operators_attach]
    by_cases hb : isBlank b = true <;> simp [hb, ih, or_assoc, or_left_comm]

theorem isBlank_last_of_isBlank {s : Text} (h : isBlank s = true) :
    isBlank (last (chunks s)) = true := by
  rw [quiet_of_isBlank h]
  exact h

/-- Texts that end in two characters that are no blanks, before blank ends, end in the same. -/
theorem append_cons_inj {u v b b' : Text} {c d : Char} (hc : isSpace c = false)
    (hd : isSpace d = false) (hb : isBlank b = true) (hb' : isBlank b' = true)
    (h : u ++ c :: b = v ++ d :: b') : u = v ∧ c = d ∧ b = b' := by
  have htrim : ∀ {w e : Text} {x : Char}, isSpace x = false → isBlank e = true →
      trimRight (w ++ x :: e) = w ++ [x] := by
    intro w e x hx he
    rw [show w ++ x :: e = (w ++ [x]) ++ e by simp, trimRight_append_of_isBlank _ he]
    exact trimRight_eq_self_iff.mpr (by simpa [Tight] using hx)
  have ht := congrArg trimRight h
  rw [htrim hc hb, htrim hd hb'] at ht
  obtain ⟨rfl, hcd⟩ := List.append_inj' ht rfl
  obtain rfl := List.singleton_inj.mp hcd
  exact ⟨rfl, rfl, by simpa using h⟩

theorem not_isSpace_char (op : BinaryOp) : isSpace op.char = false := by
  cases op <;> decide

theorem trim_char_cons (op : BinaryOp) (s : Text) :
    trim (op.char :: s) = op.char :: trimRight s := by
  have hc := not_isSpace_char op
  rw [trim, trimLeft_eq_self_iff.mpr (by simpa [Tight] using hc), trimRight_cons hc]

/-- The last chunk is blank when the last character that is no blank is an operator. -/
theorem isBlank_last_iff {w b : Text} {c : Char} (hc : isSpace c = false) (hb : isBlank b = true) :
    isBlank (last (chunks (w ++ c :: b))) = true ↔
      ∃ op, operatorAt w.getLast? c b.head? = some op := by
  constructor
  · intro h
    rcases eq_single_or_attach_last (chunks (w ++ c :: b)) with hs | ⟨q, op, hs⟩
    · rw [← eq_of_chunks_eq_single hs] at h
      simp [hc] at h
    · obtain ⟨u, v, hu, ha, -, hv⟩ := exists_of_chunks_eq_attach hs
      rw [← eq_of_chunks_eq_single hv] at h
      obtain ⟨rfl, rfl, rfl⟩ := append_cons_inj hc (not_isSpace_char op) hb h hu
      exact ⟨op, operatorAt_eq_some.mpr ⟨rfl, ha⟩⟩
  · rintro ⟨op, hop⟩
    obtain ⟨rfl, ha⟩ := operatorAt_eq_some.mp hop
    rw [chunks_append_operator ha, last_attach]
    exact isBlank_last_of_isBlank hb

/-- Before a blank, or at the end, only the neighbour on the left decides. -/
theorem operatorAt_blank {before after : Option Char} (c : Char)
    (h : ∀ d ∈ after, isSpace d = true) :
    operatorAt before c after =
      if c = '+' ∧ before ≠ some '+' then some .plus
      else if c = '-' ∧ before ≠ some '-' then some .minus
      else if c = '*' then some .star
      else if c = '/' then some .slash
      else none := by
  have hne : ∀ d : Char, isSpace d = false → after ≠ some d := by
    rintro d hd rfl
    rw [h d rfl] at hd
    exact Bool.noConfusion hd
  have hplus := hne '+' (by decide)
  have hminus := hne '-' (by decide)
  have hequals := hne '=' (by decide)
  simp only [operatorAt, BinaryOp.all, List.find?, BinaryOp.occursAt, BinaryOp.char,
    BinaryOp.allows]
  by_cases hp : c = '+'
  · by_cases hb : before = some '+' <;> simp [hp, hb, hplus, hequals]
  by_cases hm : c = '-'
  · by_cases hb : before = some '-' <;> simp [hm, hb, hminus]
  by_cases hs : c = '*'
  · simp [hs]
  by_cases hd : c = '/'
  · simp [hd]
  · simp [hp, hm, hs, hd]

theorem isBlank_or_exists_last (s : Text) :
    isBlank s = true ∨ ∃ w c b, s = w ++ c :: b ∧ isSpace c = false ∧ isBlank b = true := by
  obtain ⟨b, hb, hs⟩ := exists_trimRight s
  rcases List.eq_nil_or_concat (trimRight s) with hnil | ⟨w, c, hw⟩
  · exact .inl (trimRight_eq_nil_iff.mp hnil)
  · have hc : isSpace c = false := by
      have ht := tight_trimLeft s.reverse
      rw [← List.reverse_reverse (trimLeft s.reverse), ← trimRight_eq, hw] at ht
      exact ht c (by simp)
    refine .inr ⟨w, c, b, ?_, hc, hb⟩
    rw [hw] at hs
    simpa using hs

theorem dropWhile_reverse_append {w b : Text} {c : Char} (hc : isSpace c = false)
    (hb : isBlank b = true) : (w ++ c :: b).reverse.dropWhile isSpace = c :: w.reverse := by
  have h := trimLeft_append_of_isBlank (b := b.reverse) (by simpa using hb) (c :: w.reverse)
  rw [show (w ++ c :: b).reverse = b.reverse ++ c :: w.reverse by simp]
  exact h.trans (trimLeft_eq_self_iff.mpr (by simpa [Tight] using hc))

theorem endsOperand_of_isBlank {s : Text} (h : isBlank s = true) :
    endsOperand s.reverse = false := by
  have hdrop : s.reverse.dropWhile isSpace = [] := trimLeft_eq_nil_iff.mpr (by simpa using h)
  rw [endsOperand, hdrop]

theorem endsOperand_append {w b : Text} {c : Char} (hc : isSpace c = false)
    (hb : isBlank b = true) :
    endsOperand (w ++ c :: b).reverse = (operatorAt w.getLast? c b.head?).isNone := by
  rw [endsOperand, dropWhile_reverse_append hc hb,
    operatorAt_blank c fun d hd => isSpace_of_mem hb (List.mem_of_head? hd)]
  simp only [List.head?_reverse, List.mem_cons, List.not_mem_nil, or_false]
  by_cases hp : c = '+'
  · by_cases hw : w.getLast? = some '+' <;> simp [hp, hw]
  by_cases hm : c = '-'
  · by_cases hw : w.getLast? = some '-' <;> simp [hm, hw]
  by_cases hs : c = '*'
  · simp [hs]
  by_cases hd : c = '/'
  · simp [hd]
  · simp [hp, hm, hs, hd]

/-- An operand ends a text when its last chunk is not blank. -/
theorem endsOperand_eq (s : Text) : endsOperand s.reverse = !isBlank (last (chunks s)) := by
  rcases isBlank_or_exists_last s with hblank | ⟨w, c, b, rfl, hc, hb⟩
  · rw [isBlank_last_of_isBlank hblank, endsOperand_of_isBlank hblank]
    rfl
  · rw [endsOperand_append hc hb, Bool.eq_iff_iff, Bool.not_eq_true', ← Bool.not_eq_true,
      isBlank_last_iff hc hb, Option.isNone_iff_eq_none, Option.eq_none_iff_forall_ne_some]
    simp

section First
variable {op : BinaryOp} {before u v s : Text}

theorem not_occursAt_of_not_mem {before : Option Char} {c : Char} {s : Text}
    (h : op ∉ operators (chunksAfter before (c :: s))) :
    op.occursAt before c s.head? = false ∧ op ∉ operators (chunksAfter (some c) s) := by
  rw [chunksAfter_cons] at h
  cases hop : operatorAt before c s.head? with
  | some o =>
    rw [hop, operators_attach] at h
    obtain ⟨hne, h⟩ : op ≠ o ∧ op ∉ operators (chunksAfter (some c) s) := by simpa using h
    refine ⟨?_, h⟩
    rw [← Bool.not_eq_true, ← operatorAt_eq_some_iff, hop]
    exact fun he => hne (Option.some.inj he).symm
  | none =>
    rw [hop] at h
    refine ⟨?_, h⟩
    rw [← Bool.not_eq_true, ← operatorAt_eq_some_iff, hop]
    simp

theorem cutFirst_append (ha : op.allows (u.getLast?.or before.head?) v.head? = true)
    (hu : op ∉ operators (chunksAfter before.head? u)) :
    cutFirst op before (u ++ op.char :: v) =
      if isBlank (u.reverse ++ before) || isBlank v then none
      else some ((u.reverse ++ before).reverse, v) := by
  induction u generalizing before with
  | nil =>
    have hocc : op.occursAt before.head? op.char v.head? = true := by
      simpa [BinaryOp.occursAt] using ha
    rw [List.nil_append, cutFirst, if_pos hocc]
    rfl
  | cons c u ih =>
    obtain ⟨hno, hu⟩ := not_occursAt_of_not_mem hu
    rw [getLast?_cons_or] at ha
    have hocc : op.occursAt before.head? c (u ++ op.char :: v).head? = false := by
      rw [← Bool.not_eq_true, ← operatorAt_eq_some_iff] at hno ⊢
      rwa [operatorAt_append_operator ha]
    have hrec := @ih (c :: before) ha hu
    rw [List.cons_append, cutFirst, hocc, if_neg Bool.false_ne_true, hrec]
    simp

theorem splitFirst_append (ha : op.allows u.getLast? v.head? = true)
    (hop : op ∉ operators (chunks u)) (hu : isBlank u = false) (hv : isBlank v = false) :
    splitFirst op (u ++ op.char :: v) = some (u, v) := by
  have ha' : op.allows (u.getLast?.or ([] : Text).head?) v.head? = true := by simpa using ha
  rw [splitFirst, cutFirst_append ha' hop]
  simp [hu, hv]

theorem splitFirst_eq_none (h : op ∉ operators (chunks s)) : splitFirst op s = none := by
  have hcut : ∀ before : Text, op ∉ operators (chunksAfter before.head? s) →
      cutFirst op before s = none := by
    clear h
    induction s with
    | nil => exact fun _ _ => rfl
    | cons c s ih =>
      intro before h
      obtain ⟨hno, hs⟩ := not_occursAt_of_not_mem h
      rw [cutFirst, hno, if_neg Bool.false_ne_true]
      exact ih (c :: before) hs
  exact hcut [] h

end First

section Last
variable {op : BinaryOp} {u v s : Text}

theorem isBlank_eq_false_of_last (h : isBlank (last (chunks s)) = false) : isBlank s = false := by
  rw [← Bool.not_eq_true] at h ⊢
  exact fun hs => h (isBlank_last_of_isBlank hs)

/-- An occurrence that is not binary has no operand on its left. -/
theorem isBlank_last_of_not_mem (ha : op.allows u.getLast? v.head? = true)
    (h : op ∉ operatorsBehind false (chunks (u ++ op.char :: v))) :
    isBlank (last (chunks u)) = true := by
  rw [chunks_append_operator ha, operatorsBehind_attach] at h
  by_cases hb : isBlank (last (chunks u)) = true
  · exact hb
  · simp [hb] at h

theorem splitLast_eq_none (h : op ∉ operatorsBehind false (chunks s)) : splitLast op s = none := by
  have hcut : ∀ before after : Text, before.reverse ++ after = s →
      cutLast op before after = none := by
    intro before
    induction before with
    | nil => exact fun _ _ => rfl
    | cons c before ih =>
      intro after hs
      have hrec := ih (c :: after) (by simpa using hs)
      rw [cutLast]
      split
      · next hocc =>
        obtain ⟨rfl, ha⟩ : c = op.char ∧ op.allows before.head? after.head? = true := by
          simpa [BinaryOp.occursAt] using hocc
        have hend : endsOperand before = false := by
          rw [← List.reverse_reverse before, endsOperand_eq]
          rw [isBlank_last_of_not_mem (v := after) (by simpa using ha) (by simpa [← hs] using h)]
          rfl
        rw [hend, if_neg Bool.false_ne_true, hrec, ite_self]
      · exact hrec
  exact hcut s.reverse [] (by simp)

/-- Texts behind whose last occurrence of an operator nothing but white space follows. -/
def Trailing (op : BinaryOp) (s : Text) : Prop :=
  ∃ w b, s = w ++ op.char :: b ∧ op.allows w.getLast? b.head? = true ∧ isBlank b = true

theorem Trailing.isBlank_last (h : Trailing op s) : isBlank (last (chunks s)) = true := by
  obtain ⟨w, b, rfl, ha, hb⟩ := h
  rw [chunks_append_operator ha, last_attach]
  exact isBlank_last_of_isBlank hb

theorem Trailing.append_left {o : BinaryOp} (ha : op.allows u.getLast? v.head? = true)
    (h : Trailing o v) : Trailing o (u ++ op.char :: v) := by
  obtain ⟨w, b, rfl, ho, hb⟩ := h
  exact ⟨u ++ op.char :: w, b, by simp, allows_append_left ha ho, hb⟩

theorem not_endsOperand_of_not_mem {x y : Text}
    (ha : op.allows u.getLast? (x ++ op.char :: y).head? = true)
    (hocc : op.allows (u ++ op.char :: x).getLast? y.head? = true)
    (hop : op ∉ operatorsBehind false (chunks (x ++ op.char :: y)))
    (hend : ¬ Trailing op (x ++ op.char :: y)) :
    isBlank y = false ∧ endsOperand (u ++ op.char :: x).reverse = false := by
  have hleft : op.allows u.getLast? x.head? = true :=
    BinaryOp.allows_mono ha (fun _ h => h) fun c hc => List.mem_head?_append_of_mem_head? hc
  have hin : op.allows x.getLast? y.head? = true := by
    refine BinaryOp.allows_mono hocc (fun c hc => ?_) fun _ h => h
    rw [List.append_cons]
    exact List.mem_getLast?_append_of_mem_getLast? hc
  constructor
  · rw [← Bool.not_eq_true]
    exact fun hy => hend ⟨x, y, rfl, hin, hy⟩
  · rw [endsOperand_eq, chunks_append_operator hleft, last_attach, isBlank_last_of_not_mem hin hop]
    rfl

/-- The last split is at the last binary occurrence, unless nothing but a blank end follows the
last occurrence of all. -/
theorem splitLast_append (ha : op.allows u.getLast? v.head? = true)
    (hu : isBlank (last (chunks u)) = false) (hv : isBlank v = false) (hend : ¬ Trailing op v)
    (hop : op ∉ operatorsBehind false (chunks v)) :
    splitLast op (u ++ op.char :: v) = some (u, v) := by
  have hcut : ∀ w after : Text, w.reverse ++ after = v →
      cutLast op (w ++ op.char :: u.reverse) after = some (u, v) := by
    intro w
    induction w with
    | nil =>
      rintro after rfl
      have hocc : op.occursAt u.reverse.head? op.char after.head? = true := by
        simpa [BinaryOp.occursAt] using ha
      have hblank : isBlank after = false := hv
      rw [List.nil_append, cutLast, if_pos hocc, hblank, endsOperand_eq, hu,
        if_neg Bool.false_ne_true, List.reverse_reverse]
      rfl
    | cons c w ih =>
      intro after hw
      have hrec := ih (c :: after) (by simpa using hw)
      rw [List.cons_append, cutLast]
      split
      · next hocc =>
        obtain ⟨rfl, ha'⟩ : c = op.char ∧
            op.allows (w ++ op.char :: u.reverse).head? after.head? = true := by
          simpa [BinaryOp.occursAt] using hocc
        have hsplit : v = w.reverse ++ op.char :: after := by simp [← hw]
        have hrev : w ++ op.char :: u.reverse = (u ++ op.char :: w.reverse).reverse := by simp
        rw [hrev, List.head?_reverse] at ha'
        rw [hsplit] at ha hend hop
        obtain ⟨hafter, hends⟩ := not_endsOperand_of_not_mem ha ha' hop hend
        rw [← hrev] at hends
        rw [hafter, hends, if_neg Bool.false_ne_true, if_neg Bool.false_ne_true, hrec]
      · exact hrec
  have h := hcut v.reverse [] (by simp)
  rwa [splitLast, show (u ++ op.char :: v).reverse = v.reverse ++ op.char :: u.reverse by simp]

end Last

section Split
variable {op : BinaryOp} {u v s : Text}

theorem cutFirst_allows {before after : Text} (h : cutFirst op before after = some (u, v)) :
    op.allows u.getLast? v.head? = true := by
  fun_induction cutFirst op before after with
  | case1 => cases h
  | case2 => cases h
  | case3 before c after hc _ =>
    obtain ⟨rfl, rfl⟩ := Prod.mk.inj (Option.some.inj h)
    rw [List.getLast?_reverse]
    exact (Bool.and_eq_true_iff.mp hc).2
  | case4 before c after _ ih => exact ih h

theorem cutLast_allows {before after : Text} (h : cutLast op before after = some (u, v)) :
    op.allows u.getLast? v.head? = true := by
  fun_induction cutLast op before after with
  | case1 => cases h
  | case2 => cases h
  | case3 c before after hc _ _ =>
    obtain ⟨rfl, rfl⟩ := Prod.mk.inj (Option.some.inj h)
    rw [List.getLast?_reverse]
    exact (Bool.and_eq_true_iff.mp hc).2
  | case4 c before after _ _ _ ih => exact ih h
  | case5 c before after _ ih => exact ih h

theorem splitAt_allows (h : splitAt op s = some (u, v)) : op.allows u.getLast? v.head? = true := by
  rw [splitAt] at h
  cases hg : op.grouping with
  | fromRight => rw [hg] at h; exact cutFirst_allows h
  | fromLeft => rw [hg] at h; exact cutLast_allows h

theorem split?_allows (h : split? s = some ⟨op, u, v⟩) :
    op.allows u.getLast? v.head? = true := splitAt_allows (splitAt_of_split? h)

theorem split?_eq_none (h : ∀ op, splitAt op s = none) : split? s = none := by
  simp [split?, BinaryOp.all, h]

theorem split?_eq_some {looser tighter : List BinaryOp}
    (hall : BinaryOp.all = looser ++ op :: tighter) (hl : ∀ o ∈ looser, splitAt o s = none)
    (h : splitAt op s = some (u, v)) : split? s = some ⟨op, u, v⟩ := by
  have hnone :
      looser.findSome? (fun o => (splitAt o s).map fun h => Split.mk o h.1 h.2) = none := by
    rw [List.findSome?_eq_none_iff]
    intro o ho
    rw [hl o ho]
    rfl
  rw [split?, hall, List.findSome?_append, hnone, List.findSome?_cons, h]
  rfl

end Split

end Worksheet.Expression
