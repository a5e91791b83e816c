import Worksheet.Proofs.Expression.Margins

/-! # Halves

The two searches for a split, said by what they find: the first occurrence of an operator between
two halves that are not blank, or the last binary occurrence that has more than white space behind
it, with no occurrence further on that has nothing but white space behind it.
-/
namespace Worksheet.Expression
open Text Series

variable {op o : BinaryOp} {s u v : Text}

/-- The last operator behind a chunk that is not blank divides the chunks. -/
theorem exists_last_behind {p : Chunks} (h : op ∈ operatorsBehind false p) :
    ∃ q r, p = attach q op r ∧ isBlank (last q) = false ∧ op ∉ operatorsBehind false r := by
  induction p using attach_induction with
  | single b => simp at h
  | attach b o p ih =>
    by_cases hp : op ∈ operatorsBehind false p
    · obtain ⟨q, r, rfl, hq, hr⟩ := ih hp
      exact ⟨attach (single b) o q, r, (attach_assoc ..).symm, by rwa [last_attach], hr⟩
    · rw [operatorsBehind_attach] at h
      obtain ⟨hb, rfl⟩ : isBlank b = false ∧ op = o := by
        cases hb : isBlank b <;> simp [hp, hb] at h
        exact ⟨rfl, h⟩
      exact ⟨single b, p, rfl, hb, hp⟩

section First

theorem splitFirst_append_eq (ha : op.allows u.getLast? v.head? = true)
    (hop : op ∉ operators (chunks u)) :
    splitFirst op (u ++ op.char :: v) =
      if isBlank u || isBlank v then none else some (u, v) := by
  have ha' : op.allows (u.getLast?.or ([] : Text).head?) v.head? = true := by simpa using ha
  rw [splitFirst, cutFirst_append ha' hop]
  simp

theorem splitFirst_eq_some_iff : splitFirst op s = some (u, v) ↔
    s = u ++ op.char :: v ∧ op.allows u.getLast? v.head? = true ∧ op ∉ operators (chunks u) ∧
      isBlank u = false ∧ isBlank v = false := by
  constructor
  · intro h
    have hop : op ∈ operators (chunks s) := by
      by_contra hop
      rw [splitFirst_eq_none hop] at h
      cases h
    obtain ⟨q, r, hs, hq⟩ := exists_first hop
    obtain ⟨x, y, rfl, ha, rfl, rfl⟩ := exists_of_chunks_eq_attach hs
    rw [splitFirst_append_eq ha hq] at h
    split at h
    · cases h
    · next hb =>
      obtain ⟨rfl, rfl⟩ := Prod.mk.inj (Option.some.inj h)
      exact ⟨rfl, ha, hq, by simpa using hb⟩
  · rintro ⟨rfl, ha, hop, hu, hv⟩
    exact splitFirst_append ha hop hu hv

end First

section Last

theorem splitLast_eq_none_of_trailing (h : Trailing op s) : splitLast op s = none := by
  obtain ⟨w, b, rfl, ha, hb⟩ := h
  have hocc : op.occursAt w.reverse.head? op.char b.head? = true := by
    simpa [BinaryOp.occursAt] using ha
  have hcut : cutLast op (b.reverse ++ op.char :: w.reverse) [] =
      cutLast op (op.char :: w.reverse) (b.reverse.reverse ++ []) :=
    cutLast_blank_append _ (by simpa using hb) []
  rw [List.append_nil, List.reverse_reverse, cutLast, if_pos hocc, if_pos hb] at hcut
  rw [splitLast, show (w ++ op.char :: b).reverse = b.reverse ++ op.char :: w.reverse by simp, hcut]

theorem splitLast_eq_some_iff : splitLast op s = some (u, v) ↔
    s = u ++ op.char :: v ∧ op.allows u.getLast? v.head? = true ∧
      isBlank (last (chunks u)) = false ∧ op ∉ operatorsBehind false (chunks v) ∧
      isBlank v = false ∧ ¬ Trailing op v := by
  constructor
  · intro h
    have hop : op ∈ operatorsBehind false (chunks s) := by
      by_contra hop
      rw [splitLast_eq_none hop] at h
      cases h
    obtain ⟨q, r, hs, hq, hr⟩ := exists_last_behind hop
    obtain ⟨x, y, rfl, ha, rfl, rfl⟩ := exists_of_chunks_eq_attach hs
    have hend : ¬ Trailing op (x ++ op.char :: y) := fun ht => by
      rw [splitLast_eq_none_of_trailing ht] at h
      cases h
    have hy : isBlank y = false := by
      rw [← Bool.not_eq_true]
      exact fun hb => hend ⟨x, y, rfl, ha, hb⟩
    have hyend : ¬ Trailing op y := fun ht => hend (ht.append_left ha)
    rw [splitLast_append ha hq hy hyend hr] at h
    obtain ⟨rfl, rfl⟩ := Prod.mk.inj (Option.some.inj h)
    exact ⟨rfl, ha, hq, hr, hy, hyend⟩
  · rintro ⟨rfl, ha, hu, hop, hv, hend⟩
    exact splitLast_append ha hu hv hend hop

end Last

section Split

theorem not_isBlank_of_splitAt (h : splitAt op s = some (u, v)) :
    isBlank u = false ∧ isBlank v = false := by
  rw [splitAt] at h
  cases hg : op.grouping with
  | fromRight =>
    rw [hg] at h
    exact (splitFirst_eq_some_iff.mp h).2.2.2
  | fromLeft =>
    rw [hg] at h
    obtain ⟨-, -, hu, -, hv, -⟩ := splitLast_eq_some_iff.mp h
    exact ⟨isBlank_eq_false_of_last hu, hv⟩

theorem not_isBlank_of_split? (h : split? s = some ⟨op, u, v⟩) :
    isBlank u = false ∧ isBlank v = false := not_isBlank_of_splitAt (splitAt_of_split? h)

theorem splitAt_eq_none_of_not_mem (h : op ∉ operators (chunks s)) : splitAt op s = none := by
  rw [splitAt]
  cases op.grouping with
  | fromRight => exact splitFirst_eq_none h
  | fromLeft => exact splitLast_eq_none fun hop => h (mem_operators_iff.mpr (.inr hop))

theorem splitAt_eq_none_of_quiet (h : Quiet s) (op : BinaryOp) : splitAt op s = none :=
  splitAt_eq_none_of_not_mem (by rw [h]; exact List.not_mem_nil)

/-- A plus with nothing but white space in front of it keeps a text whole at every plus. -/
theorem splitAt_plus_eq_none {b : Text} (hb : isBlank b = true)
    (ha : BinaryOp.plus.allows b.getLast? v.head? = true) :
    splitAt .plus (b ++ BinaryOp.plus.char :: v) = none := by
  have hq : BinaryOp.plus ∉ operators (chunks b) := by
    rw [quiet_of_isBlank hb]
    exact List.not_mem_nil
  change splitFirst .plus _ = none
  rw [splitFirst_append_eq ha hq, hb, Bool.true_or, if_pos rfl]

theorem split?_eq_none_iff : split? s = none ↔ ∀ op, splitAt op s = none := by
  refine ⟨fun h op => ?_, split?_eq_none⟩
  have hop := List.findSome?_eq_none_iff.mp h op op.mem_all
  exact Option.map_eq_none_iff.mp hop

theorem splitAt_eq_none_of_lt (h : split? s = some ⟨op, u, v⟩) (ho : o.level < op.level) :
    splitAt o s = none := by
  obtain ⟨looser, p, tighter, hall, hp, hnone⟩ := List.findSome?_eq_some_iff.mp h
  obtain ⟨halves, -, hsplit⟩ := Option.map_eq_some_iff.mp hp
  obtain rfl : p = op := congrArg Split.op hsplit
  have hsorted : (looser ++ p :: tighter).Pairwise (·.level < ·.level) := hall ▸ by decide
  have hrest := List.pairwise_cons.mp (List.pairwise_append.mp hsorted).2.1
  rcases List.mem_append.mp (hall ▸ o.mem_all) with hmem | hmem
  · exact Option.map_eq_none_iff.mp (hnone o hmem)
  · rcases List.mem_cons.mp hmem with rfl | hmem
    · exact absurd ho (Nat.lt_irrefl _)
    · exact absurd (hrest.1 o hmem) (Nat.lt_asymm ho)

theorem split?_of_splitAt (hloose : ∀ o : BinaryOp, o.level < op.level → splitAt o s = none)
    (h : splitAt op s = some (u, v)) : split? s = some ⟨op, u, v⟩ := by
  obtain ⟨looser, tighter, hall⟩ := List.append_of_mem op.mem_all
  have hsorted : (looser ++ op :: tighter).Pairwise (·.level < ·.level) := hall ▸ by decide
  refine split?_eq_some hall (fun o ho => hloose o ?_) h
  exact (List.pairwise_append.mp hsorted).2.2 o ho op List.mem_cons_self

theorem splitAt_eq_none_of_ne (hloose : ∀ o : BinaryOp, o.level < op.level → splitAt o s = none)
    (hne : ∀ p, split? s = some p → p.op ≠ op) : splitAt op s = none := by
  cases hs : split? s with
  | none => exact split?_eq_none_iff.mp hs op
  | some p =>
    rcases Nat.lt_trichotomy p.op.level op.level with hlt | heq | hgt
    · exact absurd ((splitAt_of_split? hs).symm.trans (hloose p.op hlt)) (Option.some_ne_none _)
    · exact absurd (eq_of_level_eq heq) (hne p hs)
    · exact splitAt_eq_none_of_lt hs hgt

end Split

end Worksheet.Expression
