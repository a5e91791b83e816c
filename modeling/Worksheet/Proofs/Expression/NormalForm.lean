import Worksheet.Proofs.Expression.Glyphs
import Worksheet.Proofs.Expression.Substitution
import Worksheet.Proofs.Statement.Marks

/-! # The normal form of a text

A padded text is in a normal form: padding it again changes nothing, for the white space at the ends
of its chunks is what padding makes of it. So the expression of a statement stays as it is when it
is padded.
-/
namespace Worksheet.Expression
open Text Series

theorem occurs_iff_chunks {s u v : Text} {op : BinaryOp} :
    s = u ++ op.char :: v ∧ op.allows u.getLast? v.head? = true ↔
      ∃ p q, chunks s = attach p op q ∧ join p = u ∧ join q = v := by
  constructor
  · rintro ⟨rfl, ha⟩
    exact ⟨chunks u, chunks v, chunks_append_operator ha, join_chunks u, join_chunks v⟩
  · rintro ⟨p, q, hs, rfl, rfl⟩
    obtain ⟨u, v, rfl, ha, rfl, rfl⟩ := exists_of_chunks_eq_attach hs
    rw [join_chunks, join_chunks]
    exact ⟨rfl, ha⟩

theorem padTail_concat (mid : List (BinaryOp × Text)) (op : BinaryOp) (c : Text) :
    padTail (mid ++ [(op, c)]) =
      mid.flatMap (fun e => ' ' :: e.1.char :: ' ' :: trim e.2) ++
        ' ' :: op.char :: ' ' :: trimLeft c := by
  induction mid with
  | nil => rfl
  | cons e mid ih =>
    have hcons : padTail (e :: mid ++ [(op, c)]) =
        ' ' :: e.1.char :: ' ' :: trim e.2 ++ padTail (mid ++ [(op, c)]) := by
      cases mid <;> rfl
    rw [hcons, ih, List.flatMap_cons]
    simp

/-- Padding trims the chunks: the first one at its end, the last one at its beginning, and those
between them at both ends. -/
theorem chunks_and_pad_eq (s : Text) :
    chunks s = single s ∧ pad s = s ∨
      ∃ first mid op last, chunks s = (first, mid ++ [(op, last)]) ∧
        pad s = trimRight first ++ mid.flatMap (fun e => ' ' :: e.1.char :: ' ' :: trim e.2) ++
          ' ' :: op.char :: ' ' :: trimLeft last := by
  rcases hs : chunks s with ⟨c, later⟩
  rcases List.eq_nil_or_concat later with rfl | ⟨mid, ⟨op, last⟩, rfl⟩
  · obtain rfl := eq_of_chunks_eq_single hs
    exact .inl ⟨rfl, pad_of_quiet hs⟩
  · refine .inr ⟨c, mid, op, last, by simp, ?_⟩
    have hpad : pad s = trimRight c ++ padTail (mid ++ [(op, last)]) := by
      cases mid <;> exact pad_of_chunks (by simpa using hs)
    rw [hpad, padTail_concat, List.append_assoc]

theorem padTail_spacedChunks (op : BinaryOp) (c : Text) (later : List (BinaryOp × Text)) :
    padTail ((op, (spacedChunks c later).1) :: (spacedChunks c later).2) =
      padTail ((op, c) :: later) := by
  induction later generalizing op c with
  | nil =>
    have ht : trimLeft (' ' :: trimLeft c) = trimLeft c := by
      rw [show ' ' :: trimLeft c = [' '] ++ trimLeft c from rfl,
        trimLeft_append_of_isBlank isBlank_space, trimLeft_eq_self_iff.mpr (tight_trimLeft c)]
    change ' ' :: op.char :: ' ' :: trimLeft (' ' :: trimLeft c) = _
    rw [ht]
    rfl
  | cons e later ih =>
    change ' ' :: op.char :: ' ' :: trim (' ' :: trim c ++ [' ']) ++
      padTail ((e.1, (spacedChunks e.2 later).1) :: (spacedChunks e.2 later).2) = _
    rw [trim_space_trim, ih]
    rfl

theorem pad_pad (s : Text) : pad (pad s) = pad s := by
  rcases hs : chunks s with ⟨c, _ | ⟨e, later⟩⟩
  · have hq := quiet_of_chunks_eq_single hs
    rw [pad_of_quiet hq, pad_of_quiet hq]
  · have ht : trimRight (trimRight c ++ [' ']) = trimRight c := by
      obtain ⟨b, hb, hc⟩ := exists_trimRight c
      rw [trimRight_append_of_isBlank _ isBlank_space]
      conv => rhs; rw [hc, trimRight_append_of_isBlank _ hb]
    rw [pad_of_chunks (chunks_pad_of_chunks hs), pad_of_chunks hs, ← padTail_spacedChunks e.1 e.2]
    change trimRight (trimRight c ++ [' ']) ++ _ = _
    rw [ht]

theorem pad_ofLine {line : Text} {a : Statement} (h : Statement.ofLine line = .ok a) :
    pad a.expression = a.expression := by
  obtain ⟨m, -, -, -, rfl⟩ := Statement.ofLine_eq_ok_iff.mp h
  exact pad_pad _

/-- Padding a text. The operators cut the text into its chunks, and the padded text is made of the
chunks, trimmed, between the operators with a space on each side; a text without operators stays as
it is. A scan of the text that substitutes operators comes to the same. What is not white space
stays as it is, with the operators and with the marks of two characters; and the padded text is in
its normal form, as is the expression of a statement. -/
theorem pad_normal_form (s : Text) :
    (∀ u (op : BinaryOp) v, s = u ++ op.char :: v ∧ op.allows u.getLast? v.head? = true ↔
      ∃ p q, chunks s = attach p op q ∧ join p = u ∧ join q = v) ∧
    (chunks s = single s ∧ pad s = s ∨
      ∃ first mid op last, chunks s = (first, mid ++ [(op, last)]) ∧
        pad s = trimRight first ++ mid.flatMap (fun e => ' ' :: e.1.char :: ' ' :: trim e.2) ++
          ' ' :: op.char :: ' ' :: trimLeft last) ∧
    pad s = substitute none s ∧
    ink (pad s) = ink s ∧ operators (chunks (pad s)) = operators (chunks s) ∧
    glyphs (pad s) = glyphs s ∧ pad (pad s) = pad s ∧
    ∀ line a, Statement.ofLine line = .ok a → pad a.expression = a.expression := by
  have halike := alike_pad s
  exact ⟨fun u op v => occurs_iff_chunks, chunks_and_pad_eq s, pad_eq_substitute s,
    halike.ink_eq, halike.operators_eq, halike.glyphs_eq, pad_pad s, fun _ _ => pad_ofLine⟩

/-- A line of which padding changes the expression, and a text in which it puts signs apart that
make no mark. -/
theorem pad_normal_form_sum_and_signs :
    Statement.ofLine "x = a+b*  c".toList = .ok ⟨.plain, ['x'], " a + b * c".toList⟩ ∧
      pad " a + b * c".toList = " a + b * c".toList ∧
      pad "a++ +--b".toList = substitute none "a++ +--b".toList ∧
      glyphs (pad "a++ +--b".toList) = glyphs "a++ +--b".toList := by
  have hline : Statement.ofLine "x = a+b*  c".toList =
      .ok ⟨.plain, ['x'], " a + b * c".toList⟩ := by decide
  obtain ⟨-, -, hscan, -, -, hglyphs, -, hstatement⟩ := pad_normal_form "a++ +--b".toList
  exact ⟨hline, hstatement _ _ hline, hscan, hglyphs⟩

end Worksheet.Expression
