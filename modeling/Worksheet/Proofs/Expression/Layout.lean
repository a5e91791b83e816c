import Worksheet.Proofs.Expression.Padding
import Worksheet.Proofs.Expression.Splits

/-! # The layout of padded texts

Padding puts the chunks of a text, without the white space at their ends, between operators with
one space on each side; only the two outer ends stay as they were. So texts that are alike have one
layout, and the layout of a text that is divided at an operator is made of those of its two sides.
-/
namespace Worksheet.Expression
open Text Series

def spacedOut (p : Chunks) : Text :=
  p.1 ++ p.2.flatMap fun e => ' ' :: e.1.char :: ' ' :: e.2

@[simp] theorem spacedOut_single (c : Text) : spacedOut (single c) = c := List.append_nil c

theorem spacedOut_attach (p : Chunks) (op : BinaryOp) (q : Chunks) :
    spacedOut (attach p op q) = (spacedOut p ++ [' ']) ++ op.char :: (' ' :: spacedOut q) := by
  simp [spacedOut, attach]

theorem exists_padTail_eq (op : BinaryOp) (p : Chunks) :
    ∃ b, isBlank b = true ∧
      padTail ((op, p.1) :: p.2) = ' ' :: op.char :: ' ' :: spacedOut (map trim p) ++ b := by
  induction p using attach_induction generalizing op with
  | single c =>
    obtain ⟨b, hb, h⟩ := exists_trimRight (trimLeft c)
    refine ⟨b, hb, ?_⟩
    rw [map_single, spacedOut_single, trim, List.cons_append, List.cons_append, List.cons_append,
      ← h]
    rfl
  | attach c o p ih =>
    obtain ⟨b, hb, h⟩ := ih o
    refine ⟨b, hb, ?_⟩
    have hcons : padTail ((op, (attach (single c) o p).1) :: (attach (single c) o p).2) =
        ' ' :: op.char :: ' ' :: trim c ++ padTail ((o, p.1) :: p.2) := rfl
    rw [hcons, h, map_attach, spacedOut_attach, map_single, spacedOut_single]
    simp

/-- A padded text is the layout of its chunks between white space. -/
theorem exists_pad_eq (s : Text) : ∃ b b', isBlank b = true ∧ isBlank b' = true ∧
    pad s = b ++ spacedOut (map trim (chunks s)) ++ b' := by
  rcases hs : chunks s with ⟨c, _ | ⟨e, later⟩⟩
  · obtain ⟨b, b', hb, hb', h⟩ := exists_trim c
    refine ⟨b, b', hb, hb', ?_⟩
    have hmap : spacedOut (map trim (c, [])) = trim c := spacedOut_single _
    rw [pad, hs, hmap, ← h]
  · obtain ⟨b, hb, h⟩ := exists_trimLeft (trimRight c)
    obtain ⟨b', hb', h'⟩ := exists_padTail_eq e.1 (e.2, later)
    refine ⟨b, b', hb, hb', ?_⟩
    rw [pad_of_chunks hs, h, h', trimLeft_trimRight]
    simp [spacedOut, map]

/-- A padded text without the white space at its two ends that padding leaves as it is. -/
def layout (s : Text) : Text := spacedOut (map trim (chunks s))

theorem trim_pad (s : Text) : trim (pad s) = trim (layout s) := by
  obtain ⟨b, b', hb, hb', h⟩ := exists_pad_eq s
  rw [h, trim_append_of_isBlank hb _ hb']
  rfl

theorem layout_of_quiet {s : Text} (h : Quiet s) : layout s = trim s := by
  rw [layout, h, map_single, spacedOut_single]

theorem layout_append_operator {u v : Text} {op : BinaryOp}
    (h : op.allows u.getLast? v.head? = true) :
    layout (u ++ op.char :: v) = (layout u ++ [' ']) ++ op.char :: (' ' :: layout v) := by
  rw [layout, chunks_append_operator h, map_attach, spacedOut_attach]
  rfl

theorem Alike.layout_eq {s t : Text} (h : Alike s t) : layout s = layout t := congrArg spacedOut h

theorem Alike.trim_pad_eq {s t : Text} (h : Alike s t) : trim (pad s) = trim (pad t) := by
  rw [trim_pad, trim_pad, h.layout_eq]

theorem alike_append_left {b : Text} (hb : isBlank b = true) (s : Text) : Alike (b ++ s) s := by
  rw [Alike, chunks_append_of_quiet (quiet_of_isBlank hb) (apart_of_isBlank_left hb s)]
  simp only [map, trim_append_left hb]

theorem alike_append_right (s : Text) {b : Text} (hb : isBlank b = true) : Alike (s ++ b) s := by
  have hquiet : ∀ {c : Text}, Quiet c → Quiet (c ++ b) := fun hc =>
    hc.append (quiet_of_isBlank hb) (apart_of_isBlank_right _ hb)
  rcases eq_single_or_attach_last (chunks s) with hs | ⟨q, op, hs⟩
  · have hq := quiet_of_chunks_eq_single hs
    rw [Alike, hquiet hq, hq, map_single, map_single, trim_append_right _ hb]
  · obtain ⟨x, c, rfl, ha, -, hc⟩ := exists_of_chunks_eq_attach hs
    have hq := quiet_of_chunks_eq_single hc
    have hab : op.allows x.getLast? (c ++ b).head? = true := by
      simpa using allows_append_blank isBlank_nil hb ha
    rw [Alike, List.append_assoc, List.cons_append, chunks_append_operator hab,
      chunks_append_operator ha, hquiet hq, hq, map_attach, map_attach, map_single, map_single,
      trim_append_right _ hb]

theorem alike_trim (s : Text) : Alike (trim s) s := by
  obtain ⟨b, b', hb, hb', h⟩ := exists_trim s
  have hleft := alike_append_left hb (trim s ++ b')
  rw [← List.append_assoc, ← h] at hleft
  exact (hleft.trans (alike_append_right _ hb')).symm

theorem alike_of_trim_eq {s t : Text} (h : trim s = trim t) : Alike s t :=
  (alike_trim s).symm.trans (h ▸ alike_trim t)

theorem alike_layout (s : Text) : Alike (layout s) s :=
  (alike_of_trim_eq (trim_pad s).symm).trans (alike_pad s)

end Worksheet.Expression
