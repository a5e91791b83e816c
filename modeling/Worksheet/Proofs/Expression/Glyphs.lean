import Worksheet.Proofs.Expression.Layout

/-! # Glyphs

The glyphs of a text are its characters without the white space, each with what it is in the text:
the operator that stands there, and whether it makes one mark with the character behind it. Texts
that are alike have the same glyphs, so padding neither makes nor breaks a mark.
-/
namespace Worksheet.Expression
open Text Series

/-- Whether two neighbours make one mark: an increment, a decrement or a compound addition. -/
def joins (c d : Char) : Bool := [('+', '+'), ('-', '-'), ('+', '=')].contains (c, d)

structure Glyph where
  char : Char
  op : Option BinaryOp
  joined : Bool
deriving DecidableEq, Repr

def glyphsAfter (before : Option Char) : Text → List Glyph
  | [] => []
  | c :: s =>
    if isSpace c then glyphsAfter (some c) s
    else ⟨c, operatorAt before c s.head?, s.head?.any (joins c)⟩ :: glyphsAfter (some c) s

def glyphs (s : Text) : List Glyph := glyphsAfter none s

def ink (s : Text) : Text := s.filter fun c => !isSpace c

theorem joins_eq_true_iff {c d : Char} : joins c d = true ↔ Fuses c d ∨ c = '+' ∧ d = '=' := by
  simp only [joins, Fuses, List.contains_iff_mem, List.mem_cons, Prod.mk.injEq, List.not_mem_nil,
    or_false]
  grind

theorem joins_of_isSpace {c d : Char} (hd : isSpace d = true) : joins c d = false := by
  refine Bool.eq_false_iff.mpr fun h => ?_
  rcases joins_eq_true_iff.mp h with h | h
  · exact not_fuses_of_isSpace_right hd h
  · exact ne_equals_of_isSpace hd h.2

theorem joins_head_eq_false {op : BinaryOp} {before after : Option Char}
    (h : op.allows before after = true) : after.any (joins op.char) = false := by
  refine Bool.eq_false_iff.mpr fun hj => ?_
  obtain ⟨d, rfl, hd⟩ := (Option.any_eq_true ..).mp hj
  obtain ⟨hf, ha⟩ := (BinaryOp.allows_iff.mp h).2 d rfl
  rcases joins_eq_true_iff.mp hd with hd | hd
  · exact hf hd
  · exact ha (BinaryOp.char_injective (q := .plus) hd.1) hd.2

theorem joins_char_eq_false {op : BinaryOp} {c : Char} {after : Option Char}
    (h : op.allows (some c) after = true) : joins c op.char = false := by
  refine Bool.eq_false_iff.mpr fun hj => ?_
  rcases joins_eq_true_iff.mp hj with hf | ⟨-, he⟩
  · exact (BinaryOp.allows_iff.mp h).1 c rfl hf
  · revert he
    cases op <;> decide

theorem glyphsAfter_cons_of_isSpace {c : Char} (hc : isSpace c = true) (before : Option Char)
    (s : Text) : glyphsAfter before (c :: s) = glyphsAfter (some c) s := by
  rw [glyphsAfter, if_pos hc]

theorem glyphsAfter_cons {c : Char} (hc : isSpace c = false) (before : Option Char) (s : Text) :
    glyphsAfter before (c :: s) =
      ⟨c, operatorAt before c s.head?, s.head?.any (joins c)⟩ :: glyphsAfter (some c) s := by
  rw [glyphsAfter, if_neg (by simp [hc])]

theorem glyphsAfter_eq_glyphs {b : Char} {s : Text} (h : ∀ c ∈ s.head?, ¬ Fuses b c) :
    glyphsAfter (some b) s = glyphs s := by
  cases s with
  | nil => rfl
  | cons c s => rw [glyphs, glyphsAfter, glyphsAfter, operatorAt_before (h c rfl)]

theorem glyphsAfter_append_operator {before : Option Char} {u v : Text} {op : BinaryOp}
    (h : op.allows (u.getLast?.or before) v.head? = true) :
    glyphsAfter before (u ++ op.char :: v) =
      glyphsAfter before u ++ ⟨op.char, some op, false⟩ :: glyphs v := by
  induction u generalizing before with
  | nil =>
    have hop : operatorAt before op.char v.head? = some op := operatorAt_eq_some.mpr ⟨rfl, h⟩
    have ha := (BinaryOp.allows_iff.mp h).2
    rw [List.nil_append, glyphsAfter_cons (not_isSpace_char op), hop, joins_head_eq_false h,
      glyphsAfter_eq_glyphs fun c hc => (ha c hc).1]
    rfl
  | cons c u ih =>
    rw [getLast?_cons_or] at h
    have hjoin : (u ++ op.char :: v).head?.any (joins c) = u.head?.any (joins c) := by
      cases u with
      | nil => exact joins_char_eq_false h
      | cons d u => rfl
    rw [List.cons_append, glyphsAfter, glyphsAfter, operatorAt_append_operator h, hjoin, ih h]
    split <;> rfl

theorem glyphs_append_operator {u v : Text} {op : BinaryOp}
    (h : op.allows u.getLast? v.head? = true) :
    glyphs (u ++ op.char :: v) = glyphs u ++ ⟨op.char, some op, false⟩ :: glyphs v := by
  have hu : op.allows (u.getLast?.or none) v.head? = true := by simpa using h
  exact glyphsAfter_append_operator hu

theorem glyphs_append_left {b : Text} (hb : isBlank b = true) (s : Text) :
    glyphs (b ++ s) = glyphs s := by
  induction b with
  | nil => rfl
  | cons c b ih =>
    obtain ⟨hc, hb⟩ := Bool.and_eq_true_iff.mp hb
    rw [List.cons_append, glyphs, glyphsAfter_cons_of_isSpace hc,
      glyphsAfter_eq_glyphs fun d _ => not_fuses_of_isSpace_left hc, ih hb]

theorem glyphsAfter_append_right (before : Option Char) (s : Text) {b : Text}
    (hb : isBlank b = true) : glyphsAfter before (s ++ b) = glyphsAfter before s := by
  induction s generalizing before with
  | nil =>
    induction b generalizing before with
    | nil => rfl
    | cons c b ih =>
      obtain ⟨hc, hb⟩ := Bool.and_eq_true_iff.mp hb
      exact (glyphsAfter_cons_of_isSpace hc before b).trans (ih hb _)
  | cons c s ih =>
    have hhead : operatorAt before c (s ++ b).head? = operatorAt before c s.head? ∧
        (s ++ b).head?.any (joins c) = s.head?.any (joins c) := by
      rcases s with _ | ⟨d, s⟩
      · rcases b with _ | ⟨d, b⟩
        · exact ⟨rfl, rfl⟩
        · have hd : isSpace d = true := (Bool.and_eq_true_iff.mp hb).1
          exact ⟨operatorAt_after (not_fuses_of_isSpace_right hd)
            (fun _ => ne_equals_of_isSpace hd) before, joins_of_isSpace hd⟩
      · exact ⟨rfl, rfl⟩
    rw [List.cons_append, glyphsAfter, glyphsAfter, hhead.1, hhead.2, ih]

theorem glyphs_trim (s : Text) : glyphs (trim s) = glyphs s := by
  obtain ⟨b, b', hb, hb', h⟩ := exists_trim s
  conv => rhs; rw [h, List.append_assoc, glyphs_append_left hb]
  exact (glyphsAfter_append_right none _ hb').symm

theorem map_char_glyphs (s : Text) : (glyphs s).map (·.char) = ink s := by
  have hafter : ∀ before, (glyphsAfter before s).map (·.char) = ink s := by
    induction s with
    | nil => exact fun _ => rfl
    | cons c s ih =>
      intro before
      cases hc : isSpace c with
      | true => simpa [glyphsAfter_cons_of_isSpace hc, ink, hc] using ih _
      | false => simpa [glyphsAfter_cons hc, ink, hc] using ih _
  exact hafter none

theorem Alike.glyphs_eq {s t : Text} (h : Alike s t) : glyphs s = glyphs t := by
  generalize hp : chunks s = p
  induction p using attach_induction generalizing s t with
  | single c =>
    rw [← glyphs_trim, h.trim_eq (quiet_of_chunks_eq_single hp), glyphs_trim]
  | attach c op p ih =>
    obtain ⟨u, v, rfl, ha, hu, hv⟩ := exists_of_chunks_eq_attach hp
    obtain ⟨u', v', rfl, ha', hleft, hright⟩ := h.exists_of_operator ha
    have hfirst : glyphs u = glyphs u' := by
      rw [← glyphs_trim, hleft.trim_eq (quiet_of_chunks_eq_single hu), glyphs_trim]
    rw [glyphs_append_operator ha, glyphs_append_operator ha', hfirst, ih hright hv]

theorem Alike.ink_eq {s t : Text} (h : Alike s t) : ink s = ink t := by
  rw [← map_char_glyphs, h.glyphs_eq, map_char_glyphs]

/-- Texts that are alike end in the same character, when they do not end in white space. -/
theorem Alike.last_eq {s t : Text} {c d : Char} (h : Alike (s ++ [c]) (t ++ [d]))
    (hc : isSpace c = false) (hd : isSpace d = false) : c = d := by
  have hink : ink s ++ [c] = ink t ++ [d] := by simpa [ink, hc, hd] using h.ink_eq
  exact List.singleton_inj.mp (List.append_inj' hink rfl).2

end Worksheet.Expression
