import Worksheet.Proofs.Expression.Known
import Worksheet.Proofs.Expression.Layout

/-! # Texts that are alike

Where a text is split depends on its operators and on which of its chunks are blank. So texts that
are alike are split at the same operator, into halves that are alike.
-/
namespace Worksheet.Expression
open Text Series

theorem operatorsBehind_map_trim (blank : Bool) (p : Chunks) :
    operatorsBehind blank (map trim p) = operatorsBehind blank p := by
  induction p using attach_induction with
  | single b => rfl
  | attach b op p ih =>
    rw [map_attach, map_single, operatorsBehind_attach, operatorsBehind_attach, last_single,
      last_single, isBlank_trim, ih]
    rfl

theorem last_map_trim (p : Chunks) : last (map trim p) = trim (last p) := by
  induction p using attach_induction with
  | single b => rfl
  | attach b op p ih => rw [map_attach, last_attach, last_attach, ih]

theorem begins_iff {op : BinaryOp} {s : Text} : Begins op s ↔
    ∃ b v, s = b ++ op.char :: v ∧ isBlank b = true ∧ op.allows b.getLast? v.head? = true := by
  constructor
  · rintro ⟨w, hw, ha⟩
    obtain ⟨b, hb, hs⟩ := exists_trimLeft s
    rw [hw] at hs
    refine ⟨b, w, hs, hb, ?_⟩
    simpa using allows_append_blank (u := []) hb isBlank_nil ha
  · rintro ⟨b, v, rfl, hb, ha⟩
    exact Begins.of_isBlank hb ha

namespace Alike

variable {s t u v u' v' : Text} {op : BinaryOp}

theorem operatorsBehind_eq (h : Alike s t) (blank : Bool) :
    operatorsBehind blank (chunks s) = operatorsBehind blank (chunks t) := by
  rw [← operatorsBehind_map_trim, h, operatorsBehind_map_trim]

theorem isBlank_last_eq (h : Alike s t) :
    isBlank (last (chunks s)) = isBlank (last (chunks t)) := by
  rw [← isBlank_trim, ← last_map_trim, h, last_map_trim, isBlank_trim]

theorem isBlank_eq (h : Alike s t) : isBlank s = isBlank t := by
  have himp : ∀ {s t : Text}, Alike s t → isBlank s = true → isBlank t = true := fun h hs => by
    rw [← isBlank_trim, ← h.trim_eq (quiet_of_isBlank hs), isBlank_trim, hs]
  exact Bool.eq_iff_iff.mpr ⟨himp h, himp h.symm⟩

theorem trailing (h : Alike s t) (hs : Trailing op s) : Trailing op t := by
  obtain ⟨w, b, rfl, ha, hb⟩ := hs
  obtain ⟨w', b', rfl, ha', -, hb'⟩ := h.exists_of_operator ha
  exact ⟨w', b', rfl, ha', hb'.isBlank_eq ▸ hb⟩

theorem begins (h : Alike s t) (hs : Begins op s) : Begins op t := by
  obtain ⟨b, v, rfl, hb, ha⟩ := begins_iff.mp hs
  obtain ⟨b', v', rfl, ha', hb', -⟩ := h.exists_of_operator ha
  exact begins_iff.mpr ⟨b', v', rfl, hb'.isBlank_eq ▸ hb, ha'⟩

theorem splitAt_eq_some (hu : Alike u u') (hv : Alike v v')
    (ha : op.allows u'.getLast? v'.head? = true)
    (h : splitAt op (u ++ op.char :: v) = some (u, v)) :
    splitAt op (u' ++ op.char :: v') = some (u', v') := by
  rw [splitAt] at h ⊢
  cases hg : op.grouping with
  | fromRight =>
    rw [hg] at h
    obtain ⟨-, -, hop, hub, hvb⟩ := splitFirst_eq_some_iff.mp h
    refine splitFirst_eq_some_iff.mpr ⟨rfl, ha, ?_, ?_, ?_⟩
    · rwa [← hu.operators_eq]
    · rwa [← hu.isBlank_eq]
    · rwa [← hv.isBlank_eq]
  | fromLeft =>
    rw [hg] at h
    obtain ⟨-, -, hlast, hop, hvb, hend⟩ := splitLast_eq_some_iff.mp h
    refine splitLast_eq_some_iff.mpr ⟨rfl, ha, ?_, ?_, ?_, fun ht => hend (hv.symm.trailing ht)⟩
    · rwa [← hu.isBlank_last_eq]
    · rwa [← hv.operatorsBehind_eq]
    · rwa [← hv.isBlank_eq]

theorem splitAt_eq_none (h : Alike s t) (hs : splitAt op s = none) : splitAt op t = none := by
  refine Option.eq_none_iff_forall_ne_some.mpr fun ⟨x, y⟩ hxy => ?_
  have ha := splitAt_allows hxy
  obtain rfl := splitAt_eq hxy
  obtain ⟨x', y', rfl, ha', hx, hy⟩ := h.symm.exists_of_operator ha
  rw [splitAt_eq_some hx hy ha' hxy] at hs
  cases hs

theorem split?_eq_some (hu : Alike u u') (hv : Alike v v')
    (ha : op.allows u'.getLast? v'.head? = true) (h : split? s = some ⟨op, u, v⟩) :
    split? (u' ++ op.char :: v') = some ⟨op, u', v'⟩ := by
  have hs := splitAt_of_split? h
  have hsa := splitAt_allows hs
  have halike : Alike s (u' ++ op.char :: v') := by
    rw [split?_eq h]
    exact hu.append_operator hv hsa ha
  rw [split?_eq h] at hs
  exact split?_of_splitAt (fun o ho => halike.splitAt_eq_none (splitAt_eq_none_of_lt h ho))
    (splitAt_eq_some hu hv ha hs)

theorem split?_eq_none (h : Alike s t) (hs : split? s = none) : split? t = none :=
  split?_eq_none_iff.mpr fun op => h.splitAt_eq_none (split?_eq_none_iff.mp hs op)

theorem exists_split (h : Alike s t) (hs : split? s = some ⟨op, u, v⟩) :
    ∃ u' v', split? t = some ⟨op, u', v'⟩ ∧ Alike u u' ∧ Alike v v' := by
  obtain ⟨u', v', rfl, ha, hu, hv⟩ := (split?_eq hs ▸ h).exists_of_operator (split?_allows hs)
  exact ⟨u', v', split?_eq_some hu hv ha hs, hu, hv⟩

end Alike

end Worksheet.Expression
