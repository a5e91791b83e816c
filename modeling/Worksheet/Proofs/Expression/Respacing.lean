import Worksheet.Fault
import Worksheet.Proofs.Expression.Glyphs
import Worksheet.Proofs.Expression.Margins

/-! # Respaced texts

White space may be put in or taken out on the two sides of an operator, as long as that stays one,
and at the two ends of a text. What comes of a text in this way is exactly what is alike to it. So
padded texts that differ in their spacing have the same value and make the same steps, and where
they fail they say the same.
-/
namespace Worksheet.Expression
open Text Series

/-- Texts that come from each other by white space at the ends, or before or behind operators that
are operators in either text. -/
inductive Respaced : Text → Text → Prop
  | ends {b b' d d' : Text} (hb : isBlank b = true) (hb' : isBlank b' = true)
      (hd : isBlank d = true) (hd' : isBlank d' = true) (s : Text) :
      Respaced (b ++ s ++ b') (d ++ s ++ d')
  | before {u v b b' : Text} {op : BinaryOp} (hb : isBlank b = true) (hb' : isBlank b' = true)
      (ha : op.allows (u ++ b).getLast? v.head? = true)
      (ha' : op.allows (u ++ b').getLast? v.head? = true) :
      Respaced (u ++ b ++ op.char :: v) (u ++ b' ++ op.char :: v)
  | behind {u v b b' : Text} {op : BinaryOp} (hb : isBlank b = true) (hb' : isBlank b' = true)
      (ha : op.allows u.getLast? (b ++ v).head? = true)
      (ha' : op.allows u.getLast? (b' ++ v).head? = true) :
      Respaced (u ++ op.char :: (b ++ v)) (u ++ op.char :: (b' ++ v))
  | trans {s t u : Text} (h : Respaced s t) (h' : Respaced t u) : Respaced s u

section Allows
variable {op : BinaryOp} {before after : Option Char}

theorem allows_space_behind (h : op.allows before after = true) :
    op.allows before (some ' ') = true := by
  cases op <;> simp_all [BinaryOp.allows]

theorem allows_append_front {b : Text} (hb : isBlank b = true) (u : Text) :
    op.allows (b ++ u).getLast? after = op.allows u.getLast? after := by
  have hhead := head?_append_blank u.reverse (b := b.reverse) (by simpa using hb)
  rw [← List.reverse_append, List.head?_reverse, List.head?_reverse] at hhead
  rw [← op.allows_filter, hhead, op.allows_filter]

end Allows

namespace Respaced

variable {s t u u' v v' : Text} {op : BinaryOp}

theorem alike (h : Respaced s t) : Alike s t := by
  induction h with
  | ends hb hb' hd hd' s =>
    have hends : ∀ {b b' : Text}, isBlank b = true → isBlank b' = true →
        Alike (b ++ s ++ b') s := fun hb hb' =>
      (alike_append_right _ hb').trans (alike_append_left hb s)
    exact (hends hb hb').trans (hends hd hd').symm
  | @before u v b b' op hb hb' ha ha' =>
    have hu : Alike (u ++ b) (u ++ b') := (alike_append_right u hb).trans
      (alike_append_right u hb').symm
    exact hu.append_operator rfl ha ha'
  | @behind u v b b' op hb hb' ha ha' =>
    have hv : Alike (b ++ v) (b' ++ v) := (alike_append_left hb v).trans
      (alike_append_left hb' v).symm
    exact Alike.append_operator rfl hv ha ha'
  | trans _ _ ih ih' => exact ih.trans ih'

theorem glyphs_eq (h : Respaced s t) : glyphs s = glyphs t := h.alike.glyphs_eq

/-- A text stays respaced behind an operator and a space. The space keeps the operator apart from
whatever the text begins with. -/
theorem append_left (h : Respaced v v') (ha : op.allows u.getLast? (some ' ') = true) :
    Respaced (u ++ op.char :: ' ' :: v) (u ++ op.char :: ' ' :: v') := by
  have hoperator : ∀ {o : BinaryOp} {x y : Text}, o.allows x.getLast? y.head? = true →
      o.allows (u ++ op.char :: ' ' :: x).getLast? y.head? = true := fun {o x y} ho =>
    allows_append_left (x := ' ' :: x) ha ((allows_append_front isBlank_space x).trans ho)
  induction h with
  | @ends b b' d d' hb hb' hd hd' s =>
    have hfront : Respaced (u ++ op.char :: ((' ' :: b) ++ (s ++ b')))
        (u ++ op.char :: ((' ' :: d) ++ (s ++ b'))) := behind hb hd ha ha
    have hend : Respaced ([] ++ (u ++ op.char :: ' ' :: (d ++ s)) ++ b')
        ([] ++ (u ++ op.char :: ' ' :: (d ++ s)) ++ d') := ends rfl hb' rfl hd' _
    simp only [List.nil_append, List.cons_append, List.append_assoc] at hfront hend ⊢
    exact hfront.trans hend
  | @before x y b b' o hb hb' ho ho' =>
    have hinner := before (u := u ++ op.char :: ' ' :: x) hb hb'
      (by simpa using hoperator ho) (by simpa using hoperator ho')
    simpa using hinner
  | @behind x y b b' o hb hb' ho ho' =>
    have hinner := behind hb hb' (hoperator ho) (hoperator ho')
    simpa using hinner
  | trans _ _ ih ih' => exact ih.trans ih'

theorem append_right (hu : trim u = trim u') (ha : op.allows u.getLast? v.head? = true)
    (ha' : op.allows u'.getLast? v.head? = true) :
    Respaced (u ++ op.char :: v) (u' ++ op.char :: v) := by
  obtain ⟨b, b', hb, hb', h⟩ := exists_trim u
  obtain ⟨d, d', hd, hd', h'⟩ := exists_trim u'
  rw [← hu] at h'
  generalize trim u = w at h h'
  subst h h'
  have hfront : Respaced (b ++ (w ++ b' ++ op.char :: v) ++ [])
      (d ++ (w ++ b' ++ op.char :: v) ++ []) := ends hb rfl hd rfl _
  have hmoved : op.allows (d ++ w ++ b').getLast? v.head? = true := by
    rw [List.append_assoc, allows_append_front hb] at ha
    rw [List.append_assoc, allows_append_front hd, ha]
  have hback : Respaced (d ++ w ++ b' ++ op.char :: v) (d ++ w ++ d' ++ op.char :: v) :=
    before hb' hd' hmoved ha'
  simp only [List.append_nil, List.append_assoc] at hfront hback ⊢
  exact hfront.trans hback

/-- A space that is put in behind the operator lets the right sides change, and is then taken
out. -/
theorem append_operator (hu : trim u = trim u') (hv : Respaced v v')
    (ha : op.allows u.getLast? v.head? = true) (ha' : op.allows u'.getLast? v'.head? = true) :
    Respaced (u ++ op.char :: v) (u' ++ op.char :: v') := by
  have hspace := allows_space_behind ha
  have hspace' := allows_space_behind ha'
  have hin : Respaced (u ++ op.char :: ([] ++ v)) (u ++ op.char :: ([' '] ++ v)) :=
    behind rfl isBlank_space ha hspace
  have hout : Respaced (u' ++ op.char :: ([' '] ++ v')) (u' ++ op.char :: ([] ++ v')) :=
    behind isBlank_space rfl hspace' ha'
  exact ((hin.trans (append_right hu hspace hspace')).trans (hv.append_left hspace')).trans hout

end Respaced

/-- To respace a text is to change the white space around its chunks. -/
theorem respaced_iff_alike {s t : Text} : Respaced s t ↔ Alike s t := by
  refine ⟨Respaced.alike, fun h => ?_⟩
  generalize hp : chunks s = p
  induction p using attach_induction generalizing s t with
  | single c =>
    have htrim := h.trim_eq (quiet_of_chunks_eq_single hp)
    obtain ⟨b, b', hb, hb', hs⟩ := exists_trim s
    obtain ⟨d, d', hd, hd', ht⟩ := exists_trim t
    rw [hs, ht, ← htrim]
    exact .ends hb hb' hd hd' _
  | attach c op p ih =>
    obtain ⟨u, v, rfl, ha, hu, hv⟩ := exists_of_chunks_eq_attach hp
    obtain ⟨u', v', rfl, ha', hleft, hright⟩ := h.exists_of_operator ha
    exact .append_operator (hleft.trim_eq (quiet_of_chunks_eq_single hu)) (ih hright hv) ha ha'

section Report
variable {α : Type}

/-- What is made known of an evaluation: the value, or of which kind a failure is and what it says,
and the variables afterwards. -/
def report (expression : Text) (outcome : Except Failure α × Variables α) :
    Except (Diagnostic × Text) α × Variables α :=
  (outcome.1.mapError fun f =>
    ((Fault.ofFailure expression f).diagnostic, (Fault.ofFailure expression f).message), outcome.2)

theorem diagnostic_trimmed (f : Failure) (e e' : Text) :
    (Fault.ofFailure e f.trimmed).diagnostic = (Fault.ofFailure e' f).diagnostic := by
  cases f <;> rfl

theorem message_trimmed {f : Failure} {e e' : Text}
    (h : f.trimmed = .tooDeep → trim e = trim e') :
    (Fault.ofFailure e f.trimmed).message = (Fault.ofFailure e' f).message := by
  cases f with
  | unknownVariable x context =>
    change _ ++ quote (trim (trim context)) = _ ++ quote (trim context)
    rw [trim_trim]
  | notANumber text =>
    change _ ++ quote (trim (trim text)) = _ ++ quote (trim text)
    rw [trim_trim]
  | tooDeep =>
    change _ ++ quote ((trim e).take _) ++ _ = _ ++ quote ((trim e').take _) ++ _
    rw [h rfl]

theorem report_told {e e' : Text} (h : trim e = trim e') (o : Except Failure α × Variables α) :
    report e (told o) = report e' o := by
  rcases o with ⟨f | value, after⟩
  · simp only [report, told, Except.mapError, diagnostic_trimmed f e e',
      message_trimmed fun _ => h]
  · rfl

theorem report_evaluate [Arithmetic α] {s t : Text} (h : trim s = trim t) (vars : Variables α)
    (depth : Nat) : report s (evaluate s vars depth) = report t (evaluate t vars depth) := by
  calc
    report s (evaluate s vars depth) = report t (told (evaluate s vars depth)) :=
      (report_told h.symm _).symm
    _ = report t (told (evaluate t vars depth)) := by rw [told_evaluate h]
    _ = report t (evaluate t vars depth) := report_told rfl _

end Report

/-- Spacing does not matter. Padded texts that come from each other by white space around operators
and at the ends have the same value, or fail in the same way and with the same message, and leave
the same variables behind. So does, also without padding, a text with white space at its ends. -/
theorem evaluate_respaced {α : Type} [Arithmetic α] (vars : Variables α) (depth : Nat) :
    (∀ {s t : Text}, Respaced s t →
      report (pad s) (evaluate (pad s) vars depth) =
        report (pad t) (evaluate (pad t) vars depth)) ∧
    ∀ {b b' : Text} (s : Text), isBlank b = true → isBlank b' = true →
      report (b ++ s ++ b') (evaluate (b ++ s ++ b') vars depth) =
        report s (evaluate s vars depth) :=
  ⟨fun h => report_evaluate h.alike.trim_pad_eq vars depth,
    fun s hb hb' => report_evaluate (trim_append_of_isBlank hb s hb') vars depth⟩

/-- A text that fails behind a step, in two spacings. Both failures say the same, though the texts
that they hold differ. -/
theorem evaluate_respaced_failing_product :
    let vars := (Variables.empty : Variables Float).insert ['a'] 1
    let s := "a++ *-2+ q".toList
    let t := " a++* - 2 +q  ".toList
    Respaced s t ∧ evaluate (pad s) vars ≠ evaluate (pad t) vars ∧
      report (pad s) (evaluate (pad s) vars) = report (pad t) (evaluate (pad t) vars) ∧
      isBlank "\t".toList = true ∧
      report ("\t".toList ++ s ++ "\t".toList) (evaluate ("\t".toList ++ s ++ "\t".toList) vars) =
        report s (evaluate s vars) := by
  intro vars s t
  have hst : Respaced s t := respaced_iff_alike.mpr (by unfold Alike; decide +kernel)
  have hb : isBlank "\t".toList = true := by decide
  obtain ⟨hpadded, hends⟩ := evaluate_respaced vars maxDepth
  exact ⟨hst, by decide +kernel, hpadded hst, hb, hends s hb hb⟩

end Worksheet.Expression
