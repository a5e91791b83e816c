import Worksheet.Proofs.Expression.Known
import Worksheet.Proofs.Expression.Pasted
import Worksheet.Proofs.Expression.Recursion

/-! # Leftmost terms

A sum or a difference has a left half, which may be one itself, and so on down to a leftmost term.
A minus that is put in front of the whole goes to this term. All that stands behind the term is
evaluated as it is without the minus, over the same variables.
-/
namespace Worksheet.Expression
open Text

/-- Texts of which the leftmost term can take a minus from in front. -/
inductive TermFirst : Text → Prop
  | term {s : Text} (h : SingleTerm s) : TermFirst s
  | split {op : BinaryOp} {s left right : Text} (hs : split? (pad s) = some ⟨op, left, right⟩)
      (hop : op = .plus ∨ op = .minus) (h : TermFirst left) : TermFirst s

variable {α : Type} [Arithmetic α] {n s u v : Text} {op : BinaryOp} {vars after : Variables α}
  {depth : Nat} {r w : α}

section Levels

variable (hl : Lettered vars.names) (hd : signRun s + 10 < depth)
include hl hd

theorem evaluate_pad_of_le {deeper : Nat} (h : depth ≤ deeper) :
    evaluate (pad s) vars deeper = evaluate (pad s) vars depth :=
  evaluate_of_le h (evaluateWithin_ne_tooDeep hl hd)

theorem evaluate_pad_eq_halves :
    evaluate (pad s) vars depth = (evaluateHalves (pad s)).run.run vars :=
  (extends_evaluateHalves depth (pad s) vars (evaluateWithin_ne_tooDeep hl hd)).symm

/-- A text that is padded but for its ends is evaluated by plain recursion as it stands. -/
theorem evaluate_eq_halves (h : trim (pad s) = trim s) :
    evaluate s vars depth = (evaluateHalves s).run.run vars := by
  have hne : (evaluate s vars depth).1 ≠ .error .tooDeep := by
    rw [Ne, ← told_eq_tooDeep, ← told_evaluate h, told_eq_tooDeep]
    exact evaluateWithin_ne_tooDeep hl hd
  exact (extends_evaluateHalves depth s vars hne).symm

end Levels

theorem not_begins_of_evaluate (hl : Lettered vars.names)
    (h : evaluate (pad s) vars depth = (.ok r, after)) : ¬ Begins .plus s := by
  intro hb
  have hknown := ensures_known depth (airy_pad s) vars r after (fun _ => Iff.rfl) h
  have hne : BinaryOp.plus ≠ .minus := nofun
  exact hknown.1.not_begins hl hne ((alike_pad s).symm.begins hb)

theorem signRun_halves (hs : split? (pad s) = some ⟨op, u, v⟩) :
    signRun u ≤ signRun s ∧ signRun v ≤ signRun s := by
  rw [← (alike_pad s).signRun_eq, split?_eq hs]
  exact ⟨signRun_le_left (split?_allows hs), signRun_le_right (split?_allows hs)⟩

theorem exists_of_evaluate_split (hl : Lettered vars.names)
    (hs : split? (pad s) = some ⟨op, u, v⟩) (hd : signRun s + 10 < depth)
    (h : evaluate (pad s) vars depth = (.ok r, after)) :
    ∃ l mid y, evaluate (pad u) vars depth = (.ok l, mid) ∧
      evaluate (pad v) mid depth = (.ok y, after) ∧ r = op.apply l y := by
  obtain ⟨hu, hv⟩ := signRun_halves hs
  obtain ⟨htu, htv⟩ := trim_pad_halves hs
  rw [evaluate_pad_eq_halves hl hd, evaluateHalves_of_split hs, run_inOrder] at h
  rcases hleft : (evaluateHalves u).run.run vars with ⟨f | l, mid⟩
  · simp [hleft] at h
  have hleft' : evaluate (pad u) vars depth = (.ok l, mid) :=
    (evaluate_eq_ok_iff htu).mpr ((evaluate_eq_halves hl (by omega) htu).trans hleft)
  have hmid : Lettered mid.names := fun x hx => hl x
    (((ensures_known depth (airy_pad u) vars l mid (fun _ => Iff.rfl) hleft').2 x).mp hx)
  rw [hleft] at h
  rcases hright : (evaluateHalves v).run.run mid with ⟨f | y, last⟩
  · simp [hright, Except.map] at h
  simp only [hright] at h
  obtain ⟨hr, rfl⟩ := Prod.mk.inj h
  have hright' : evaluate (pad v) mid depth = (.ok y, last) :=
    (evaluate_eq_ok_iff htv).mpr ((evaluate_eq_halves hmid (by omega) htv).trans hright)
  exact ⟨l, mid, y, hleft', hright', (Except.ok.inj hr).symm⟩

/-- Behind a minus a text of one term has the negative of its value added. -/
theorem evaluate_pasted_minus_of_term (hn : IsName n) (hs : SingleTerm s)
    (hblank : isBlank s = false) (hl : Lettered vars.names) (hv : vars.get? n = some w)
    (hd : signRun s + 10 < depth) (h : evaluate (pad s) vars depth = (.ok r, after)) {t : Text}
    (ht : Alike t s) :
    evaluate (pad (n ++ ' ' :: BinaryOp.minus.char :: ' ' :: t)) vars (depth + 2) =
      (.ok (w - r), after) := by
  have hsplit := hs.split?_pasted hn hblank (not_begins_of_evaluate hl h)
  have hdiff := told_evaluate_pasted hn ht hsplit (by omega) (evaluateWithin_ne_tooDeep hl hd)
  simp only [hv, h] at hdiff
  exact eq_of_told_eq_ok hdiff

/-- Behind a minus a text with a value has one as well, if its leftmost term can take the minus, and
leaves the same variables. -/
theorem exists_evaluate_pasted_minus (hn : IsName n) (hf : TermFirst s)
    (hblank : isBlank s = false) (hl : Lettered vars.names) (hv : vars.get? n = some w)
    (hd : signRun s + 10 < depth) (h : evaluate (pad s) vars depth = (.ok r, after)) :
    ∃ x, evaluate (pad (n ++ ' ' :: BinaryOp.minus.char :: ' ' :: s)) vars depth =
      (.ok x, after) := by
  have hpaste : ∀ t, signRun (n ++ ' ' :: BinaryOp.minus.char :: ' ' :: t) = signRun t :=
    signRun_paste hn .minus
  induction hf generalizing r after with
  | @term s hs =>
    refine ⟨w - r, ?_⟩
    rw [← evaluate_pad_of_le hl (by rwa [hpaste]) (Nat.le_add_right depth 2)]
    exact evaluate_pasted_minus_of_term hn hs hblank hl hv hd h rfl
  | @split op s left right hs hop _ ih =>
    obtain ⟨l, mid, y, hleft, hright, -⟩ := exists_of_evaluate_split hl hs hd h
    have hrun := (signRun_halves hs).1
    obtain ⟨x, hx⟩ := ih (not_isBlank_of_split? hs).1 (by omega) hleft
    refine ⟨op.apply x y, ?_⟩
    rw [← evaluate_pad_of_le hl (by rwa [hpaste]) (Nat.le_add_right depth 2)]
    exact evaluate_pasted_minus_of_split hn rfl (not_begins_of_evaluate hl h) hs hop hx hright

end Worksheet.Expression
