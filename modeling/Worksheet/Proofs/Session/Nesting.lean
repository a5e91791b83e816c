import Worksheet.Proofs.Expression.Nests
import Worksheet.Proofs.Expression.NormalForm
import Worksheet.Proofs.Session.Reachable

/-! # Lines that are too deep

A line is too deep when too many evaluations nest in that of its expression. In a session this takes
a long run of signs, whatever calls are around the line.
-/
namespace Worksheet

namespace Session
open Text Statement Expression

variable {s : Session} {a : Statement} {line : Text}

/-- The line has an expression of which the evaluation takes too many levels. -/
def TooDeep (s : Session) (line : Text) : Prop := ∃ e, (s.executeLine line).1 = .error (.tooDeep e)

theorem execute_tooDeep (h : GivesUp (evaluateWithin s.depth a.expression) s.vars) :
    s.execute a = (.error (.tooDeep a.expression), s) := by
  have he : evaluate a.expression s.vars s.depth = (.error .tooDeep, _) := Prod.ext h rfl
  rw [execute_fails he]
  rfl

theorem tooDeep_iff_givesUp (ho : Statement.ofLine line = .ok a) :
    TooDeep s line ↔ GivesUp (evaluateWithin s.depth a.expression) s.vars := by
  constructor
  · rintro ⟨e, he⟩
    rw [executeLine_ok ho] at he
    rcases hev : evaluate a.expression s.vars s.depth with ⟨failure | value, after⟩
    · rw [execute_fails hev] at he
      cases failure with
      | unknownVariable | notANumber => cases he
      | tooDeep => exact congrArg Prod.fst hev
    · rw [execute_ok hev] at he
      cases he
  · intro h
    exact ⟨a.expression, by rw [executeLine_ok ho, execute_tooDeep h]⟩

theorem exists_of_tooDeep (h : TooDeep s line) : ∃ a, Statement.ofLine line = .ok a := by
  obtain ⟨e, he⟩ := h
  cases ho : Statement.ofLine line with
  | error fault =>
    obtain ⟨reason, -, rfl⟩ := exists_of_ofLine_eq_error ho
    simp [executeLine, ho] at he
  | ok a => exact ⟨a, rfl⟩

def lineSignRun (line : Text) : Nat :=
  match Statement.ofLine line with
  | .ok a => signRun a.expression
  | .error _ => 0

theorem lineSignRun_eq (ho : Statement.ofLine line = .ok a) :
    lineSignRun line = signRun a.expression := by rw [lineSignRun, ho]

/-- Whatever calls are around it, a line is too deep only with a run of more than 980 signs. -/
theorem WellNamed.not_tooDeep (hs : s.WellNamed) (hrun : lineSignRun line ≤ 980) :
    ¬ TooDeep s line := by
  intro h
  obtain ⟨a, ho⟩ := exists_of_tooDeep h
  have hdeep := (tooDeep_iff_givesUp ho).mp h
  have hlevels := s.le_depth
  rw [lineSignRun_eq ho] at hrun
  rw [← pad_ofLine ho] at hdeep
  exact evaluateWithin_ne_tooDeep hs.lettered (by omega) hdeep

/-- Only runs of signs can be too deep. Whatever the operators of a text and their order, no more
evaluations nest in its evaluation after padding than its longest run of signs is long, and eleven
more. So no line of a reachable session is too deep of which the expression has at most two hundred
signs in a row. -/
theorem nests_bounded :
    (∀ {α : Type} [Arithmetic α] (s : Text) (vars : Variables α), Lettered vars.names →
      ∀ n, Nests n (pad s) vars → n ≤ signRun s + 11) ∧
    ∀ (s : Session) (line : Text), Reachable s →
      (∀ a, Statement.ofLine line = .ok a → signRun a.expression ≤ 200) →
      ∀ e, (s.executeLine line).1 ≠ .error (.tooDeep e) := by
  refine ⟨fun _ _ hl _ h => h.le hl, fun s line hs hrun e he => ?_⟩
  obtain ⟨a, ho⟩ := exists_of_tooDeep ⟨e, he⟩
  have hsigns := hrun a ho
  rw [← lineSignRun_eq ho] at hsigns
  exact hs.wellNamed.not_tooDeep (by omega) ⟨e, he⟩

/-- Five evaluations nest at a run of three signs behind an operator. A line with two hundred signs
in a row is not too deep. -/
theorem nests_bounded_signs :
    let vars := (Variables.empty : Variables Float).insert ['a'] 1
    let text := "a* - - -a /".toList
    let line := "x = ".toList ++ (List.replicate 200 "- ".toList).flatten ++ ['a']
    let s := (executeLine {} "a = 1".toList).2
    Lettered vars.names ∧ Nests 5 (pad text) vars ∧ signRun text = 3 ∧
      (∀ n, Nests n (pad text) vars → n ≤ 14) ∧
      Reachable s ∧ (∀ a, Statement.ofLine line = .ok a → signRun a.expression ≤ 200) ∧
      ∀ e, (s.executeLine line).1 ≠ .error (.tooDeep e) := by
  intro vars text line s
  have hl : Lettered vars.names := by
    unfold Lettered
    decide +kernel
  have hsplit : split? (pad text) = some ⟨.star, "a ".toList, "  -  -  - a / ".toList⟩ := by
    decide +kernel
  have hthree : Calls "  -  -  - a / ".toList vars "  -  - a /".toList vars :=
    .sign (by decide +kernel) (by decide +kernel) vars
  have htwo : Calls "  -  - a /".toList vars "  - a /".toList vars :=
    .sign (by decide +kernel) (by decide +kernel) vars
  have hone : Calls "  - a /".toList vars " a /".toList vars :=
    .sign (by decide +kernel) (by decide +kernel) vars
  have hsigns : Nests 4 "  -  -  - a / ".toList vars :=
    .call hthree (.call htwo (.call hone (.one _ vars)))
  have hfirst : (evaluateHalves "a ".toList).run.run vars = (.ok 1, vars) := by
    change @Eq (Except Failure Float × Variables Float) _ _
    decide +kernel
  have hchain : operands .star (pad text) = ⟨"a ".toList, ["  -  -  - a / ".toList]⟩ := by
    decide +kernel
  have hcall : Calls (pad text) vars "  -  -  - a / ".toList vars := by
    refine .operand hsplit ?_
    rw [hchain]
    exact .later hfirst (.here _ _ vars)
  have hrun : signRun text = 3 := by decide +kernel
  have hs : Reachable s := Reachable.fresh.line _
  have hline : Statement.ofLine line = .ok ⟨.plain, ['x'],
      (List.replicate 200 " - ".toList).flatten ++ ['a']⟩ := by decide +kernel
  have hlong : ∀ a, Statement.ofLine line = .ok a → signRun a.expression ≤ 200 := by
    intro a ha
    obtain rfl := Except.ok.inj (hline.symm.trans ha)
    decide +kernel
  obtain ⟨hbound, hdeep⟩ := nests_bounded
  have hle : ∀ n, Nests n (pad text) vars → n ≤ 14 := fun n h => by
    have hn := hbound text vars hl n h
    rwa [hrun] at hn
  exact ⟨hl, .call hcall hsigns, hrun, hle, hs, hlong, hdeep s line hs hlong⟩

end Session

end Worksheet
