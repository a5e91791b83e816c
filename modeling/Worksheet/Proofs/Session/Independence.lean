import Worksheet.Session
import Worksheet.Proofs.Expression.Leaves

/-! # Independence

Statements are independent when neither writes a variable that the other mentions. Executing two
independent statements in either order gives the same session, and both have the outcomes that each
would have alone, also where one or both fail.
-/
namespace Worksheet
open Text Expression

namespace Statement

/-- The target and the names of the steps. -/
def written (a : Statement) : List Text := a.target :: Expression.written a.expression

/-- The names that are written, and all names and operand texts of the expression. -/
def mentioned (a : Statement) : List Text := a.written ++ Expression.mentioned a.expression

structure Independent (a b : Statement) : Prop where
  left : ∀ x ∈ a.written, x ∉ b.mentioned
  right : ∀ x ∈ b.written, x ∉ a.mentioned

theorem Independent.symm {a b : Statement} (h : Independent a b) : Independent b a :=
  ⟨h.right, h.left⟩

end Statement

namespace Session
open Statement

variable {s t : Session} {a b : Statement} {x : Text}

theorem execute_ok {value : Float} {after : Variables Float}
    (h : Expression.evaluate a.expression s.vars s.depth = (.ok value, after)) :
    s.execute a = (.ok value, { s with vars := after.insert a.target value }) := by
  rw [execute, h]

theorem execute_fails {failure : Failure} {after : Variables Float}
    (h : Expression.evaluate a.expression s.vars s.depth = (.error failure, after)) :
    s.execute a = (.error (.ofFailure a.expression failure), s) := by
  rw [execute, h]

theorem execute_frame (s : Session) (h : x ∉ a.written) :
    (s.execute a).2.vars.get? x = s.vars.get? x := by
  obtain ⟨htarget, hsteps⟩ : x ≠ a.target ∧ x ∉ Expression.written a.expression := by
    simpa [Statement.written] using h
  have hframe := evaluate_frame a.expression s.vars s.depth hsteps
  rcases he : Expression.evaluate a.expression s.vars s.depth with ⟨failure | value, after⟩
  · rw [execute_fails he]
  · rw [execute_ok he]
    rw [he] at hframe
    exact (Variables.get?_insert_of_ne value htarget).trans hframe

theorem execute_agree (hcaller : s.caller = t.caller) (h : AgreeOn a.mentioned s.vars t.vars) :
    (s.execute a).1 = (t.execute a).1 ∧
      ∀ x, s.vars.get? x = t.vars.get? x →
        (s.execute a).2.vars.get? x = (t.execute a).2.vars.get? x := by
  obtain ⟨hsame, hstays⟩ := evaluate_agree s.depth (h.mono (List.subset_append_right _ _))
  have hdepth : s.depth = t.depth := by simp only [depth, hcaller]
  rcases hs : Expression.evaluate a.expression s.vars s.depth with ⟨failure | value, s'⟩ <;>
    rcases ht : Expression.evaluate a.expression t.vars s.depth with ⟨failure' | value', t'⟩ <;>
    rw [hs, ht] at hsame <;> cases hsame
  · rw [execute_fails hs, execute_fails (hdepth ▸ ht)]
    exact ⟨rfl, fun x hx => hx⟩
  · rw [execute_ok hs, execute_ok (hdepth ▸ ht)]
    refine ⟨rfl, fun x hx => ?_⟩
    have hafter := hstays x hx
    rw [hs, ht] at hafter
    simp only [Variables.get?_insert, hafter]

theorem agreeOn_execute (s : Session) (h : Independent a b) :
    AgreeOn b.mentioned (s.execute a).2.vars s.vars := fun x hx =>
  s.execute_frame fun hw => h.left x hw hx

theorem execute_comm (s : Session) (h : Independent a b) :
    ((s.execute a).2.execute b).2 = ((s.execute b).2.execute a).2 := by
  refine Session.ext (Variables.ext fun x => ?_) (by simp only [execute_caller])
  have hb := (execute_agree (s.execute_caller a) (s.agreeOn_execute h)).2 x
  have ha := (execute_agree (s.execute_caller b) (s.agreeOn_execute h.symm)).2 x
  by_cases hx : x ∈ a.written
  · have hxb : x ∉ b.written := fun hw => h.left x hx (List.mem_append_left _ hw)
    rw [execute_frame _ hxb]
    exact (ha (s.execute_frame hxb)).symm
  · rw [execute_frame _ hx]
    exact hb (s.execute_frame hx)

theorem executeLine_ok {line : Text} (h : Statement.ofLine line = .ok a) (s : Session) :
    s.executeLine line = s.execute a := by
  rw [executeLine, h]

/-- Lines that state independent statements can be executed in either order: the session is the
same in the end, and each line has the outcome that it has without the other one before it. -/
theorem executeLine_comm (s : Session) {k l : Text} (hk : Statement.ofLine k = .ok a)
    (hl : Statement.ofLine l = .ok b) (h : Independent a b) :
    ((s.executeLine k).2.executeLine l).2 = ((s.executeLine l).2.executeLine k).2 ∧
      ((s.executeLine k).2.executeLine l).1 = (s.executeLine l).1 ∧
      ((s.executeLine l).2.executeLine k).1 = (s.executeLine k).1 := by
  simp only [executeLine_ok hk, executeLine_ok hl]
  exact ⟨s.execute_comm h, (execute_agree (s.execute_caller a) (s.agreeOn_execute h)).1,
    (execute_agree (s.execute_caller b) (s.agreeOn_execute h.symm)).1⟩

/-- The second line fails behind a step of its own variable. -/
theorem executeLine_comm_failing :
    let s : Session := { vars := .ofList [(['b'], 1), (['c'], 3)] }
    let k := "a = b++ * 2 + b".toList
    let l := "c += --c / d".toList
    let a : Statement := ⟨.plain, ['a'], " b++ * 2 + b".toList⟩
    let b : Statement := ⟨.adding, ['c'], "c + --c / d".toList⟩
    Statement.ofLine k = .ok a ∧ Statement.ofLine l = .ok b ∧ Independent a b ∧
      ((s.executeLine k).2.executeLine l).2 = ((s.executeLine l).2.executeLine k).2 ∧
      ((s.executeLine k).2.executeLine l).1 = (s.executeLine l).1 ∧
      ((s.executeLine l).2.executeLine k).1 = (s.executeLine k).1 := by
  intro s k l a b
  have hk : Statement.ofLine k = .ok a := by decide +kernel
  have hl : Statement.ofLine l = .ok b := by decide +kernel
  have h : Independent a b := ⟨by decide +kernel, by decide +kernel⟩
  exact ⟨hk, hl, h, executeLine_comm s hk hl h⟩

end Session

end Worksheet
