import Worksheet.Proofs.Session.Independence
import Worksheet.Proofs.Session.Trace
import Worksheet.Proofs.Statement.Targets

/-! # Reachable sessions

A session that comes from an empty one by lines and runs has variables whose names begin with an
ASCII letter, have no white space around them and hold no mark of a plain assignment. A line that
fails changes nothing, and a line that succeeds adds no name but its target.
-/
namespace Worksheet

namespace Session
open Text Statement Expression

/-- The sessions that lines and runs lead to, whatever calls are around each of them. -/
inductive Reachable : Session → Prop
  | fresh : Reachable {}
  | call {s : Session} (h : Reachable s) (caller : Caller) : Reachable { s with caller }
  | line {s : Session} (h : Reachable s) (line : Text) : Reachable (s.executeLine line).2
  | run {σ : Type} {s : Session} {listen : σ → Fault → σ} {heard : σ} {lines : List Text}
      {r : Run σ} (h : Reachable s) (hr : s.run listen heard lines = .ok r) : Reachable r.session

/-- The names that variables have. -/
structure IsVariable (x : Text) : Prop where
  letter : x.head?.any isAsciiLetter = true
  trimmed : trim x = x
  unmarked : ¬ HasPlainMark x

theorem IsVariable.isBlank_eq_false {x : Text} (h : IsVariable x) : isBlank x = false :=
  Bool.eq_false_iff.mpr fun hb => by
    have hletter := h.letter
    rw [← h.trimmed, trim_eq_nil_iff.mpr hb] at hletter
    cases hletter

def WellNamed (s : Session) : Prop := ∀ x ∈ s.vars.names, IsVariable x

variable {s : Session} {a : Statement} {line : Text}

theorem WellNamed.lettered (h : s.WellNamed) : Lettered s.vars.names := fun x hx =>
  any_isLetter (h x hx).letter

theorem airy_ofLine (h : Statement.ofLine line = .ok a) : Airy a.expression := by
  obtain ⟨m, -, -, -, rfl⟩ := ofLine_eq_ok_iff.mp h
  exact airy_pad _

theorem known_of_evaluate (h : Statement.ofLine line = .ok a) {value : Float}
    {after : Variables Float} {depth : Nat}
    (he : Expression.evaluate a.expression s.vars depth = (.ok value, after)) :
    Known s.vars.names a.expression ∧ ∀ x, x ∈ after.names ↔ x ∈ s.vars.names :=
  ensures_known depth (airy_ofLine h) s.vars value after (fun _ => Iff.rfl) he

/-- The target of a line that succeeds can be a name. A target is part of the expression that a
compound assignment stands for; so a plain mark in it would be in a leaf. -/
theorem isVariable_target (hs : s.WellNamed) (h : Statement.ofLine line = .ok a) {value : Float}
    {after : Variables Float} {depth : Nat}
    (he : Expression.evaluate a.expression s.vars depth = (.ok value, after)) :
    IsVariable a.target := by
  have hknown := (known_of_evaluate h he).1
  obtain ⟨m, hm, hletter, -, rfl⟩ := ofLine_eq_ok_iff.mp h
  refine ⟨hletter, trim_trim _, fun hmark => ?_⟩
  have hexpand : m.kind ≠ .plain → HasPlainMark (m.kind.expand (trim m.left) m.right) := by
    intro hne
    cases hk : m.kind with
    | plain => exact absurd hk hne
    | adding | subtracting => exact (hmark.append_right _).append_right _
  by_cases hk : m.kind = .plain
  · exact not_hasPlainMark_left hm hk (HasPlainMark.trim_iff.mp hmark)
  · exact HasPlainMark.not_of_known (fun x hx => (hs x hx).unmarked) hknown (hexpand hk).pad

theorem exists_of_executeLine_ok {value : Float} {t : Session}
    (h : s.executeLine line = (.ok value, t)) :
    ∃ a after, Statement.ofLine line = .ok a ∧
      Expression.evaluate a.expression s.vars s.depth = (.ok value, after) ∧
      t = { s with vars := after.insert a.target value } := by
  cases ho : Statement.ofLine line with
  | error fault => simp [executeLine, ho] at h
  | ok a =>
    rw [executeLine_ok ho] at h
    rcases he : Expression.evaluate a.expression s.vars s.depth with ⟨failure | v, after⟩
    · rw [execute_fails he] at h
      cases h
    · rw [execute_ok he] at h
      obtain ⟨hv, rfl⟩ := Prod.mk.inj h
      obtain rfl := Except.ok.inj hv
      exact ⟨a, after, rfl, he, rfl⟩

theorem mem_names_executeLine_ok {value : Float} {t : Session} {x : Text}
    (ho : Statement.ofLine line = .ok a) (h : s.executeLine line = (.ok value, t)) :
    x ∈ t.vars.names ↔ x = a.target ∨ x ∈ s.vars.names := by
  obtain ⟨b, after, hb, he, rfl⟩ := exists_of_executeLine_ok h
  obtain rfl := Except.ok.inj (ho.symm.trans hb)
  rw [Variables.mem_names_insert, (known_of_evaluate ho he).2]

theorem wellNamed_executeLine (hs : s.WellNamed) (line : Text) :
    (s.executeLine line).2.WellNamed := by
  rcases hl : s.executeLine line with ⟨fault | value, t⟩
  · obtain rfl := executeLine_error hl
    exact hs
  · obtain ⟨a, after, ho, he, -⟩ := exists_of_executeLine_ok hl
    intro x hx
    rcases (mem_names_executeLine_ok ho hl).mp hx with rfl | hx
    · exact isVariable_target hs ho he
    · exact hs x hx

theorem wellNamed_afterLines (hs : s.WellNamed) (lines : List Text) :
    (afterLines s lines).WellNamed := by
  induction s, lines using lines_induction with
  | nil s => exact hs
  | blank s line rest h ih =>
    rw [afterLines_blank s h]
    exact ih hs
  | line s line rest h ih =>
    rw [afterLines_line s h]
    exact ih (wellNamed_executeLine hs line)

theorem Reachable.wellNamed (h : Reachable s) : s.WellNamed := by
  induction h with
  | fresh => exact nofun
  | call _ _ ih => exact ih
  | line _ line ih => exact wellNamed_executeLine ih line
  | run _ hr ih =>
    rw [session_of_run hr]
    exact wellNamed_afterLines ih _

end Session

end Worksheet
