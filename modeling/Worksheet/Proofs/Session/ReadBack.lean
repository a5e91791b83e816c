import Worksheet.Proofs.Expression.Margins
import Worksheet.Proofs.Session.Reachable

/-! # Reading back

What a line stored under its target can be read back by the target, if the target is read as one
operand. A target only has to begin with a letter; so it may also be a text that is read as an
operation on other names.
-/
namespace Worksheet
open Text

namespace Expression

/-- Texts that are read as one operand and are no step. -/
structure Whole (t : Text) : Prop where
  padded : trim (pad t) = t
  unsplit : split? (pad t) = none
  unmarked : ∀ d : Direction, ¬ d.mark <:+ t

/-- A text without operators is whole, unless it ends in a mark. -/
theorem whole_of_quiet {t : Text} (h : Quiet t) (ht : trim t = t)
    (hm : ∀ d : Direction, ¬ d.mark <:+ t) : Whole t := by
  have hpad : pad t = t := pad_of_quiet h
  exact ⟨by rw [hpad, ht], by rw [hpad]; exact split?_eq_none (splitAt_eq_none_of_quiet h), hm⟩

theorem ofTerm_of_letter {t : Text} (hl : t.head?.any isLetter = true)
    (hm : ∀ d : Direction, ¬ d.mark <:+ t) : Operand.ofTerm t = .plain t := by
  have hhead : ∀ op : BinaryOp, t.head? ≠ some op.char := fun op hc => by
    rw [hc, Option.any_some, not_isLetter_char] at hl
    exact Bool.noConfusion hl
  exact ofTerm_eq_plain hhead hm

variable {α : Type} [Arithmetic α]

theorem evaluate_whole {t : Text} (ht : Whole t) (hl : t.head?.any isLetter = true)
    {vars : Variables α} {value : α} (hv : vars.get? t = some value) (depth : Nat) :
    evaluate (pad t) vars (depth + 1) = (.ok value, vars) := by
  rw [evaluate, evaluateWithin_leaf ht.unsplit, ht.padded,
    ofTerm_of_letter hl ht.unmarked, run_lookUp, hv]

end Expression

namespace Session
open Statement Expression

/-- A line that succeeds stores its value under its target, and an assignment of the target to any
name reads it back. -/
theorem executeLine_readBack {s t : Session} {line : Text} {a : Statement} {value : Float}
    (hs : Reachable s) (hl : Statement.ofLine line = .ok a)
    (he : s.executeLine line = (.ok value, t)) (ha : Whole a.target) {z : Text}
    (hz : IsTarget z) :
    t.executeLine (z ++ " = ".toList ++ a.target) =
      (.ok value, { t with vars := t.vars.insert z value }) := by
  rw [executeLine_ok hl] at he
  rcases hev : Expression.evaluate a.expression s.vars s.depth with ⟨failure | v, after⟩
  · rw [execute_fails hev] at he
    cases he
  · rw [execute_ok hev] at he
    obtain ⟨hv, rfl⟩ := Prod.mk.inj he
    obtain rfl := Except.ok.inj hv
    have hvar := isVariable_target hs.wellNamed hl hev
    have hmark : ¬ HasPlainMark (' ' :: a.target) := fun h =>
      (h.of_append (u := [' '])).elim (HasPlainMark.not_of_forall_ne (by decide)) hvar.unmarked
    have hread : Statement.ofLine (z ++ " = ".toList ++ a.target) =
        .ok ⟨.plain, z, Expression.pad (' ' :: a.target)⟩ := by
      have hblank : isBlank (' ' :: a.target) = false := by
        rw [isBlank_cons, hvar.isBlank_eq_false, Bool.and_false]
      have hline : z ++ " = ".toList ++ a.target = z ++ [' '] ++ '=' :: ' ' :: a.target := by
        rw [List.append_assoc, List.append_assoc]
        rfl
      rw [hline]
      exact ofLine_plain hz isBlank_space hblank hmark
    have hpad := alike_append_left isBlank_space a.target
    obtain ⟨depth, hdepth⟩ : ∃ depth, s.depth = depth + 1 :=
      Nat.exists_eq_add_of_le' (Nat.le_trans (by decide) s.le_depth)
    have hwhole := evaluate_whole ha (any_isLetter hvar.letter)
      (Variables.get?_insert_self after a.target v) depth
    rw [← hdepth] at hwhole
    rw [executeLine_ok hread]
    exact execute_ok ((evaluate_eq_ok_iff hpad.trim_pad_eq).mpr hwhole)

/-- A compound mark in a target is no operator. -/
theorem executeLine_readBack_compound_mark :
    let line := "a+=b = 7".toList
    let a : Statement := ⟨.plain, "a+=b".toList, " 7".toList⟩
    let t := (executeLine {} line).2
    Reachable {} ∧ Statement.ofLine line = .ok a ∧ executeLine {} line = (.ok 7, t) ∧
      Whole a.target ∧ IsTarget "zz".toList ∧
      t.executeLine ("zz".toList ++ " = ".toList ++ a.target) =
        (.ok 7, { t with vars := t.vars.insert "zz".toList 7 }) := by
  intro line a t
  have hl : Statement.ofLine line = .ok a := by decide +kernel
  have he : executeLine {} line = (.ok 7, t) := by decide +kernel
  have ha : Whole a.target :=
    whole_of_quiet (by rw [Quiet]; decide +kernel) (by decide +kernel)
      fun d => by cases d <;> decide +kernel
  have hz : IsTarget "zz".toList := by decide +kernel
  exact ⟨.fresh, hl, he, ha, hz, executeLine_readBack .fresh hl he ha hz⟩

/-- A target that is read as a sum is not read back. -/
theorem executeLine_sum_of_target :
    let line := "a+b = 3".toList
    let a : Statement := ⟨.plain, "a+b".toList, " 3".toList⟩
    let t := (executeLine {} line).2
    Reachable {} ∧ Statement.ofLine line = .ok a ∧ (executeLine {} line).1 = .ok 3 ∧
      IsTarget "zz".toList ∧ t.get? "zz".toList = none ∧
      (t.executeLine ("zz".toList ++ " = ".toList ++ a.target)).1 =
        .error (.unknownVariable ['a'] " a ".toList) := by
  intro line a t
  exact ⟨.fresh, by decide +kernel, by decide +kernel, by decide +kernel, by decide +kernel,
    by decide +kernel⟩

end Session

end Worksheet
