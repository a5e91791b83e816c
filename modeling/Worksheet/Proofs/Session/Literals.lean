import Worksheet.Proofs.Expression.Figures
import Worksheet.Proofs.Session.Independence
import Worksheet.Proofs.Statement.Targets

/-! # Assignments of literals

A literal on the right of an assignment is a text of its own before it is read as a number: padding
comes first, and then the splits. So a minus in front of it is a sign of the expression, but a plus
in front and the sign of an exponent are taken for operators, and the assignment fails.
-/
namespace Worksheet
open Text

namespace Expression

variable {t : Text} {n : Numeral} {vars : Variables Float} {depth : Nat}

theorem not_mem_of_numeral (hn : Numeral.ofText? t = some n) : '=' ∉ t ∧ isBlank t = false := by
  obtain ⟨g, l, hg, ht⟩ := Numeral.exists_of_ofText? hn
  have hl := Figure.of_literal l
  have hequals : '=' ∉ l.text := fun h => (hl.inside '=' h).2.1 rfl
  have hsign : '=' ∉ g := by rcases hg with rfl | rfl | rfl <;> decide
  rcases ht with rfl | ⟨-, e, σ, d, rfl, he, hσ, hne, hd⟩
  · exact ⟨by simp [hsign, hequals], by simp [hl.isBlank_eq_false]⟩
  · have hdigits : '=' ∉ d := fun h => ((Figure.of_digits hne hd).inside '=' h).2.1 rfl
    have hmark : '=' ≠ e ∧ '=' ≠ σ := by
      rcases he with rfl | rfl <;> rcases hσ with rfl | rfl <;> decide
    exact ⟨by simp [hsign, hequals, hmark, hdigits], by simp [hl.isBlank_eq_false]⟩

theorem evaluate_numeral (hl : Lettered vars.names) (hn : Numeral.ofText? t = some n)
    (hplus : '+' ∉ t) (hminus : '-' ∉ t.tail) :
    evaluate (pad (' ' :: t)) vars (depth + 4) = (.ok (Number.ofNumeral n), vars) := by
  obtain ⟨g, l, hg, ht⟩ := Numeral.exists_of_ofText? hn
  have hm := Figure.of_literal l
  have hread : reading (α := Float) l.text = .ok (Number.ofNumeral l.value) := by
    rw [reading, l.ofText?_text]
    rfl
  rcases ht with rfl | ⟨-, e, σ, d, rfl, -, hσ, -, -⟩
  · rcases hg with rfl | rfl | rfl
    · obtain rfl := Option.some.inj (l.ofText?_text.symm.trans hn)
      exact (evaluate_pad_figure depth hm hl).trans (by rw [hread])
    · have hhead : ∀ c ∈ l.text.head?, c ≠ '-' ∧ c ≠ '+' := fun c hc =>
        have hop := (hm.inside c (List.mem_of_head? hc)).2.2
        ⟨hop .minus, hop .plus⟩
      have hvalue := Numeral.ofText?_minus hhead
      rw [l.ofText?_text, Option.map_some] at hvalue
      obtain rfl := Option.some.inj (hvalue.symm.trans hn)
      exact (evaluate_pad_minus_figure depth hm hl).trans (by rw [hread]; rfl)
    · exact absurd List.mem_cons_self hplus
  · obtain ⟨c, r, hc⟩ := List.exists_cons_of_ne_nil hm.ne_nil
    rcases hσ with rfl | rfl
    · refine absurd ?_ hminus
      rcases hg with rfl | rfl | rfl <;> simp [hc]
    · exact absurd (by simp) hplus

theorem evaluate_signed_numeral (hl : Lettered vars.names) (hn : Numeral.ofText? t = some n)
    (h : '+' ∈ t ∨ '-' ∈ t.tail) :
    ∃ text, evaluate (pad (' ' :: t)) vars (depth + 4) = (.error (.notANumber text), vars) := by
  obtain ⟨g, l, hg, rfl | ⟨hexp, e, σ, d, rfl, he, hσ, hne, hd⟩⟩ := Numeral.exists_of_ofText? hn
  · have hm := Figure.of_literal l
    have hno : ∀ op : BinaryOp, op.char ∉ l.text := fun op hop => (hm.inside _ hop).2.2 op rfl
    rcases hg with rfl | rfl | rfl
    · exact absurd h (not_or.mpr ⟨hno .plus, fun hc => hno .minus (List.mem_of_mem_tail hc)⟩)
    · refine absurd h (not_or.mpr ⟨fun hc => hno .plus ?_, hno .minus⟩)
      exact (List.mem_cons.mp hc).resolve_left (by decide)
    · exact evaluate_pad_plus_figure depth hm hl
  · have hm := Figure.of_exponent_mark l he
    have hdigits := Figure.of_digits hne hd
    obtain ⟨op, hop, rfl⟩ : ∃ op : BinaryOp, (op = .minus ∨ op = .plus) ∧ op.char = σ := by
      rcases hσ with rfl | rfl
      · exact ⟨.minus, .inl rfl, rfl⟩
      · exact ⟨.plus, .inr rfl, rfl⟩
    have hbody : l.text ++ e :: op.char :: d = (l.text ++ [e]) ++ op.char :: d := by simp
    have hnone := Literal.ofText?_text_mark hexp he
    rw [hbody]
    rcases hg with rfl | rfl | rfl
    · exact ⟨_, evaluate_pad_figure_operator depth hm hl hnone hdigits op (.inl rfl)⟩
    · exact ⟨_, evaluate_pad_figure_operator depth hm hl hnone hdigits op (.inr rfl)⟩
    · exact evaluate_pad_plus_figure_operator depth hm hl hdigits hop

end Expression

namespace Session
open Statement Expression

variable {s : Session} {t : Text} {n : Numeral}

theorem ofLine_numeral (hn : Numeral.ofText? t = some n) :
    Statement.ofLine ("x = ".toList ++ t) = .ok ⟨.plain, ['x'], pad (' ' :: t)⟩ := by
  obtain ⟨hequals, hblank⟩ := not_mem_of_numeral hn
  have hline : "x = ".toList ++ t = ['x'] ++ [' '] ++ '=' :: ' ' :: t := rfl
  rw [hline]
  refine ofLine_plain (by decide) isBlank_space ?_ (HasPlainMark.not_of_forall_ne ?_)
  · rw [isBlank_cons, hblank, Bool.and_false]
  · simpa using hequals

/-- Where no name begins otherwise than with a letter, the assignment of a numeral stores the number
that it denotes, if it has no sign but a minus in front. Otherwise the assignment fails, because a
part of the numeral is not a number. -/
theorem executeLine_numeral (hs : Lettered s.vars.names) (hn : Numeral.ofText? t = some n) :
    ('+' ∉ t ∧ '-' ∉ t.tail → s.executeLine ("x = ".toList ++ t) =
      (.ok (Number.ofNumeral n), { s with vars := s.vars.insert ['x'] (Number.ofNumeral n) })) ∧
    ('+' ∈ t ∨ '-' ∈ t.tail →
      ∃ text, s.executeLine ("x = ".toList ++ t) = (.error (.notANumber text), s)) := by
  rw [executeLine_ok (ofLine_numeral hn)]
  obtain ⟨depth, hdepth⟩ : ∃ depth, s.depth = depth + 4 :=
    Nat.exists_eq_add_of_le' (Nat.le_trans (by decide) s.le_depth)
  constructor
  · rintro ⟨hplus, hminus⟩
    exact execute_ok (hdepth ▸ evaluate_numeral hs hn hplus hminus)
  · intro h
    obtain ⟨text, ht⟩ := evaluate_signed_numeral hs hn h
    exact ⟨text, by rw [execute_fails (hdepth ▸ ht)]; rfl⟩

/-- A negative number with an exponent is stored, and the same with a negative exponent is not. -/
theorem executeLine_numeral_exponents :
    let s : Session := { vars := .ofList [(['e'], 2)] }
    Lettered s.vars.names ∧ Numeral.ofText? "-2.5e3".toList = some ⟨true, 25, 2⟩ ∧
      Numeral.ofText? "-2.5e-3".toList = some ⟨true, 25, -4⟩ ∧
      s.executeLine "x = -2.5e3".toList =
        (.ok (-2500), { s with vars := s.vars.insert ['x'] (-2500) }) ∧
      ∃ text, s.executeLine "x = -2.5e-3".toList = (.error (.notANumber text), s) := by
  intro s
  have hs : Lettered s.vars.names := by
    intro x hx
    obtain rfl : x = ['e'] := List.mem_singleton.mp hx
    rfl
  have hn : Numeral.ofText? "-2.5e3".toList = some ⟨true, 25, 2⟩ := by decide
  have hn' : Numeral.ofText? "-2.5e-3".toList = some ⟨true, 25, -4⟩ := by decide
  have hvalue : Number.ofNumeral ⟨true, 25, 2⟩ = -2500 := by decide +kernel
  refine ⟨hs, hn, hn', ?_, (executeLine_numeral hs hn').2 (.inr (by decide))⟩
  rw [← hvalue]
  exact (executeLine_numeral hs hn).1 ⟨by decide, by decide⟩

/-- A numeral with a negative exponent and one with a plus are not assigned. -/
theorem executeLine_numeral_signs :
    Numeral.ofText? "1e-5".toList = some ⟨false, 1, -5⟩ ∧
      executeLine {} "x = 1e-5".toList = (.error (.notANumber "1e".toList), {}) ∧
      Numeral.ofText? "+5".toList = some ⟨false, 5, 0⟩ ∧
      executeLine {} "x = +5".toList = (.error (.notANumber "+ 5".toList), {}) := by
  decide +kernel

end Session

end Worksheet
