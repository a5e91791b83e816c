import Worksheet.Proofs.Statement.Targets

/-! # Lines with one equals sign

A line without an equals sign states no assignment. A line with one is read at its only mark,
whatever signs and white space stand around it. So what is printed with a mark between a name and an
expression is read back as it was meant.
-/
namespace Worksheet
open Text

namespace Statement
open Assignment

theorem count_sign (kind : Assignment) : kind.sign.count '=' = 1 := by cases kind <;> rfl

theorem after_eq_plain_iff {c : Option Char} :
    after c = plain ↔ c ≠ some '+' ∧ c ≠ some '-' := by
  refine ⟨fun h => ⟨?_, ?_⟩, fun h => after_eq_plain h.1 h.2⟩
  · rintro rfl
    cases h
  · rintro rfl
    cases h

theorem mark?_eq_none {line : Text} (h : '=' ∉ line) : mark? line = none := by
  rw [mark?, marks, marksAfter_eq_nil h]
  rfl

theorem exists_mark?_of_count {line : Text} (h : line.count '=' = 1) :
    ∃ m, mark? line = some m ∧ '=' ∉ m.left ∧ '=' ∉ m.right := by
  obtain ⟨u, v, rfl, hu⟩ := List.eq_append_cons_of_mem (List.count_pos_iff.mp (h ▸ Nat.one_pos))
  have hv : '=' ∉ v := by
    rw [List.count_append, List.count_cons_self] at h
    exact List.count_eq_zero.mp (by omega)
  have hm := mark?_eq_of_singleton (marks_eq_singleton hu hv)
  refine ⟨_, hm, List.count_eq_zero.mp ?_, hv⟩
  rw [(eq_append_of_mark? hm).1, List.count_append, List.count_append, count_sign] at h
  omega

/-- Names that can be printed in front of every mark. A sign at the end of a name would become part
of the mark behind it. -/
structure TakesMarks (n : Text) : Prop where
  letter : n.head?.any isAsciiLetter = true
  trimmed : trim n = n
  no_equals : '=' ∉ n
  no_sign : n.getLast? ≠ some '+' ∧ n.getLast? ≠ some '-'

section Print
variable {n b b' b'' rhs : Text}

theorem ofLine_print (hn : TakesMarks n) (hb : isBlank b = true) (hb' : isBlank b' = true)
    (b'' : Text) (hr : isBlank rhs = false) (he : '=' ∉ b'' ++ rhs) (kind : Assignment) :
    ofLine (b ++ n ++ b' ++ kind.sign ++ (b'' ++ rhs)) =
      .ok ⟨kind, n, Expression.pad (kind.expand n (b'' ++ rhs))⟩ := by
  have hleft : trim (b ++ n ++ b') = n := (trim_append_of_isBlank hb n hb').trans hn.trimmed
  have hequals : '=' ∉ b ++ n ++ b' := by
    simp [hn.no_equals, not_mem_of_isBlank hb, not_mem_of_isBlank hb']
  have hplain : after (b ++ n ++ b').getLast? = plain :=
    after_append (after_append (after_of_isBlank hb) (after_eq_plain_iff.mpr hn.no_sign))
      (after_of_isBlank hb')
  have hright : isBlank (b'' ++ rhs) = false := by rw [isBlank_append, hr, Bool.and_false]
  have hmark : mark? (b ++ n ++ b' ++ kind.sign ++ (b'' ++ rhs)) =
      some ⟨kind, b ++ n ++ b', b'' ++ rhs⟩ :=
    mark?_append_sign hequals he fun _ => hplain
  refine ofLine_eq_ok_iff.mpr ⟨_, hmark, ?_, hright, ?_⟩
  · rw [hleft]
    exact hn.letter
  · rw [hleft]

end Print

/-- What becomes of a line with at most one equals sign. Without one it is malformed. With one it is
read at the mark that the sign makes with a plus or a minus in front of it, or by itself: the
trimmed text before the mark must begin with a letter, the text behind it must not be blank, and
then they are target and right side. So a name and an expression are read back from a line on which
they are printed with a mark between them. -/
theorem ofLine_single :
    (∀ line, '=' ∉ line → ofLine line = .error (.malformed line noAssignment)) ∧
    (∀ line : Text, line.count '=' = 1 → ∃ left kind right, line = left ++ kind.sign ++ right ∧
      '=' ∉ left ∧ '=' ∉ right ∧
      (kind = .plain → left.getLast? ≠ some '+' ∧ left.getLast? ≠ some '-') ∧
      ofLine line =
        if (trim left).head?.any isAsciiLetter = false then .error (.malformed line badTarget)
        else if isBlank right then .error (.malformed line missingExpression)
        else .ok ⟨kind, trim left, Expression.pad (kind.expand (trim left) right)⟩) ∧
    ∀ {n b b' b'' rhs : Text}, TakesMarks n → isBlank b = true → isBlank b' = true →
      isBlank b'' = true → isBlank rhs = false → '=' ∉ rhs → ∀ kind : Assignment,
        ofLine (b ++ n ++ b' ++ kind.sign ++ (b'' ++ rhs)) =
          .ok ⟨kind, n, Expression.pad (kind.expand n (b'' ++ rhs))⟩ := by
  refine ⟨fun line h => ofLine_of_mark?_eq_none (mark?_eq_none h), fun line h => ?_, ?_⟩
  · obtain ⟨m, hm, hleft, hright⟩ := exists_mark?_of_count h
    obtain ⟨hline, hplain⟩ := eq_append_of_mark? hm
    exact ⟨m.left, m.kind, m.right, hline, hleft, hright,
      fun hk => after_eq_plain_iff.mp (hplain hk), ofLine_of_mark?_eq_some hm⟩
  · intro n b b' b'' rhs hn hb hb' hb'' hr he kind
    have hequals : '=' ∉ b'' ++ rhs := by simp [he, not_mem_of_isBlank hb'']
    exact ofLine_print hn hb hb' b'' hr hequals kind

/-- A line of which the equals sign stands behind two signs, and a name with a sign inside that is
read back from a compound assignment. -/
theorem ofLine_single_behind_signs :
    '=' ∉ "a + b".toList ∧
      ofLine "a + b".toList = .error (.malformed "a + b".toList noAssignment) ∧
      "x+-= 1".toList.count '=' = 1 ∧
      (∃ left kind right, "x+-= 1".toList = left ++ kind.sign ++ right ∧
        ofLine "x+-= 1".toList =
          if (trim left).head?.any isAsciiLetter = false then
            .error (.malformed "x+-= 1".toList badTarget)
          else if isBlank right then .error (.malformed "x+-= 1".toList missingExpression)
          else .ok ⟨kind, trim left, Expression.pad (kind.expand (trim left) right)⟩) ∧
      TakesMarks "a-b".toList ∧
      ofLine "\t a-b += -c".toList = .ok ⟨.adding, "a-b".toList, "a - b +  - c".toList⟩ := by
  obtain ⟨hnone, hone, hprint⟩ := ofLine_single
  have hsign : '=' ∉ "a + b".toList := by decide
  have hcount : "x+-= 1".toList.count '=' = 1 := by decide
  have hn : TakesMarks "a-b".toList := ⟨by decide, by decide, by decide, by decide⟩
  obtain ⟨left, kind, right, hline, -, -, -, hread⟩ := hone _ hcount
  have hblank : isBlank "\t ".toList = true := by decide
  have hspace : isBlank [' '] = true := by decide
  have hback : ofLine ("\t ".toList ++ "a-b".toList ++ [' '] ++ adding.sign ++
      ([' '] ++ "-c".toList)) =
      .ok ⟨.adding, "a-b".toList, Expression.pad (adding.expand "a-b".toList " -c".toList)⟩ :=
    hprint hn hblank hspace hspace (by decide) (by decide) .adding
  have hpad : Expression.pad (adding.expand "a-b".toList " -c".toList) = "a - b +  - c".toList := by
    decide +kernel
  rw [hpad] at hback
  exact ⟨hsign, hnone _ hsign, hcount, ⟨left, kind, right, hline, hread⟩, hn, hback⟩

end Statement

end Worksheet
