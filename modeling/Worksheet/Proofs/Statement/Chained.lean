import Worksheet.Proofs.Statement.Marks

/-! # Chained assignments

A line may hold several equals signs. Each kind of assignment counts its own marks only. So a line
is rejected if no kind has exactly one mark, as it is in every chain of one kind; but a chain of
several kinds is read at the only mark of one of them, and the other marks stay in its target or in
its expression.
-/
namespace Worksheet
open Text

namespace Statement
open Assignment

/-- How many equals signs of a text are marks of a kind. Each is looked at with the character
before it. -/
def markCount (kind : Assignment) (line : Text) : Nat :=
  ((none :: line.map some).zip line).countP fun p => p.2 = '=' ∧ after p.1 = kind

theorem length_filter_marksAfter (kind : Assignment) (before s : Text) :
    ((marksAfter before s).filter (·.kind = kind)).length =
      ((before.head? :: s.map some).zip s).countP fun p => p.2 = '=' ∧ after p.1 = kind := by
  induction s generalizing before with
  | nil => rfl
  | cons c s ih =>
    have hlater := ih (c :: before)
    rw [List.head?_cons] at hlater
    rw [List.map_cons, List.zip_cons_cons, List.countP_cons, ← hlater]
    by_cases hc : c = '='
    · subst hc
      rw [marksAfter_equals, List.filter_cons]
      by_cases hk : after before.head? = kind <;> simp [markAt, hk]
    · rw [marksAfter, if_neg hc]
      simp [hc]

theorem length_filter_marks (kind : Assignment) (line : Text) :
    ((marks line).filter (·.kind = kind)).length = markCount kind line :=
  length_filter_marksAfter kind [] line

theorem soleMark?_eq_none_iff {line : Text} {kind : Assignment} :
    soleMark? (marks line) kind = none ↔ markCount kind line ≠ 1 := by
  rw [Option.eq_none_iff_forall_ne_some, ← length_filter_marks, Ne, List.length_eq_one_iff,
    not_exists]
  exact forall_congr' fun m => not_congr soleMark?_eq_some_iff

theorem mark?_eq_none_iff {line : Text} :
    mark? line = none ↔ Assignment.all.find? (markCount · line = 1) = none := by
  simp only [mark?, List.findSome?_eq_none_iff, List.find?_eq_none, decide_eq_true_eq,
    soleMark?_eq_none_iff, ne_eq]

theorem mark?_of_find? {line : Text} {kind : Assignment}
    (h : Assignment.all.find? (markCount · line = 1) = some kind) :
    ∃ m, mark? line = some m ∧ m.kind = kind := by
  obtain ⟨hone, looser, tighter, hall, hlooser⟩ := List.find?_eq_some_iff_append.mp h
  have hone : markCount kind line = 1 := by simpa using hone
  obtain ⟨m, hm⟩ := Option.ne_none_iff_exists'.mp fun hn => soleMark?_eq_none_iff.mp hn hone
  have hmem : m ∈ (marks line).filter (·.kind = kind) := by
    rw [soleMark?_eq_some_iff.mp hm]
    exact List.mem_singleton_self m
  refine ⟨m, List.findSome?_eq_some_iff.mpr ⟨looser, kind, tighter, hall, hm, fun k hk => ?_⟩, ?_⟩
  · exact soleMark?_eq_none_iff.mpr (by simpa using hlooser k hk)
  · simpa using (List.mem_filter.mp hmem).2

/-- What becomes of a line with several equals signs. If no kind of assignment has exactly one mark
in it, it is malformed. Otherwise it is read at the only mark of the first kind that has one: it is
malformed, or it is a statement of that kind, and further equals signs are in its two sides. -/
theorem ofLine_chained {line : Text} (h : 2 ≤ line.count '=') :
    match Assignment.all.find? (markCount · line = 1) with
    | none => ofLine line = .error (.malformed line noAssignment)
    | some kind => ∃ left right, line = left ++ kind.sign ++ right ∧
        (kind = .plain → after left.getLast? = .plain) ∧ ('=' ∈ left ∨ '=' ∈ right) ∧
        ofLine line =
          if (trim left).head?.any isAsciiLetter = false then .error (.malformed line badTarget)
          else if isBlank right then .error (.malformed line missingExpression)
          else .ok ⟨kind, trim left, Expression.pad (kind.expand (trim left) right)⟩ := by
  split
  · next hnone => exact ofLine_of_mark?_eq_none (mark?_eq_none_iff.mpr hnone)
  · next kind hkind =>
    obtain ⟨m, hm, rfl⟩ := mark?_of_find? hkind
    obtain ⟨hline, hplain⟩ := eq_append_of_mark? hm
    refine ⟨m.left, m.right, hline, hplain, ?_, ofLine_of_mark?_eq_some hm⟩
    have hsign : m.kind.sign.count '=' = 1 := by cases m.kind <;> rfl
    rw [hline, List.count_append, List.count_append, hsign] at h
    by_contra hno
    rw [not_or] at hno
    rw [List.count_eq_zero_of_not_mem hno.1, List.count_eq_zero_of_not_mem hno.2] at h
    omega

/-- A line with two marks of each of two kinds is rejected. A line with a single plain mark is not,
whatever else is chained to it. -/
theorem ofLine_chained_plain :
    let twice := "a += b += c = d = 1".toList
    let once := "a = b -= c -= 1".toList
    2 ≤ twice.count '=' ∧ 2 ≤ once.count '=' ∧
      ofLine twice = .error (.malformed twice noAssignment) ∧
      ∃ left right, once = left ++ ['='] ++ right ∧ after left.getLast? = .plain ∧
        ofLine once =
          if (trim left).head?.any isAsciiLetter = false then .error (.malformed once badTarget)
          else if isBlank right then .error (.malformed once missingExpression)
          else .ok ⟨.plain, trim left, Expression.pad right⟩ := by
  intro twice once
  have htwice : 2 ≤ twice.count '=' := by decide
  have honce : 2 ≤ once.count '=' := by decide
  have hnone : ofLine twice = .error (.malformed twice noAssignment) := ofLine_chained htwice
  have hsome := ofLine_chained honce
  have hfind : Assignment.all.find? (markCount · once = 1) = some .plain := by decide
  rw [hfind] at hsome
  obtain ⟨left, right, hline, hleft, -, hread⟩ := hsome
  exact ⟨htwice, honce, hnone, left, right, hline, hleft rfl, hread⟩

/-- A chain of two kinds is read as a plain assignment, to either side of its plain mark. -/
theorem ofLine_mixed_chain :
    2 ≤ "a = b -= 1".toList.count '=' ∧
      ofLine "a = b -= 1".toList = .ok ⟨.plain, ['a'], " b - = 1".toList⟩ ∧
      2 ≤ "a += b = 1".toList.count '=' ∧
      ofLine "a += b = 1".toList = .ok ⟨.plain, "a += b".toList, " 1".toList⟩ := by
  decide +kernel

end Statement

end Worksheet
