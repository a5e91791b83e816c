import Worksheet.Statement
import Worksheet.Proofs.Text.Trim

/-! # Marks

The marks of a line are its equals signs, each read with the character before it. A line with one
equals sign states an assignment of the kind of that sign. A line with more of them states one of
the first kind that has exactly one mark.
-/
namespace Worksheet
open Text

namespace Assignment

/-- How an assignment is written. -/
def sign : Assignment → Text
  | plain => ['=']
  | adding => ['+', '=']
  | subtracting => ['-', '=']

theorem after_eq_plain {c : Option Char} (hp : c ≠ some '+') (hm : c ≠ some '-') :
    after c = plain := by
  unfold after
  split
  · exact absurd rfl hp
  · exact absurd rfl hm
  · rfl

theorem after_of_isSpace {c : Char} (hc : isSpace c = true) : after (some c) = plain := by
  refine after_eq_plain ?_ ?_ <;> rintro ⟨⟩ <;> exact absurd hc (by decide)

theorem after_of_isBlank {b : Text} (hb : isBlank b = true) : after b.getLast? = plain := by
  cases hc : b.getLast? with
  | none => rfl
  | some c => exact after_of_isSpace (List.all_eq_true.mp hb c (List.mem_of_getLast? hc))

theorem after_append {u v : Text} (hu : after u.getLast? = plain) (hv : after v.getLast? = plain) :
    after (u ++ v).getLast? = plain := by
  cases v with
  | nil => rwa [List.append_nil]
  | cons c v => rwa [List.getLast?_append_of_ne_nil _ (List.cons_ne_nil c v)]

end Assignment

namespace Statement
open Assignment

def markAt (before rest : Text) : Mark :=
  ⟨after before.head?, ((after before.head?).dropSign before).reverse, rest⟩

theorem marksAfter_equals (before rest : Text) :
    marksAfter before ('=' :: rest) = markAt before rest :: marksAfter ('=' :: before) rest := rfl

theorem marksAfter_append {u : Text} (h : '=' ∉ u) (before s : Text) :
    marksAfter before (u ++ s) = marksAfter (u.reverse ++ before) s := by
  induction u generalizing before with
  | nil => rfl
  | cons c u ih =>
    obtain ⟨hc, hu⟩ : '=' ≠ c ∧ '=' ∉ u := by simpa using h
    rw [List.cons_append, marksAfter, if_neg (Ne.symm hc), ih hu]
    simp

theorem marksAfter_eq_nil {s : Text} (h : '=' ∉ s) (before : Text) : marksAfter before s = [] := by
  have hs := marksAfter_append h before []
  rwa [List.append_nil] at hs

theorem mem_marksAfter_iff {before s : Text} {m : Mark} : m ∈ marksAfter before s ↔
    ∃ u v, s = u ++ '=' :: v ∧ m = markAt (u.reverse ++ before) v := by
  induction s generalizing before with
  | nil => simp [marksAfter]
  | cons c s ih =>
    have hrest : m ∈ marksAfter (c :: before) s ↔
        ∃ u v, s = u ++ '=' :: v ∧ m = markAt ((c :: u).reverse ++ before) v := by
      rw [ih]
      simp
    constructor
    · intro h
      by_cases hc : c = '='
      · subst hc
        rw [marksAfter_equals] at h
        rcases List.mem_cons.mp h with rfl | h
        · exact ⟨[], s, rfl, rfl⟩
        · obtain ⟨u, v, rfl, rfl⟩ := hrest.mp h
          exact ⟨'=' :: u, v, rfl, rfl⟩
      · rw [marksAfter, if_neg hc] at h
        obtain ⟨u, v, rfl, rfl⟩ := hrest.mp h
        exact ⟨c :: u, v, rfl, rfl⟩
    · rintro ⟨u, v, hs, rfl⟩
      cases u with
      | nil =>
        obtain ⟨rfl, rfl⟩ := List.cons.inj hs
        rw [marksAfter_equals]
        exact List.mem_cons_self
      | cons d u =>
        obtain ⟨rfl, rfl⟩ := List.cons.inj hs
        have hmem := hrest.mpr ⟨u, v, rfl, rfl⟩
        rw [marksAfter]
        split
        · exact List.mem_cons_of_mem _ hmem
        · exact hmem

theorem marks_eq_singleton {u v : Text} (hu : '=' ∉ u) (hv : '=' ∉ v) :
    marks (u ++ '=' :: v) = [markAt u.reverse v] := by
  rw [marks, marksAfter_append hu, marksAfter_equals, marksAfter_eq_nil hv, List.append_nil]

/-- The mark by which a line is read. -/
def mark? (line : Text) : Option Mark := Assignment.all.findSome? (soleMark? (marks line))

theorem soleMark?_eq_some_iff {ms : List Mark} {kind : Assignment} {m : Mark} :
    soleMark? ms kind = some m ↔ ms.filter (·.kind = kind) = [m] := by
  rw [soleMark?]
  split
  · next m' h => simp [h]
  · next h =>
    refine ⟨nofun, fun hm => absurd hm (h m)⟩

theorem mark?_eq_some {line : Text} {m : Mark} (h : mark? line = some m) :
    soleMark? (marks line) m.kind = some m := by
  obtain ⟨kind, -, hkind⟩ := List.exists_of_findSome?_eq_some h
  have hmem : m ∈ (marks line).filter (·.kind = kind) := by
    rw [soleMark?_eq_some_iff.mp hkind]
    exact List.mem_singleton_self m
  obtain rfl : m.kind = kind := by simpa using (List.mem_filter.mp hmem).2
  exact hkind

theorem exists_of_mark? {line : Text} {m : Mark} (h : mark? line = some m) :
    ∃ u v, line = u ++ '=' :: v ∧ m = markAt u.reverse v := by
  have hmem : m ∈ (marks line).filter (·.kind = m.kind) := by
    rw [soleMark?_eq_some_iff.mp (mark?_eq_some h)]
    exact List.mem_singleton_self m
  obtain ⟨u, v, hline, hm⟩ := mem_marksAfter_iff.mp (List.mem_filter.mp hmem).1
  rw [List.append_nil] at hm
  exact ⟨u, v, hline, hm⟩

theorem mark?_eq_of_singleton {line : Text} {m : Mark} (h : marks line = [m]) :
    mark? line = some m := by
  obtain ⟨kind, left, right⟩ := m
  rw [mark?, h]
  cases kind <;> rfl

theorem dropSign_append_sign {u : Text} {kind : Assignment} (h : after u.getLast? = kind) :
    (kind.dropSign u.reverse).reverse ++ kind.sign = u ++ ['='] := by
  have hlast : ∀ c, u.getLast? = some c → u.reverse.tail.reverse ++ [c] = u := fun c hc => by
    obtain ⟨w, rfl⟩ := List.getLast?_eq_some_iff.mp hc
    simp
  cases kind with
  | plain => simp [dropSign, sign]
  | adding =>
    have hc : u.getLast? = some '+' := by
      unfold after at h
      split at h <;> simp_all
    simpa [dropSign, sign] using congrArg (· ++ ['=']) (hlast '+' hc)
  | subtracting =>
    have hc : u.getLast? = some '-' := by
      unfold after at h
      split at h <;> simp_all
    simpa [dropSign, sign] using congrArg (· ++ ['=']) (hlast '-' hc)

/-- The mark by which a line is read stands between its two sides. In front of the mark of a plain
assignment there is no sign. -/
theorem eq_append_of_mark? {line : Text} {m : Mark} (h : mark? line = some m) :
    line = m.left ++ m.kind.sign ++ m.right ∧
      (m.kind = plain → after m.left.getLast? = plain) := by
  obtain ⟨u, v, rfl, rfl⟩ := exists_of_mark? h
  have hkind : after u.getLast? = (markAt u.reverse v).kind := by rw [← List.head?_reverse]; rfl
  have hleft : (markAt u.reverse v).left ++ (markAt u.reverse v).kind.sign = u ++ ['='] :=
    dropSign_append_sign hkind
  constructor
  · rw [hleft, List.append_assoc]
    rfl
  · intro hp
    rw [hp] at hleft
    rw [List.append_cancel_right hleft, hkind, hp]

theorem mark?_append_sign {left right : Text} {kind : Assignment} (hl : '=' ∉ left)
    (hr : '=' ∉ right) (hp : kind = plain → after left.getLast? = plain) :
    mark? (left ++ kind.sign ++ right) = some ⟨kind, left, right⟩ := by
  refine mark?_eq_of_singleton ?_
  cases kind with
  | plain =>
    have hm := marks_eq_singleton hl hr
    rw [markAt, List.head?_reverse, hp rfl] at hm
    simpa [sign, dropSign] using hm
  | adding =>
    have hm := marks_eq_singleton (u := left ++ ['+']) (by simpa using hl) hr
    simpa [sign, markAt, after, dropSign] using hm
  | subtracting =>
    have hm := marks_eq_singleton (u := left ++ ['-']) (by simpa using hl) hr
    simpa [sign, markAt, after, dropSign] using hm

theorem ofLine_of_mark?_eq_none {line : Text} (h : mark? line = none) :
    ofLine line = .error (.malformed line noAssignment) := by
  unfold mark? at h
  rw [ofLine, h]

theorem ofLine_of_mark?_eq_some {line : Text} {m : Mark} (h : mark? line = some m) :
    ofLine line =
      if (trim m.left).head?.any isAsciiLetter = false then .error (.malformed line badTarget)
      else if isBlank m.right then .error (.malformed line missingExpression)
      else .ok ⟨m.kind, trim m.left, Expression.pad (m.kind.expand (trim m.left) m.right)⟩ := by
  unfold mark? at h
  simp only [ofLine, h, Bool.not_eq_true']

theorem ofLine_eq_ok_iff {line : Text} {a : Statement} : ofLine line = .ok a ↔
    ∃ m, mark? line = some m ∧ (trim m.left).head?.any isAsciiLetter = true ∧
      isBlank m.right = false ∧
      a = ⟨m.kind, trim m.left, Expression.pad (m.kind.expand (trim m.left) m.right)⟩ := by
  constructor
  · intro h
    cases hm : mark? line with
    | none =>
      rw [ofLine_of_mark?_eq_none hm] at h
      cases h
    | some m =>
      rw [ofLine_of_mark?_eq_some hm] at h
      split at h
      · cases h
      · next ht =>
        split at h
        · cases h
        · next hr => exact ⟨m, rfl, by simpa using ht, by simpa using hr, (Except.ok.inj h).symm⟩
  · rintro ⟨m, hm, ht, hr, rfl⟩
    rw [ofLine_of_mark?_eq_some hm, if_neg (by simp [ht]), if_neg (by simp [hr])]

/-- A line that states no assignment is malformed, for one of three reasons. -/
theorem exists_of_ofLine_eq_error {line : Text} {fault : Fault} (h : ofLine line = .error fault) :
    ∃ reason ∈ [badTarget, missingExpression, noAssignment], fault = .malformed line reason := by
  cases hm : mark? line with
  | none =>
    rw [ofLine_of_mark?_eq_none hm] at h
    exact ⟨noAssignment, by simp, (Except.error.inj h).symm⟩
  | some m =>
    rw [ofLine_of_mark?_eq_some hm] at h
    split at h
    · exact ⟨badTarget, by simp, (Except.error.inj h).symm⟩
    · split at h
      · exact ⟨missingExpression, by simp, (Except.error.inj h).symm⟩
      · cases h

end Statement

end Worksheet
