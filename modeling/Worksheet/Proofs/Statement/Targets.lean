import Worksheet.Proofs.Expression.Known
import Worksheet.Proofs.Expression.Layout
import Worksheet.Proofs.Statement.Marks

/-! # Targets

A line that gives a target and one mark is read as it is written. An equals sign that is no part of
a compound mark stays such in a padded text and in one of its leaves. It is in no known leaf, unless
it is in a name; so names do not come to hold one.
-/
namespace Worksheet
open Text

namespace Statement
open Assignment

/-- Names that can stand before a mark and be read back. -/
structure IsTarget (n : Text) : Prop where
  letter : n.head?.any isAsciiLetter = true
  no_operator : ∀ c ∈ n, ∀ op : BinaryOp, c ≠ op.char
  no_equals : '=' ∉ n
  trimmed : trim n = n

theorem isTarget_iff {n : Text} : IsTarget n ↔ n.head?.any isAsciiLetter = true ∧
    (n.all fun c => BinaryOp.all.all (c ≠ ·.char)) = true ∧ '=' ∉ n ∧ trim n = n := by
  simp only [List.all_eq_true, decide_eq_true_eq]
  exact ⟨fun h => ⟨h.letter, fun c hc op _ => h.no_operator c hc op, h.no_equals, h.trimmed⟩,
    fun ⟨hl, ho, he, ht⟩ => ⟨hl, fun c hc op => ho c hc op op.mem_all, he, ht⟩⟩

instance (n : Text) : Decidable (IsTarget n) := decidable_of_iff _ isTarget_iff.symm

theorem any_isLetter {x : Text} (h : x.head?.any isAsciiLetter = true) :
    x.head?.any isLetter = true := by
  cases x with
  | nil => cases h
  | cons c x =>
    have hc : isAsciiLetter c = true := by simpa using h
    simpa using isLetter_of_isAsciiLetter hc

theorem IsTarget.isName {n : Text} (h : IsTarget n) : Expression.IsName n where
  letter := any_isLetter h.letter
  no_operator := h.no_operator
  trimmed := h.trimmed

theorem IsTarget.after_getLast? {n b : Text} (h : IsTarget n) (hb : isBlank b = true) :
    after (n ++ b).getLast? = plain := by
  have hn : after n.getLast? = plain :=
    after_eq_plain (fun hc => h.no_operator '+' (List.mem_of_getLast? hc) .plus rfl) fun hc =>
      h.no_operator '-' (List.mem_of_getLast? hc) .minus rfl
  exact after_append hn (after_of_isBlank hb)

theorem not_mem_of_isBlank {b : Text} (hb : isBlank b = true) : '=' ∉ b := fun h =>
  Expression.ne_equals_of_isSpace (Expression.isSpace_of_mem hb h) rfl

section PlainMark
open Expression Series

variable {s t u v : Text}

/-- Texts with an equals sign that marks a plain assignment. -/
def HasPlainMark (s : Text) : Prop := ∃ u v, s = u ++ '=' :: v ∧ after u.getLast? = plain

namespace HasPlainMark

theorem append_right (h : HasPlainMark u) (v : Text) : HasPlainMark (u ++ v) := by
  obtain ⟨x, y, rfl, hx⟩ := h
  exact ⟨x, y ++ v, by simp, hx⟩

theorem append_left (hu : after u.getLast? = plain) (h : HasPlainMark v) :
    HasPlainMark (u ++ v) := by
  obtain ⟨x, y, rfl, hx⟩ := h
  exact ⟨u ++ x, y, by simp, after_append hu hx⟩

/-- Cutting can only take a sign away from in front of an equals sign. -/
theorem of_append (h : HasPlainMark (u ++ v)) : HasPlainMark u ∨ HasPlainMark v := by
  obtain ⟨x, y, hxy, hx⟩ := h
  rcases List.append_eq_append_iff.mp hxy with ⟨w, rfl, hv⟩ | ⟨w, rfl, hw⟩
  · refine Or.inr ⟨w, y, hv, ?_⟩
    cases w with
    | nil => rfl
    | cons c w => rwa [List.getLast?_append_of_ne_nil _ (List.cons_ne_nil c w)] at hx
  · cases w with
    | nil => exact Or.inr ⟨[], y, hw.symm, rfl⟩
    | cons c w =>
      obtain ⟨rfl, -⟩ := List.cons.inj hw
      exact Or.inl ⟨x, w, rfl, hx⟩

theorem not_of_forall_ne (h : '=' ∉ s) : ¬ HasPlainMark s := by
  rintro ⟨u, v, rfl, -⟩
  exact h (by simp)

theorem of_append_char {c : Char} (hc : c ≠ '=') (h : HasPlainMark (u ++ c :: v)) :
    HasPlainMark u ∨ HasPlainMark v := by
  rw [List.append_cons] at h
  rcases h.of_append with h | h
  · exact Or.inl (h.of_append.resolve_right (not_of_forall_ne (by simpa using hc.symm)))
  · exact Or.inr h

theorem trim_iff : HasPlainMark (trim s) ↔ HasPlainMark s := by
  obtain ⟨b, b', hb, hb', hs⟩ := exists_trim s
  constructor
  · intro h
    rw [hs]
    exact (append_left (after_of_isBlank hb) h).append_right b'
  · intro h
    rw [hs] at h
    have hleft := h.of_append.resolve_right (not_of_forall_ne (not_mem_of_isBlank hb'))
    exact hleft.of_append.resolve_left (not_of_forall_ne (not_mem_of_isBlank hb))

theorem char_ne_equals (op : BinaryOp) : op.char ≠ '=' := by
  cases op <;> decide

theorem exists_chunk (h : HasPlainMark s) : ∃ c ∈ items (chunks s), HasPlainMark c := by
  generalize hp : chunks s = p
  induction p using attach_induction generalizing s with
  | single c =>
    obtain rfl := eq_of_chunks_eq_single hp
    exact ⟨s, List.mem_cons_self, h⟩
  | attach c op p ih =>
    obtain ⟨u, v, rfl, -, hu, hv⟩ := exists_of_chunks_eq_attach hp
    obtain rfl := eq_of_chunks_eq_single hu
    rw [items_attach]
    rcases h.of_append_char (char_ne_equals op) with h | h
    · exact ⟨u, List.mem_append_left _ List.mem_cons_self, h⟩
    · obtain ⟨d, hd, h⟩ := ih h hv
      exact ⟨d, List.mem_append_right _ hd, h⟩

theorem spacedOut {p : Chunks} {c : Text} (hc : c ∈ items p) (h : HasPlainMark c) :
    HasPlainMark (spacedOut p) := by
  induction p using attach_induction with
  | single b =>
    obtain rfl := List.mem_singleton.mp hc
    rwa [spacedOut_single]
  | attach b op p ih =>
    rw [spacedOut_attach, spacedOut_single]
    rcases List.mem_cons.mp hc with rfl | hc
    · exact (h.append_right _).append_right _
    · have hlast : after ((b ++ [' ']) ++ [op.char, ' ']).getLast? = plain := by
        rw [List.getLast?_append]
        rfl
      have hp := append_left hlast (ih hc)
      simpa using hp

theorem pad (h : HasPlainMark s) : HasPlainMark (pad s) := by
  obtain ⟨c, hc, h⟩ := h.exists_chunk
  have hmem : trim c ∈ items (map trim (chunks s)) := by
    have hitems : items (map trim (chunks s)) = (items (chunks s)).map trim := by
      simp [items, map]
    rw [hitems]
    exact List.mem_map_of_mem hc
  rw [← trim_iff, trim_pad, trim_iff, layout]
  exact spacedOut hmem (trim_iff.mpr h)

theorem exists_leaf (h : HasPlainMark s) : ∃ t ∈ leaves s, HasPlainMark t := by
  induction hn : s.length using Nat.strongRecOn generalizing s with
  | _ n ih =>
    cases hs : split? s with
    | some p =>
      obtain ⟨hu, hv⟩ := length_lt_of_split? hs
      rw [leaves_of_split hs]
      rw [split?_eq hs] at h
      rcases h.of_append_char (char_ne_equals p.op) with h | h
      · obtain ⟨t, ht, h⟩ := ih _ (hn ▸ hu) h rfl
        exact ⟨t, List.mem_append_left _ ht, h⟩
      · obtain ⟨t, ht, h⟩ := ih _ (hn ▸ hv) h rfl
        exact ⟨t, List.mem_append_right _ ht, h⟩
    | none =>
      by_cases ho : ∃ rest, Operand.ofTerm (trim s) = .negated rest
      · obtain ⟨rest, ho⟩ := ho
        rw [leaves_of_negated hs ho]
        rw [← trim_iff, (eq_of_ofTerm_negated ho).1, ← List.nil_append ('-' :: rest)] at h
        have hrest := (h.of_append_char (by decide)).resolve_left (not_of_forall_ne nofun)
        exact ih _ (hn ▸ length_lt_of_ofTerm_negated ho) hrest rfl
      · rw [leaves_eq_singleton hs fun rest hr => ho ⟨rest, hr⟩]
        exact ⟨s, List.mem_singleton_self s, h⟩

theorem of_step_text {step : Step} {name : Text} (h : HasPlainMark (step.text name)) :
    HasPlainMark name := by
  have hmark : ¬ HasPlainMark step.direction.mark :=
    not_of_forall_ne (by cases step.direction <;> decide)
  obtain ⟨d, _ | _⟩ := step
  · exact (of_append (u := name) (v := d.mark) h).resolve_right hmark
  · exact (of_append (u := d.mark) (v := name) h).resolve_left hmark

/-- No text with known leaves has the mark of a plain assignment, if no name has. -/
theorem not_of_known {names : List Text} (hnames : ∀ x ∈ names, ¬ HasPlainMark x)
    (hk : Known names s) : ¬ HasPlainMark s := by
  intro h
  obtain ⟨t, ht, h⟩ := h.exists_leaf
  rw [← trim_iff] at h
  have hknown := hk t ht
  cases ho : Operand.ofTerm (trim t) with
  | negated rest =>
    rw [ho] at hknown
    exact hknown
  | stepped step name =>
    rw [ho] at hknown
    rw [← eq_of_ofTerm_stepped ho] at h
    exact hnames _ hknown (trim_iff.mpr h.of_step_text)
  | plain text =>
    obtain rfl := eq_of_ofTerm_plain ho
    rw [ho] at hknown
    rcases hknown with hmem | ⟨l, hl⟩
    · exact hnames _ hmem h
    · refine not_of_forall_ne (fun hmem => ?_) h
      rw [← hl] at hmem
      exact (literal_char hmem).2.1 rfl

end HasPlainMark

theorem not_hasPlainMark_left {line : Text} {m : Mark} (h : mark? line = some m)
    (hm : m.kind = .plain) : ¬ HasPlainMark m.left := by
  have hsole := soleMark?_eq_some_iff.mp (mark?_eq_some h)
  obtain ⟨x, y, hline, rfl⟩ := exists_of_mark? h
  have hleft : (markAt x.reverse y).left = x := by
    have hkind : Assignment.after x.reverse.head? = .plain := hm
    simp only [markAt, hkind, Assignment.dropSign, List.reverse_reverse]
  rw [hleft]
  rintro ⟨u, v, rfl, hu⟩
  have hfirst : markAt u.reverse (v ++ '=' :: y) ∈ marks line :=
    mem_marksAfter_iff.mpr ⟨u, v ++ '=' :: y, by simp [hline], by rw [List.append_nil]⟩
  have hkind : (markAt u.reverse (v ++ '=' :: y)).kind = .plain := by
    rw [← hu, ← List.head?_reverse]
    rfl
  have hsame : markAt u.reverse (v ++ '=' :: y) ∈ (marks line).filter
      (·.kind = (markAt (u ++ '=' :: v).reverse y).kind) :=
    List.mem_filter.mpr ⟨hfirst, by rw [hkind, hm]; rfl⟩
  rw [hsole] at hsame
  have hright := congrArg (·.right.length) (List.mem_singleton.mp hsame)
  simp [markAt] at hright
  omega

/-- A line whose first mark is its only plain one is read as the assignment that it makes. -/
theorem mark?_plain {n b rhs : Text} (hn : IsTarget n) (hb : isBlank b = true)
    (hr : ¬ HasPlainMark rhs) :
    mark? (n ++ b ++ '=' :: rhs) = some ⟨.plain, n ++ b, rhs⟩ := by
  have hnb : '=' ∉ n ++ b := by simp [hn.no_equals, not_mem_of_isBlank hb]
  have hfirst : markAt (n ++ b).reverse rhs = ⟨.plain, n ++ b, rhs⟩ := by
    have hkind := hn.after_getLast? hb
    rw [← List.head?_reverse] at hkind
    simp only [markAt, hkind, dropSign, List.reverse_reverse]
  have hlater : (marksAfter ('=' :: (n ++ b).reverse) rhs).filter (·.kind = .plain) = [] := by
    refine List.filter_eq_nil_iff.mpr fun m hm hkind => hr ?_
    obtain ⟨u, v, rfl, rfl⟩ := mem_marksAfter_iff.mp hm
    have hkind : after (u.reverse ++ '=' :: (n ++ b).reverse).head? = plain :=
      of_decide_eq_true hkind
    refine ⟨u, v, rfl, ?_⟩
    rcases List.eq_nil_or_concat u with rfl | ⟨w, c, rfl⟩
    · rfl
    · simpa using hkind
  have hsole : soleMark? (marks (n ++ b ++ '=' :: rhs)) .plain = some ⟨.plain, n ++ b, rhs⟩ := by
    have hline : n ++ b ++ '=' :: rhs = (n ++ b) ++ '=' :: rhs := rfl
    rw [soleMark?_eq_some_iff, hline, marks, marksAfter_append hnb, marksAfter_equals,
      List.append_nil, hfirst, List.filter_cons_of_pos (by simp), hlater]
  rw [mark?, Assignment.all, List.findSome?_cons, hsole]

end PlainMark

section Written

variable {n b rhs : Text}

theorem ofLine_of_mark? {line : Text} {kind : Assignment}
    (h : mark? line = some ⟨kind, n ++ b, rhs⟩) (hn : IsTarget n) (hb : isBlank b = true)
    (hr : isBlank rhs = false) :
    ofLine line = .ok ⟨kind, n, Expression.pad (kind.expand n rhs)⟩ := by
  have hleft : trim (n ++ b) = n := (trim_append_right n hb).trans hn.trimmed
  refine ofLine_eq_ok_iff.mpr ⟨_, h, ?_, hr, ?_⟩
  · rw [hleft]
    exact hn.letter
  · rw [hleft]

theorem ofLine_plain (hn : IsTarget n) (hb : isBlank b = true) (hr : isBlank rhs = false)
    (hp : ¬ HasPlainMark rhs) :
    ofLine (n ++ b ++ '=' :: rhs) = .ok ⟨.plain, n, Expression.pad rhs⟩ :=
  ofLine_of_mark? (mark?_plain hn hb hp) hn hb hr

theorem ofLine_sign (hn : IsTarget n) (hb : isBlank b = true) (kind : Assignment)
    (hr : isBlank rhs = false) (he : '=' ∉ rhs) :
    ofLine (n ++ b ++ kind.sign ++ rhs) = .ok ⟨kind, n, Expression.pad (kind.expand n rhs)⟩ := by
  have hnb : '=' ∉ n ++ b := by simp [hn.no_equals, not_mem_of_isBlank hb]
  exact ofLine_of_mark? (mark?_append_sign hnb he fun _ => hn.after_getLast? hb) hn hb hr

end Written

end Statement

end Worksheet
