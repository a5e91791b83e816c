import Worksheet.Session
import Worksheet.Proofs.Number.Shown

/-! # Reading the output

The output joins names and numbers without any escapes, although a name may hold the commas and
parentheses that separate them. It can still be read back when no name holds an equals sign. The
equals signs cut it into pieces, and all pieces but the first begin with a number, which holds no
comma.
-/
namespace Worksheet.Session
open Text

/-- The names and numbers of an output, given a name and the pieces that follow it. A piece with
others behind it is a number, a comma and the next name. -/
def readFrom (name : Text) : List Text → List (Text × Text)
  | [] => []
  | [number] => [(name, number)]
  | piece :: later =>
    (name, piece.takeWhile (· ≠ ',')) :: readFrom (piece.dropWhile (· ≠ ',')).tail later

def readOutput (output : Text) : List (Text × Text) :=
  match output.tail.dropLast.splitOn '=' with
  | [] => []
  | name :: pieces => readFrom name pieces

/-- The variables in the order of their names, each with the text of its number. -/
def listing (s : Session) : List (Text × Text) :=
  s.vars.entries.map fun e => (e.1, Number.shown e.2)

def writeEntry (e : Text × Text) : Text := e.1 ++ '=' :: e.2

variable {s : Session} {name number piece : Text} {pieces : List Text} {e : Text × Text}
  {es : List (Text × Text)}

section Read

/-- Names and numbers that can be read back. -/
def Legible (es : List (Text × Text)) : Prop := ∀ e ∈ es, '=' ∉ e.1 ∧ '=' ∉ e.2 ∧ ',' ∉ e.2

theorem readFrom_comma (hnumber : ',' ∉ number) (next : Text) (hne : pieces ≠ []) :
    readFrom name ((number ++ ',' :: next) :: pieces) =
      (name, number) :: readFrom next pieces := by
  have hall : ∀ c ∈ number, decide (c ≠ ',') = true := fun c hc =>
    decide_eq_true (ne_of_mem_of_not_mem hc hnumber)
  have htake : (number ++ ',' :: next).takeWhile (· ≠ ',') = number := by
    rw [List.takeWhile_append_of_pos hall]
    simp
  have hdrop : (number ++ ',' :: next).dropWhile (· ≠ ',') = ',' :: next := by
    rw [List.dropWhile_append_of_pos hall]
    simp
  rw [readFrom, htake, hdrop, List.tail_cons]
  exact hne

theorem splitOn_append {c : Char} {u t : Text} (hu : c ∉ u) (ht : t.splitOn c = piece :: pieces) :
    (u ++ t).splitOn c = (u ++ piece) :: pieces := by
  induction u with
  | nil => exact ht
  | cons d u ih =>
    obtain ⟨hd, hu⟩ := List.ne_and_not_mem_of_not_mem_cons hu
    have hbeq : (d == c) = false := beq_eq_false_iff_ne.mpr (Ne.symm hd)
    rw [List.cons_append, List.splitOn_cons_eq_if_modifyHead, hbeq, ih hu]
    rfl

/-- The equals signs of written entries cut them where they can be read on. -/
theorem exists_pieces (h : Legible (e :: es)) :
    ∃ pieces, pieces ≠ [] ∧
      ([','].intercalate ((e :: es).map writeEntry)).splitOn '=' = e.1 :: pieces ∧
      readFrom e.1 pieces = e :: es := by
  induction es generalizing e with
  | nil =>
    obtain ⟨hname, hnumber, -⟩ := h e List.mem_cons_self
    refine ⟨[e.2], List.cons_ne_nil _ _, ?_, rfl⟩
    rw [List.map_singleton, List.intercalate_singleton, writeEntry,
      List.splitOn_append_cons_self_of_not_mem hname, List.splitOn_eq_singleton hnumber]
  | cons d es ih =>
    obtain ⟨hname, hnumber, hcomma⟩ := h e List.mem_cons_self
    obtain ⟨pieces, hne, hsplit, hread⟩ := ih fun x hx => h x (List.mem_cons_of_mem e hx)
    have hpiece : '=' ∉ e.2 ++ [','] := by simpa using hnumber
    -- The number of `e` and the name of `d` are one piece: no equals sign parts them.
    refine ⟨(e.2 ++ ',' :: d.1) :: pieces, List.cons_ne_nil _ _, ?_, ?_⟩
    · have hwritten : [','].intercalate ((e :: d :: es).map writeEntry) =
          e.1 ++ '=' :: (e.2 ++ [','] ++ [','].intercalate ((d :: es).map writeEntry)) := by
        simp [writeEntry]
      rw [hwritten, List.splitOn_append_cons_self_of_not_mem hname, splitOn_append hpiece hsplit]
      simp
    · rw [readFrom_comma hcomma d.1 hne, hread]

theorem readOutput_written (h : Legible es) :
    readOutput ('(' :: [','].intercalate (es.map writeEntry) ++ [')']) = es := by
  unfold readOutput
  rw [List.cons_append, List.tail_cons, List.dropLast_concat]
  cases es with
  | nil => rfl
  | cons e es =>
    obtain ⟨pieces, -, hsplit, hread⟩ := exists_pieces h
    rw [hsplit]
    exact hread

end Read

section Listing

theorem output_eq (s : Session) :
    s.output = '(' :: [','].intercalate (s.listing.map writeEntry) ++ [')'] := by
  rw [listing, List.map_map]
  rfl

theorem names_listing (s : Session) : s.listing.map (·.1) = s.vars.names := by
  rw [listing, List.map_map]
  rfl

theorem mem_listing_iff :
    (name, number) ∈ s.listing ↔ (s.get? name).map Number.shown = some number := by
  simp only [listing, List.mem_map, Prod.mk.injEq, get?, Option.map_eq_some_iff,
    Variables.get?_eq_some_iff]
  constructor
  · rintro ⟨⟨n, x⟩, hmem, rfl, rfl⟩
    exact ⟨x, hmem, rfl⟩
  · rintro ⟨x, hmem, rfl⟩
    exact ⟨(name, x), hmem, rfl, rfl⟩

theorem legible_listing (h : ∀ name ∈ s.vars.names, '=' ∉ name) : Legible s.listing := by
  intro e he
  obtain ⟨v, hv, rfl⟩ := List.mem_map.mp he
  refine ⟨h v.1 (List.mem_map_of_mem hv), fun hc => ?_, fun hc => ?_⟩
  · exact absurd (Number.numeric_shown v.2 _ hc) (by decide)
  · exact absurd (Number.numeric_shown v.2 _ hc) (by decide)

end Listing

/-- When no name holds an equals sign, the output lists every name once with its number as it is
shown, in strictly increasing order of the names, and this list can be read off it. So sessions that
have the same output have the same names, and show the same number for each of them. -/
theorem output_determines (s : Session) (hs : ∀ name ∈ s.vars.names, '=' ∉ name) :
    (∃ entries, s.output = '(' :: [','].intercalate (entries.map writeEntry) ++ [')'] ∧
      readOutput s.output = entries ∧ (entries.map (·.1)).Pairwise (· < ·) ∧
      ∀ name number,
        (name, number) ∈ entries ↔ (s.get? name).map Number.shown = some number) ∧
    ∀ t : Session, (∀ name ∈ t.vars.names, '=' ∉ name) → t.output = s.output →
      t.vars.names = s.vars.names ∧
        ∀ name, (t.get? name).map Number.shown = (s.get? name).map Number.shown := by
  have hread : ∀ t : Session, (∀ name ∈ t.vars.names, '=' ∉ name) →
      readOutput t.output = t.listing := fun t ht => by
    rw [output_eq, readOutput_written (legible_listing ht)]
  constructor
  · refine ⟨s.listing, output_eq s, hread s hs, ?_, fun _ _ => mem_listing_iff⟩
    rw [names_listing]
    exact List.pairwise_map.mpr s.vars.sorted
  · intro t ht heq
    have hlisting : t.listing = s.listing := by rw [← hread t ht, heq, hread s hs]
    refine ⟨?_, fun name => Option.ext fun number => ?_⟩
    · rw [← names_listing, hlisting, names_listing]
    · rw [← mem_listing_iff, hlisting, mem_listing_iff]

/-- A name holds a comma and a parenthesis, and a value is zero with either sign. -/
theorem output_determines_signed_zero :
    let s : Session := { vars := .ofList [("a".toList, 0.5), ("b,a)".toList, 0.0)] }
    let t : Session := { vars := .ofList [("b,a)".toList, -0.0), ("a".toList, 0.5)] }
    (∀ name ∈ s.vars.names, '=' ∉ name) ∧ (∀ name ∈ t.vars.names, '=' ∉ name) ∧
      t.output = s.output ∧ s.output = "(a=0.5,b,a)=0)".toList ∧
      (∀ name number, (name, number) ∈ readOutput s.output ↔
        (s.get? name).map Number.shown = some number) ∧
      t.vars.names = s.vars.names ∧
      ∀ name, (t.get? name).map Number.shown = (s.get? name).map Number.shown := by
  intro s t
  have hs : ∀ name ∈ s.vars.names, '=' ∉ name := by decide +kernel
  have ht : ∀ name ∈ t.vars.names, '=' ∉ name := by decide +kernel
  have heq : t.output = s.output := by decide +kernel
  have hshown : s.output = "(a=0.5,b,a)=0)".toList := by decide +kernel
  obtain ⟨⟨entries, -, rfl, -, hentries⟩, hsame⟩ := output_determines s hs
  exact ⟨hs, ht, heq, hshown, hentries, hsame t ht heq⟩

end Worksheet.Session
