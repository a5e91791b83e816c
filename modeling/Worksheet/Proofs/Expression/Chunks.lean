import Worksheet.Expression.Padding
import Worksheet.Proofs.Expression.Series
import Worksheet.Proofs.Text.Trim

/-! # Chunks

The chunks of a text are a series of texts. Dividing the text at one of its operators divides this
series, and conversely: whether an operator stands at a character does not change when the text is
cut at another operator. White space at the two ends of a text changes no operator either.
-/
namespace Worksheet

/-- Neighbours of which each makes the other part of an increment or a decrement. -/
def Fuses (c d : Char) : Prop := c = d ∧ (c = '+' ∨ c = '-')

/-- An operator stands between two neighbours when it fuses with neither of them, and no compound
assignment begins with it. -/
theorem BinaryOp.allows_iff {op : BinaryOp} {before after : Option Char} :
    op.allows before after = true ↔ (∀ c ∈ before, ¬ Fuses c op.char) ∧
      ∀ c ∈ after, ¬ Fuses op.char c ∧ (op = plus → c ≠ '=') := by
  cases op <;> rcases before with _ | b <;> rcases after with _ | a <;>
    simp only [allows, char, Fuses, Option.mem_def] <;> grind

theorem BinaryOp.allows_mono {op : BinaryOp} {before before' after after' : Option Char}
    (h : op.allows before after = true) (hb : ∀ c ∈ before', c ∈ before)
    (ha : ∀ c ∈ after', c ∈ after) : op.allows before' after' = true := by
  obtain ⟨hbefore, hafter⟩ := allows_iff.mp h
  exact allows_iff.mpr ⟨fun c hc => hbefore c (hb c hc), fun c hc => hafter c (ha c hc)⟩

theorem operatorAt_eq_some {before after : Option Char} {c : Char} {op : BinaryOp} :
    operatorAt before c after = some op ↔ c = op.char ∧ op.allows before after = true := by
  rw [operatorAt_eq_some_iff]
  simp [BinaryOp.occursAt]

theorem operatorAt_before {b c : Char} (h : ¬ Fuses b c) (after : Option Char) :
    operatorAt (some b) c after = operatorAt none c after := by
  refine Option.ext fun op => ?_
  rw [operatorAt_eq_some, operatorAt_eq_some, BinaryOp.allows_iff, BinaryOp.allows_iff]
  constructor
  · rintro ⟨rfl, -, ha⟩
    exact ⟨rfl, by simp, ha⟩
  · rintro ⟨rfl, -, ha⟩
    exact ⟨rfl, by simpa using h, ha⟩

/-- A neighbour on the right matters only when it fuses or makes a plus an assignment. -/
theorem operatorAt_after {c d : Char} (h : ¬ Fuses c d) (hd : c = '+' → d ≠ '=')
    (before : Option Char) : operatorAt before c (some d) = operatorAt before c none := by
  refine Option.ext fun op => ?_
  rw [operatorAt_eq_some, operatorAt_eq_some, BinaryOp.allows_iff, BinaryOp.allows_iff]
  constructor
  · rintro ⟨rfl, hb, -⟩
    exact ⟨rfl, hb, by simp⟩
  · rintro ⟨rfl, hb, -⟩
    refine ⟨rfl, hb, ?_⟩
    rintro _ ⟨⟩
    exact ⟨h, fun hop => hd (by rw [hop]; rfl)⟩

namespace Expression
open Text Series

theorem allows_minus_of_ne {s : Text} (h : ∀ c ∈ s.head?, c ≠ '-') :
    BinaryOp.minus.allows none s.head? = true :=
  BinaryOp.allows_iff.mpr ⟨nofun, fun c hc => ⟨fun hf => h c hc hf.1.symm, nofun⟩⟩

/-- Texts of which neither changes what the other one's characters are. -/
structure Apart (u v : Text) : Prop where
  not_fuses : ∀ c ∈ u.getLast?, ∀ d ∈ v.head?, ¬ Fuses c d
  not_assign : ∀ c ∈ u.getLast?, ∀ d ∈ v.head?, c = '+' → d ≠ '='

theorem chunksAfter_cons (before : Option Char) (c : Char) (s : Text) :
    chunksAfter before (c :: s) =
      match operatorAt before c s.head? with
      | some op => attach (single []) op (chunksAfter (some c) s)
      | none => (c :: (chunksAfter (some c) s).1, (chunksAfter (some c) s).2) := rfl

/-- What comes before a text matters only when it fuses with its beginning. -/
theorem chunksAfter_eq_chunks {b : Char} {s : Text} (h : ∀ c ∈ s.head?, ¬ Fuses b c) :
    chunksAfter (some b) s = chunks s := by
  cases s with
  | nil => rfl
  | cons c s => rw [chunks, chunksAfter_cons, chunksAfter_cons, operatorAt_before (h c rfl)]

theorem getLast?_cons_or (c : Char) (s : Text) (before : Option Char) :
    (c :: s).getLast?.or before = s.getLast?.or (some c) := by
  cases s <;> simp [List.getLast?_cons]

/-- What stands at a character does not change when the text is cut at an operator behind it. -/
theorem operatorAt_append_operator {c : Char} {u v : Text} {op : BinaryOp}
    (h : op.allows (u.getLast?.or (some c)) v.head? = true) (before : Option Char) :
    operatorAt before c (u ++ op.char :: v).head? = operatorAt before c u.head? := by
  cases u with
  | cons d u => rfl
  | nil =>
    refine operatorAt_after ((BinaryOp.allows_iff.mp h).1 c rfl) (fun _ => ?_) before
    cases op <;> decide

theorem chunksAfter_append_operator {before : Option Char} {u v : Text} {op : BinaryOp}
    (h : op.allows (u.getLast?.or before) v.head? = true) :
    chunksAfter before (u ++ op.char :: v) = attach (chunksAfter before u) op (chunks v) := by
  induction u generalizing before with
  | nil =>
    have hop : operatorAt before op.char v.head? = some op := operatorAt_eq_some.mpr ⟨rfl, h⟩
    have ha := (BinaryOp.allows_iff.mp h).2
    rw [List.nil_append, chunksAfter_cons, hop, chunksAfter_eq_chunks fun c hc => (ha c hc).1]
    rfl
  | cons c u ih =>
    rw [getLast?_cons_or] at h
    rw [List.cons_append, chunksAfter_cons, chunksAfter_cons, operatorAt_append_operator h, ih h]
    cases operatorAt before c u.head? <;> rfl

theorem allows_append_left {u x y : Text} {op o : BinaryOp}
    (ha : op.allows u.getLast? (x ++ o.char :: y).head? = true)
    (ho : o.allows x.getLast? y.head? = true) :
    o.allows (u ++ op.char :: x).getLast? y.head? = true := by
  obtain ⟨hx, hy⟩ := BinaryOp.allows_iff.mp ho
  refine BinaryOp.allows_iff.mpr ⟨fun b hb => ?_, hy⟩
  cases x with
  | nil =>
    obtain rfl : op.char = b := by simpa using hb
    exact ((BinaryOp.allows_iff.mp ha).2 o.char rfl).1
  | cons d x => exact hx b (by simpa [List.getLast?_append, List.getLast?_cons] using hb)

theorem allows_append_right {x y v : Text} {op o : BinaryOp}
    (ha : o.allows (x ++ op.char :: y).getLast? v.head? = true)
    (ho : op.allows x.getLast? y.head? = true) :
    op.allows x.getLast? (y ++ o.char :: v).head? = true := by
  cases y with
  | cons d y => exact ho
  | nil =>
    obtain ⟨hx, -⟩ := BinaryOp.allows_iff.mp ho
    obtain ⟨hlast, -⟩ := BinaryOp.allows_iff.mp ha
    refine BinaryOp.allows_iff.mpr ⟨hx, fun d hd => ?_⟩
    obtain rfl : o.char = d := by simpa using hd
    refine ⟨hlast op.char (by simp), fun _ => ?_⟩
    cases o <;> decide

theorem chunks_append_operator {u v : Text} {op : BinaryOp}
    (h : op.allows u.getLast? v.head? = true) :
    chunks (u ++ op.char :: v) = attach (chunks u) op (chunks v) := by
  have hu : op.allows (u.getLast?.or none) v.head? = true := by simpa using h
  exact chunksAfter_append_operator hu

theorem exists_of_chunksAfter_eq_attach {before : Option Char} {s : Text} {p q : Chunks}
    {op : BinaryOp} (h : chunksAfter before s = attach p op q) :
    ∃ u v, s = u ++ op.char :: v ∧ op.allows (u.getLast?.or before) v.head? = true ∧
      chunksAfter before u = p ∧ chunks v = q := by
  induction s generalizing before p with
  | nil => simp [chunksAfter, attach] at h
  | cons c s ih =>
    obtain ⟨chunk, later⟩ := p
    rw [chunksAfter_cons] at h
    cases hop : operatorAt before c s.head? with
    | some o =>
      obtain ⟨hc, ho⟩ := operatorAt_eq_some.mp hop
      simp only [hop, attach, single, Prod.mk.injEq] at h
      obtain ⟨rfl, h⟩ := h
      cases later with
      | nil =>
        obtain ⟨h, h2⟩ := List.cons.inj h
        obtain ⟨rfl, h1⟩ := Prod.mk.inj h
        have ha := (BinaryOp.allows_iff.mp ho).2
        refine ⟨[], s, by rw [hc]; rfl, ho, rfl, ?_⟩
        rw [← chunksAfter_eq_chunks fun d hd => hc ▸ (ha d hd).1]
        exact Prod.ext h1 h2
      | cons e later =>
        obtain ⟨h, h2⟩ := List.cons.inj h
        obtain ⟨u, v, rfl, ha, hu, hv⟩ := ih (p := (e.2, later))
          (Prod.ext (by rw [← h]; rfl) h2)
        refine ⟨c :: u, v, rfl, by rwa [getLast?_cons_or], ?_, hv⟩
        rw [operatorAt_append_operator ha] at hop
        rw [chunksAfter_cons, hop, hu]
        simp [attach, single, ← h]
    | none =>
      simp only [hop, attach, Prod.mk.injEq] at h
      obtain ⟨rfl, h⟩ := h
      obtain ⟨u, v, rfl, ha, hu, hv⟩ := ih (p := ((chunksAfter (some c) s).1, later))
        (Prod.ext rfl h)
      refine ⟨c :: u, v, rfl, by rwa [getLast?_cons_or], ?_, hv⟩
      rw [operatorAt_append_operator ha] at hop
      rw [chunksAfter_cons, hop, hu]

theorem exists_of_chunks_eq_attach {s : Text} {p q : Chunks} {op : BinaryOp}
    (h : chunks s = attach p op q) :
    ∃ u v, s = u ++ op.char :: v ∧ op.allows u.getLast? v.head? = true ∧
      chunks u = p ∧ chunks v = q := by
  obtain ⟨u, v, hs, ha, hu, hv⟩ := exists_of_chunksAfter_eq_attach h
  exact ⟨u, v, hs, by simpa using ha, hu, hv⟩

theorem eq_of_chunks_eq_single {s c : Text} (h : chunks s = single c) : s = c := by
  have hj := join_chunks s
  rw [h] at hj
  simpa [join, single] using hj.symm

/-- Texts without an operator. -/
def Quiet (s : Text) : Prop := chunks s = single s

theorem quiet_of_chunks_eq_single {s c : Text} (h : chunks s = single c) : Quiet s := by
  obtain rfl := eq_of_chunks_eq_single h
  exact h

theorem quiet_iff {s : Text} : Quiet s ↔ operators (chunks s) = [] := by
  constructor
  · intro h
    rw [h]
    rfl
  · intro h
    have hs : chunks s = single (chunks s).1 := Prod.ext rfl (List.map_eq_nil_iff.mp h)
    rw [Quiet, hs, ← eq_of_chunks_eq_single hs]

theorem quiet_iff_forall {s : Text} :
    Quiet s ↔ ∀ u (op : BinaryOp) v, s = u ++ op.char :: v →
      op.allows u.getLast? v.head? = false := by
  rw [quiet_iff]
  constructor
  · rintro h u op v rfl
    cases ha : op.allows u.getLast? v.head? with
    | false => rfl
    | true => simp [chunks_append_operator ha] at h
  · intro h
    refine List.eq_nil_iff_forall_not_mem.mpr fun op hop => ?_
    obtain ⟨p, q, hs, -⟩ := exists_first hop
    obtain ⟨u, v, rfl, ha, -, -⟩ := exists_of_chunks_eq_attach hs
    rw [h u op v rfl] at ha
    exact Bool.noConfusion ha

theorem chunksAfter_append_of_quiet {before : Option Char} {u v : Text}
    (hu : chunksAfter before u = single u)
    (h : ∀ b ∈ u.getLast?.or before, ∀ d ∈ v.head?, ¬ Fuses b d ∧ (b = '+' → d ≠ '=')) :
    chunksAfter before (u ++ v) = (u ++ (chunks v).1, (chunks v).2) := by
  induction u generalizing before with
  | nil =>
    cases before with
    | none => rfl
    | some b => exact chunksAfter_eq_chunks fun d hd => (h b rfl d hd).1
  | cons c u ih =>
    rw [getLast?_cons_or] at h
    have hhead : operatorAt before c (u ++ v).head? = operatorAt before c u.head? := by
      cases u with
      | cons d u => rfl
      | nil =>
        cases v with
        | nil => rfl
        | cons d v => exact operatorAt_after (h c rfl d rfl).1 (h c rfl d rfl).2 before
    rw [chunksAfter_cons] at hu
    cases hop : operatorAt before c u.head? with
    | some o => simp [hop, attach, single] at hu
    | none =>
      simp only [hop, single, Prod.mk.injEq, List.cons.injEq, true_and] at hu
      rw [List.cons_append, chunksAfter_cons, hhead, hop, ih (Prod.ext hu.1 hu.2) h]
      rfl

theorem chunks_append_of_quiet {u v : Text} (hu : Quiet u) (h : Apart u v) :
    chunks (u ++ v) = (u ++ (chunks v).1, (chunks v).2) := by
  have hb : ∀ b ∈ u.getLast?.or none, ∀ d ∈ v.head?, ¬ Fuses b d ∧ (b = '+' → d ≠ '=') := by
    intro b hb d hd
    rw [Option.or_none] at hb
    exact ⟨h.not_fuses b hb d hd, h.not_assign b hb d hd⟩
  exact chunksAfter_append_of_quiet hu hb

theorem Quiet.append {u v : Text} (hu : Quiet u) (hv : Quiet v) (h : Apart u v) :
    Quiet (u ++ v) := by
  rw [Quiet, chunks_append_of_quiet hu h, hv]
  rfl

theorem quiet_of_mem_chunks {s c : Text} (h : c ∈ items (chunks s)) : Quiet c := by
  generalize hp : chunks s = p at h
  induction p using attach_induction generalizing s with
  | single b =>
    obtain rfl := List.mem_singleton.mp h
    obtain rfl := eq_of_chunks_eq_single hp
    exact hp
  | attach b op p ih =>
    obtain ⟨u, v, rfl, -, hu, hv⟩ := exists_of_chunks_eq_attach hp
    rcases List.mem_cons.mp h with rfl | h
    · obtain rfl := eq_of_chunks_eq_single hu
      exact hu
    · exact ih hv h

section Blank

theorem ne_char_of_isSpace {c : Char} (hc : isSpace c = true) (op : BinaryOp) : c ≠ op.char := by
  rintro rfl
  cases op <;> exact absurd hc (by decide)

theorem not_fuses_of_isSpace_left {c d : Char} (hc : isSpace c = true) : ¬ Fuses c d := by
  rintro ⟨-, rfl | rfl⟩ <;> exact absurd hc (by decide)

theorem not_fuses_of_isSpace_right {c d : Char} (hd : isSpace d = true) : ¬ Fuses c d := by
  rintro ⟨rfl, rfl | rfl⟩ <;> exact absurd hd (by decide)

theorem ne_equals_of_isSpace {c : Char} (hc : isSpace c = true) : c ≠ '=' := by
  rintro rfl
  exact absurd hc (by decide)

theorem isSpace_of_mem {b : Text} (hb : isBlank b = true) {c : Char} (hc : c ∈ b) :
    isSpace c = true := List.all_eq_true.mp hb c hc

theorem ne_char_of_isBlank {b : Text} (hb : isBlank b = true) :
    ∀ c ∈ b, ∀ op : BinaryOp, c ≠ op.char :=
  fun _ hc => ne_char_of_isSpace (isSpace_of_mem hb hc)

theorem apart_of_isBlank_left {b : Text} (hb : isBlank b = true) (v : Text) : Apart b v where
  not_fuses _ hc _ _ := not_fuses_of_isSpace_left (isSpace_of_mem hb (List.mem_of_getLast? hc))
  not_assign c hc _ _ h := absurd h (ne_char_of_isBlank hb c (List.mem_of_getLast? hc) .plus)

theorem apart_of_isBlank_right (u : Text) {b : Text} (hb : isBlank b = true) : Apart u b where
  not_fuses _ _ _ hd := not_fuses_of_isSpace_right (isSpace_of_mem hb (List.mem_of_head? hd))
  not_assign _ _ _ hd _ := ne_equals_of_isSpace (isSpace_of_mem hb (List.mem_of_head? hd))

theorem quiet_of_forall_ne {s : Text} (h : ∀ c ∈ s, ∀ op : BinaryOp, c ≠ op.char) : Quiet s := by
  rw [quiet_iff_forall]
  rintro u op v rfl
  exact absurd rfl (h op.char (by simp) op)

theorem quiet_of_isBlank {b : Text} (hb : isBlank b = true) : Quiet b :=
  quiet_of_forall_ne (ne_char_of_isBlank hb)

theorem allows_append_blank {op : BinaryOp} {u v b b' : Text} (hb : isBlank b = true)
    (hb' : isBlank b' = true) (h : op.allows u.getLast? v.head? = true) :
    op.allows (b ++ u).getLast? (v ++ b').head? = true := by
  obtain ⟨hu, hv⟩ := BinaryOp.allows_iff.mp h
  refine BinaryOp.allows_iff.mpr ⟨fun c hc => ?_, fun c hc => ?_⟩
  · rw [List.getLast?_append] at hc
    rcases Option.or_eq_some_iff.mp hc with hc | ⟨-, hc⟩
    · exact hu c hc
    · exact not_fuses_of_isSpace_left (isSpace_of_mem hb (List.mem_of_getLast? hc))
  · rw [List.head?_append] at hc
    rcases Option.or_eq_some_iff.mp hc with hc | ⟨-, hc⟩
    · exact hv c hc
    · have hs := isSpace_of_mem hb' (List.mem_of_head? hc)
      exact ⟨not_fuses_of_isSpace_right hs, fun _ => ne_equals_of_isSpace hs⟩

theorem quiet_append_blank_iff {b s b' : Text} (hb : isBlank b = true) (hb' : isBlank b' = true) :
    Quiet (b ++ s ++ b') ↔ Quiet s := by
  constructor
  · intro h
    rw [quiet_iff_forall] at h ⊢
    rintro u op v rfl
    cases ha : op.allows u.getLast? v.head? with
    | false => rfl
    | true =>
      rw [← h (b ++ u) op (v ++ b') (by simp), allows_append_blank hb hb' ha]
  · intro h
    have hs := (quiet_of_isBlank hb).append h (apart_of_isBlank_left hb s)
    exact hs.append (quiet_of_isBlank hb') (apart_of_isBlank_right _ hb')

theorem quiet_trim_iff {s : Text} : Quiet (trim s) ↔ Quiet s := by
  obtain ⟨b, b', hb, hb', h⟩ := exists_trim s
  conv => rhs; rw [h]
  exact (quiet_append_blank_iff hb hb').symm

theorem quiet_of_trim_eq {s t : Text} (h : trim s = trim t) (hs : Quiet s) : Quiet t :=
  quiet_trim_iff.mp (h ▸ quiet_trim_iff.mpr hs)

end Blank

end Expression
end Worksheet
