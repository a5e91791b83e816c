import Worksheet.Expression.Operator

/-! # Series

A series is what a text without parentheses comes to: items with an operator between each two of
them. Cutting a series at some of its operators gives a series of series.
-/
namespace Worksheet.Expression

abbrev Series (β : Type) := β × List (BinaryOp × β)

namespace Series

variable {β γ δ : Type}

def single (b : β) : Series β := (b, [])

def operators (p : Series β) : List BinaryOp := p.2.map (·.1)

def items (p : Series β) : List β := p.1 :: p.2.map (·.2)

def attach (p : Series β) (op : BinaryOp) (q : Series β) : Series β :=
  (p.1, p.2 ++ (op, q.1) :: q.2)

def map (f : β → γ) (p : Series β) : Series γ := (f p.1, p.2.map fun e => (e.1, f e.2))

/-- What comes before the first operator that is cut at, and the pieces after it. -/
def cutLater (cuts : BinaryOp → Bool) :
    List (BinaryOp × β) → List (BinaryOp × β) × List (BinaryOp × Series β)
  | [] => ([], [])
  | (op, b) :: later =>
    let r := cutLater cuts later
    if cuts op then ([], (op, b, r.1) :: r.2) else ((op, b) :: r.1, r.2)

def cut (cuts : BinaryOp → Bool) (p : Series β) : Series (Series β) :=
  ((p.1, (cutLater cuts p.2).1), (cutLater cuts p.2).2)

@[simp] theorem operators_single (b : β) : operators (single b) = [] := rfl

@[simp] theorem operators_attach (p : Series β) (op : BinaryOp) (q : Series β) :
    operators (attach p op q) = operators p ++ op :: operators q := by
  simp [operators, attach]

@[simp] theorem items_attach (p : Series β) (op : BinaryOp) (q : Series β) :
    items (attach p op q) = items p ++ items q := by
  simp [items, attach]

@[simp] theorem operators_map (f : β → γ) (p : Series β) : operators (map f p) = operators p := by
  simp [operators, map]

@[simp] theorem map_single (f : β → γ) (b : β) : map f (single b) = single (f b) := rfl

@[simp] theorem map_attach (f : β → γ) (p : Series β) (op : BinaryOp) (q : Series β) :
    map f (attach p op q) = attach (map f p) op (map f q) := by
  simp [map, attach]

theorem map_map (g : γ → δ) (f : β → γ) (p : Series β) : map g (map f p) = map (g ∘ f) p := by
  simp [map, Function.comp_def]

theorem map_congr {f g : β → γ} {p : Series β} (h : ∀ b ∈ items p, f b = g b) :
    map f p = map g p := by
  unfold map
  rw [h p.1 List.mem_cons_self]
  congr 1
  refine List.map_congr_left fun e he => ?_
  rw [h e.2 (List.mem_cons_of_mem _ (List.mem_map_of_mem he))]

theorem exists_of_map_eq_attach {f : β → γ} {p : Series β} {q r : Series γ} {op : BinaryOp}
    (h : map f p = attach q op r) :
    ∃ q' r', p = attach q' op r' ∧ map f q' = q ∧ map f r' = r := by
  obtain ⟨h1, h2⟩ := Prod.mk.inj h
  obtain ⟨l, l', hp, hl, hl'⟩ := List.map_eq_append_iff.mp h2
  obtain ⟨e, l'', rfl, he, hl''⟩ := List.map_eq_cons_iff.mp hl'
  obtain ⟨rfl, he⟩ := Prod.ext_iff.mp he
  exact ⟨(p.1, l), (e.2, l''), Prod.ext rfl hp, Prod.ext h1 hl, Prod.ext he hl''⟩

/-- A series is one item, or its first item attached to a series. -/
theorem attach_induction {motive : Series β → Prop} (single : ∀ b, motive (single b))
    (attach : ∀ b op p, motive p → motive (attach (Series.single b) op p)) (p : Series β) :
    motive p := by
  obtain ⟨b, later⟩ := p
  induction later generalizing b with
  | nil => exact single b
  | cons e later ih => exact attach b e.1 (e.2, later) (ih e.2)

theorem attach_assoc (p : Series β) (op : BinaryOp) (q : Series β) (op' : BinaryOp)
    (r : Series β) : attach (attach p op q) op' r = attach p op (attach q op' r) := by
  simp [attach]

theorem exists_first {p : Series β} {op : BinaryOp} (h : op ∈ operators p) :
    ∃ q r, p = attach q op r ∧ op ∉ operators q := by
  induction p using attach_induction with
  | single b => simp at h
  | attach b o p ih =>
    by_cases ho : op = o
    · subst ho
      exact ⟨single b, p, rfl, by simp⟩
    · have hp : op ∈ operators p := by simpa [ho] using h
      obtain ⟨q, r, rfl, hq⟩ := ih hp
      exact ⟨attach (single b) o q, r, (attach_assoc ..).symm, by simp [ho, hq]⟩

theorem exists_last {p : Series β} {op : BinaryOp} (h : op ∈ operators p) :
    ∃ q r, p = attach q op r ∧ op ∉ operators r := by
  induction p using attach_induction with
  | single b => simp at h
  | attach b o p ih =>
    by_cases hp : op ∈ operators p
    · obtain ⟨q, r, rfl, hr⟩ := ih hp
      exact ⟨attach (single b) o q, r, (attach_assoc ..).symm, hr⟩
    · have ho : op = o := by simpa [hp] using h
      subst ho
      exact ⟨single b, p, rfl, hp⟩

section Cut
variable (cuts : BinaryOp → Bool)

@[simp] theorem cut_single (b : β) : cut cuts (single b) = single (single b) := rfl

theorem cutLater_eq_of_forall {later : List (BinaryOp × β)}
    (h : ∀ e ∈ later, cuts e.1 = false) : cutLater cuts later = (later, []) := by
  induction later with
  | nil => rfl
  | cons e later ih =>
    have he := h e List.mem_cons_self
    simp [cutLater, he, ih fun d hd => h d (List.mem_cons_of_mem _ hd)]

theorem cut_eq_single {p : Series β} (h : ∀ op ∈ operators p, cuts op = false) :
    cut cuts p = single p := by
  have hp : cutLater cuts p.2 = (p.2, []) :=
    cutLater_eq_of_forall cuts fun e he => h e.1 (List.mem_map_of_mem he)
  simp [cut, hp, single]

theorem cut_attach {p q : Series β} {op : BinaryOp} (h : cuts op = true) :
    cut cuts (attach p op q) = attach (cut cuts p) op (cut cuts q) := by
  obtain ⟨b, later⟩ := p
  induction later generalizing b with
  | nil => simp [attach, cut, cutLater, h]
  | cons e later ih =>
    have he := ih e.2
    simp only [attach, cut, Prod.mk.injEq, true_and] at he
    by_cases hc : cuts e.1 = true <;> simp [attach, cut, cutLater, hc, he]

theorem cut_attach_of_not {b : β} {op : BinaryOp} {p : Series β} (h : ¬ cuts op = true) :
    cut cuts (attach (single b) op p) =
      (attach (single b) op (cut cuts p).1, (cut cuts p).2) := by
  simp [attach, single, cut, cutLater, h]

theorem operators_cut (p : Series β) : operators (cut cuts p) = (operators p).filter cuts := by
  induction p using attach_induction with
  | single b => rfl
  | attach b op p ih =>
    by_cases hc : cuts op = true
    · simp [cut_attach cuts hc, hc, ih]
    · rw [cut_attach_of_not cuts hc, operators_attach, List.filter_append,
        List.filter_cons_of_neg hc, ← ih]
      rfl

theorem cut_map (f : β → γ) (p : Series β) : cut cuts (map f p) = map (map f) (cut cuts p) := by
  induction p using attach_induction with
  | single b => rfl
  | attach b op p ih =>
    by_cases hc : cuts op = true
    · simp [cut_attach cuts hc, ih]
    · rw [map_attach, map_single, cut_attach_of_not cuts hc, cut_attach_of_not cuts hc, ih]
      simp [map, attach, single]

theorem not_cut_of_mem_items {p q : Series β} (hq : q ∈ items (cut cuts p)) {op : BinaryOp}
    (h : op ∈ operators q) : cuts op = false := by
  induction p using attach_induction generalizing q with
  | single b =>
    obtain rfl : q = single b := List.mem_singleton.mp hq
    simp at h
  | attach b o p ih =>
    by_cases ho : cuts o = true
    · rw [cut_attach cuts ho, items_attach, cut_single] at hq
      rcases List.mem_append.mp hq with hq | hq
      · obtain rfl : q = single b := List.mem_singleton.mp hq
        simp at h
      · exact ih hq h
    · rw [cut_attach_of_not cuts ho] at hq
      rcases List.mem_cons.mp hq with rfl | hq
      · rcases List.mem_append.mp (operators_attach .. ▸ h) with h | h
        · simp at h
        · rcases List.mem_cons.mp h with rfl | h
          · simpa using ho
          · exact ih List.mem_cons_self h
      · exact ih (List.mem_cons_of_mem _ hq) h

theorem map_cut_of_forall {cuts : BinaryOp → Bool} {p : Series β}
    (h : ∀ op ∈ operators p, cuts op = true) {f : Series β → β} (hf : ∀ b, f (single b) = b) :
    map f (cut cuts p) = p := by
  induction p using attach_induction with
  | single b => rw [cut_single, map_single, hf]
  | attach b op p ih =>
    have hop : cuts op = true := h op (by simp)
    have hp : ∀ o ∈ operators p, cuts o = true := fun o ho => h o (by simp [ho])
    rw [cut_attach cuts hop, map_attach, cut_single, map_single, hf, ih hp]

/-- Pieces can be cut further afterwards, or can be cut smaller from the beginning. -/
theorem cut_cut (outer inner : BinaryOp → Bool) (p : Series β) :
    cut outer (cut (fun op => outer op || inner op) p) = map (cut inner) (cut outer p) := by
  induction p using attach_induction with
  | single b => rfl
  | attach b op p ih =>
    by_cases ho : outer op = true
    · have hb : (outer op || inner op) = true := by simp [ho]
      rw [cut_attach _ hb, cut_attach _ ho, cut_attach _ ho, ih]
      rfl
    · by_cases hi : inner op = true
      · have hb : (outer op || inner op) = true := by simp [hi]
        rw [cut_attach _ hb, cut_single, cut_attach_of_not _ ho, cut_attach_of_not _ ho, ih]
        simp [map, cut_attach _ hi]
      · have hb : ¬ (outer op || inner op) = true := by simp [ho, hi]
        rw [cut_attach_of_not _ hb, cut_attach_of_not _ ho]
        -- The new item joins the first piece of the first piece, on either side.
        generalize hq : cut (fun op => outer op || inner op) p = q at ih ⊢
        change ((attach (single b) op (cut outer q).1.1, (cut outer q).1.2), (cut outer q).2) = _
        rw [ih]
        simp [map, cut_attach_of_not _ hi]

end Cut

end Series
end Worksheet.Expression
