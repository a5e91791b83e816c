import Worksheet.Expression.Chain
import Worksheet.Proofs.Expression.Series

/-! # Grouping

Two ways to combine the items of a series. Splitting takes the four operators one after the other,
the loosest first, and groups the pieces of each as that operator says. The conventional reading
has two levels, sums and products, and groups both from the left. They agree whenever an operator
of a level may be applied inside the right-hand side of the plus or the star of that level.
-/
namespace Worksheet.Expression.Series

variable {β γ : Type}

def combineAll (f : β → β → β) (g : Grouping) (p : Series β) : β :=
  combine f g p.1 (p.2.map (·.2))

/-- Combines the items by splitting at the given operators, the loosest first. -/
def grouped (f : BinaryOp → β → β → β) : List BinaryOp → Series β → β
  | [], p => p.1
  | op :: ops, p => combineAll (f op) op.grouping (map (grouped f ops) (cut (· = op) p))

/-- Combines the items strictly from the left, each by the operator before it. -/
def leftFold (f : BinaryOp → β → β → β) (p : Series β) : β :=
  p.2.foldl (fun b e => f e.1 b e.2) p.1

/-- Pluses and minuses are one level, stars and slashes the other. -/
def isAdditive (op : BinaryOp) : Bool := op = .plus || op = .minus

/-- Combines the items conventionally, products first and each level strictly from the left. -/
def conventional (f : BinaryOp → β → β → β) (p : Series β) : β :=
  leftFold f (map (leftFold f) (cut isAdditive p))

section Combine
variable (f : β → β → β)

@[simp] theorem combineAll_single (g : Grouping) (b : β) : combineAll f g (single b) = b := by
  cases g <;> rfl

theorem combineAll_fromRight (b : β) (op : BinaryOp) (p : Series β) :
    combineAll f .fromRight (attach (single b) op p) = f b (combineAll f .fromRight p) := rfl

theorem combineAll_fromLeft (p : Series β) (op : BinaryOp) (b : β) :
    combineAll f .fromLeft (attach p op (single b)) = f (combineAll f .fromLeft p) b := by
  simp [combineAll, attach, single, combine]

theorem map_combineAll {φ : β → γ} {f : β → β → β} {f' : γ → γ → γ}
    (h : ∀ a b, φ (f a b) = f' (φ a) (φ b)) (g : Grouping) (p : Series β) :
    φ (combineAll f g p) = combineAll f' g (map φ p) := by
  cases g with
  | fromRight =>
    induction p using attach_induction with
    | single b => rfl
    | attach b op p ih => rw [combineAll_fromRight, h, ih]; rfl
  | fromLeft =>
    obtain ⟨b, later⟩ := p
    induction later generalizing b with
    | nil => rfl
    | cons e later ih =>
      have he := ih (f b e.2)
      simpa [combineAll, combine, map, h] using he

end Combine

theorem map_grouped {φ : β → γ} {f : BinaryOp → β → β → β} {f' : BinaryOp → γ → γ → γ}
    (h : ∀ op a b, φ (f op a b) = f' op (φ a) (φ b)) (ops : List BinaryOp) (p : Series β) :
    φ (grouped f ops p) = grouped f' ops (map φ p) := by
  induction ops generalizing p with
  | nil => rfl
  | cons op ops ih =>
    rw [grouped, grouped, map_combineAll (h op), cut_map, map_map, map_map]
    congr 1
    exact map_congr fun q _ => ih q

theorem cut_eq_single_of_not_mem {op : BinaryOp} {p : Series β} (h : op ∉ operators p) :
    cut (· = op) p = single p := by
  refine cut_eq_single _ fun o ho => decide_eq_false ?_
  rintro rfl
  exact h ho

theorem map_leftFold {φ : β → γ} {f : BinaryOp → β → β → β} {f' : BinaryOp → γ → γ → γ}
    (h : ∀ op a b, φ (f op a b) = f' op (φ a) (φ b)) (p : Series β) :
    φ (leftFold f p) = leftFold f' (map φ p) := by
  obtain ⟨b, later⟩ := p
  induction later generalizing b with
  | nil => rfl
  | cons e later ih =>
    have he := ih (f e.1 b e.2)
    simpa [leftFold, map, h] using he

theorem map_conventional {φ : β → γ} {f : BinaryOp → β → β → β} {f' : BinaryOp → γ → γ → γ}
    (h : ∀ op a b, φ (f op a b) = f' op (φ a) (φ b)) (p : Series β) :
    φ (conventional f p) = conventional f' (map φ p) := by
  rw [conventional, conventional, map_leftFold h, cut_map, map_map, map_map]
  congr 1
  exact map_congr fun q _ => map_leftFold h q

theorem grouped_cons_of_not_mem {f : BinaryOp → β → β → β} {op : BinaryOp} {ops : List BinaryOp}
    {p : Series β} (h : op ∉ operators p) : grouped f (op :: ops) p = grouped f ops p := by
  rw [grouped, cut_eq_single_of_not_mem h, map_single, combineAll_single]

@[simp] theorem grouped_single (f : BinaryOp → β → β → β) (ops : List BinaryOp) (b : β) :
    grouped f ops (single b) = b := by
  induction ops with
  | nil => rfl
  | cons op ops ih => rw [grouped_cons_of_not_mem (by simp), ih]

theorem grouped_attach_fromRight {f : BinaryOp → β → β → β} {op : BinaryOp} {ops : List BinaryOp}
    {p : Series β} (hg : op.grouping = .fromRight) (hp : op ∉ operators p) (q : Series β) :
    grouped f (op :: ops) (attach p op q) = f op (grouped f ops p) (grouped f (op :: ops) q) := by
  have hcut : cut (· = op) (attach p op q) = attach (single p) op (cut (· = op) q) := by
    rw [cut_attach (· = op) (decide_eq_true rfl), cut_eq_single_of_not_mem hp]
  rw [grouped, grouped, hcut, map_attach, map_single, hg, combineAll_fromRight]

theorem grouped_attach_fromLeft {f : BinaryOp → β → β → β} {op : BinaryOp} {ops : List BinaryOp}
    {q : Series β} (hg : op.grouping = .fromLeft) (p : Series β) (hq : op ∉ operators q) :
    grouped f (op :: ops) (attach p op q) = f op (grouped f (op :: ops) p) (grouped f ops q) := by
  have hcut : cut (· = op) (attach p op q) = attach (cut (· = op) p) op (single q) := by
    rw [cut_attach (· = op) (decide_eq_true rfl), cut_eq_single_of_not_mem hq]
  rw [grouped, grouped, hcut, map_attach, map_single, hg, combineAll_fromLeft]

/-- An operator that applies inside the right-hand side of another may be applied after it. -/
def Regroups (f : BinaryOp → β → β → β) (outer op : BinaryOp) : Prop :=
  ∀ a b c, f op (f outer a b) c = f outer a (f op b c)

theorem leftFold_regroup {f : BinaryOp → β → β → β} {outer : BinaryOp} {p : Series β}
    (h : ∀ op ∈ operators p, Regroups f outer op) (a : β) :
    leftFold f (f outer a p.1, p.2) = f outer a (leftFold f p) := by
  obtain ⟨b, later⟩ := p
  induction later generalizing b with
  | nil => rfl
  | cons e later ih =>
    have he := h e.1 List.mem_cons_self a b e.2
    have hl := ih (f e.1 b e.2) fun op ho => h op (List.mem_cons_of_mem _ ho)
    simp only [leftFold, List.foldl_cons] at hl ⊢
    rw [he, hl]

theorem combineAll_fromLeft_eq_leftFold {f : BinaryOp → β → β → β} {op : BinaryOp} {p : Series β}
    (h : ∀ o ∈ operators p, o = op) : combineAll (f op) .fromLeft p = leftFold f p := by
  obtain ⟨b, later⟩ := p
  induction later generalizing b with
  | nil => rfl
  | cons e later ih =>
    have he : e.1 = op := h e.1 List.mem_cons_self
    have hl := ih (f op b e.2) fun o ho => h o (List.mem_cons_of_mem _ ho)
    simpa [combineAll, combine, leftFold, he] using hl

/-- Chains grouped from the left, combined from the right, are one fold from the left. -/
theorem combineAll_fromRight_eq_leftFold {f : BinaryOp → β → β → β} {outer : BinaryOp}
    {p : Series β} (h : ∀ op ∈ operators p, Regroups f outer op) :
    combineAll (f outer) .fromRight (map (leftFold f) (cut (· = outer) p)) = leftFold f p := by
  obtain ⟨b, later⟩ := p
  induction later generalizing b with
  | nil => rfl
  | cons e later ih =>
    obtain ⟨op, c⟩ := e
    have hl : ∀ o ∈ later.map (·.1), Regroups f outer o := fun o ho =>
      h o (List.mem_cons_of_mem _ ho)
    by_cases ho : op = outer
    · subst ho
      have hc : cut (· = op) (b, (op, c) :: later) =
          attach (single (single b)) op (cut (· = op) (c, later)) :=
        cut_attach (· = op) (p := single b) (q := (c, later)) (by simp)
      rw [hc, map_attach, map_single, combineAll_fromRight, ih c hl]
      exact (leftFold_regroup (p := (c, later)) hl b).symm
    · have hb := ih (f op b c) hl
      simpa [cut, cutLater, ho, map, leftFold] using hb

/-- Two neighbouring levels that regroup come to one level. -/
theorem grouped_eq_leftFold {f : BinaryOp → β → β → β} {outer inner : BinaryOp}
    (hne : inner ≠ outer) (ho : outer.grouping = .fromRight) (hi : inner.grouping = .fromLeft)
    (hoo : Regroups f outer outer) (hoi : Regroups f outer inner) (ops : List BinaryOp)
    (p : Series β) :
    grouped f (outer :: inner :: ops) p =
      leftFold f (map (grouped f ops) (cut (fun op => op = outer || op = inner) p)) := by
  let q := map (grouped f ops) (cut (fun op => op = outer || op = inner) p)
  have hq : ∀ op ∈ operators q, Regroups f outer op := by
    intro op hop
    rw [operators_map, operators_cut] at hop
    have hop := (List.mem_filter.mp hop).2
    rcases (by simpa using hop : op = outer ∨ op = inner) with rfl | rfl
    · exact hoo
    · exact hoi
  have hinner : ∀ r ∈ items (cut (· = outer) p),
      grouped f (inner :: ops) r = leftFold f (map (grouped f ops) (cut (· = inner) r)) := by
    intro r hr
    rw [grouped, hi]
    refine combineAll_fromLeft_eq_leftFold fun o h => ?_
    rw [operators_map, operators_cut] at h
    simpa using (List.mem_filter.mp h).2
  calc
    grouped f (outer :: inner :: ops) p
      = combineAll (f outer) .fromRight
          (map (leftFold f ∘ map (grouped f ops) ∘ cut (· = inner)) (cut (· = outer) p)) := by
        rw [grouped, ho, map_congr hinner]
        rfl
    _ = combineAll (f outer) .fromRight (map (leftFold f) (cut (· = outer) q)) := by
        rw [cut_map, cut_cut (· = outer) (· = inner) p, map_map, map_map]
        rfl
    _ = leftFold f q := combineAll_fromRight_eq_leftFold hq

/-- Splitting and the conventional reading agree where sums and products regroup. -/
theorem grouped_eq_conventional {f : BinaryOp → β → β → β}
    (hpp : Regroups f .plus .plus) (hpm : Regroups f .plus .minus)
    (hss : Regroups f .star .star) (hsd : Regroups f .star .slash) (p : Series β) :
    grouped f BinaryOp.all p = conventional f p := by
  rw [BinaryOp.all, grouped_eq_leftFold (by decide) rfl rfl hpp hpm]
  refine congrArg (leftFold f) (map_congr fun q hq => ?_)
  rw [grouped_eq_leftFold (by decide) rfl rfl hss hsd]
  -- Every operator of a piece is cut at, so that each item is a piece by itself.
  have hcut : map (grouped f []) (cut (fun op => op = .star || op = .slash) q) = q := by
    refine map_cut_of_forall (fun op hop => ?_) fun b => rfl
    have hadd := not_cut_of_mem_items _ hq hop
    cases op <;> simp_all
  rw [hcut]

end Worksheet.Expression.Series
