import Worksheet.Proofs.Expression.Chains
import Worksheet.Proofs.Expression.Grouping
import Worksheet.Proofs.Expression.Spacing

/-! # Trees

A tree says which operands belong to which operator, and its meaning is read off directly: operands
are evaluated strictly from left to right. Written without parentheses, a tree is a phrase of
signed atoms with operators between them. A grouped tree is what splitting makes of its phrase, and
each phrase has exactly one.
-/
namespace Worksheet

/-- The looser an operator, the lower its level. -/
def BinaryOp.level : BinaryOp → Nat
  | plus => 0
  | minus => 1
  | star => 2
  | slash => 3

/-- The lowest levels that the two operands may have. A plus or a star may be the operator of its
own right operand, a minus or a slash that of its left one. -/
def BinaryOp.operandLevels : BinaryOp → Nat × Nat
  | plus => (1, 0)
  | minus => (1, 2)
  | star => (3, 2)
  | slash => (3, 4)

namespace Expression
open Series

inductive Atom
  | literal (l : Literal)
  | name (x : Name)
  | stepped (step : Step) (x : Name)

structure Signed where
  signs : Nat
  atom : Atom

abbrev Phrase := Series Signed

inductive Tree
  | atom (a : Atom)
  | negated (t : Tree)
  | binary (op : BinaryOp) (left right : Tree)

section Tokens

def Atom.tokens : Atom → List Token
  | literal l => [.literal l]
  | name x => [.name x]
  | stepped step x =>
    if step.yieldsNew then [.mark step.direction, .name x] else [.name x, .mark step.direction]

def Signed.tokens (g : Signed) : List Token :=
  List.replicate g.signs (.operator .minus) ++ g.atom.tokens

def Phrase.tokens (p : Phrase) : List Token :=
  p.1.tokens ++ p.2.flatMap fun e => .operator e.1 :: e.2.tokens

def Tree.tokens : Tree → List Token
  | atom a => a.tokens
  | negated t => .operator .minus :: t.tokens
  | binary op l r => l.tokens ++ .operator op :: r.tokens

end Tokens

namespace Tree

/-- A sign binds tighter than every operator. -/
def level : Tree → Nat
  | atom _ => 5
  | negated _ => 4
  | binary op _ _ => op.level

/-- Trees that need no parentheses. -/
def Grouped : Tree → Prop
  | atom _ => True
  | negated t => t.Grouped ∧ 4 ≤ t.level
  | binary op l r => l.Grouped ∧ r.Grouped ∧
      op.operandLevels.1 ≤ l.level ∧ op.operandLevels.2 ≤ r.level

/-- The length of the longest run of minuses that are signs. -/
def signRun : Tree → Nat
  | atom _ => 0
  | negated t => t.signRun + 1
  | binary _ l r => max l.signRun r.signRun

def phrase : Tree → Phrase
  | atom a => single ⟨0, a⟩
  | negated t => (⟨t.phrase.1.signs + 1, t.phrase.1.atom⟩, t.phrase.2)
  | binary op l r => attach l.phrase op r.phrase

end Tree

section Meaning

/-- A computation over variables, which stops at a name without a value. -/
abbrev Meaning (α β : Type) := ExceptT Name (StateM (Variables α)) β

variable {α : Type}

def valueOf (x : Name) : Meaning α α := do
  match (← get).get? x.1 with
  | some v => return v
  | none => throw x

variable [Arithmetic α]

/-- The number that a literal denotes. -/
def denoted (l : Literal) : Meaning α α := return Arithmetic.ofNumeral l.value

/-- The value of the variable that goes by the text of a literal, if there is one. -/
def shadowed (l : Literal) : Meaning α α := do
  match (← get).get? l.text with
  | some v => return v
  | none => denoted l

variable (number : Literal → Meaning α α)

def Atom.evaluate : Atom → Meaning α α
  | literal l => number l
  | name x => valueOf x
  | stepped step x => do
    let old ← valueOf x
    let new := old + step.delta
    modify (·.insert x.1 new)
    return if step.yieldsNew then new else old

/-- The meaning of a tree, given that of its literals. -/
def Tree.evaluate : Tree → Meaning α α
  | atom a => a.evaluate number
  | negated t => do return -(← t.evaluate)
  | binary op l r => op.inOrder l.evaluate r.evaluate

theorem Tree.evaluate_binary (op : BinaryOp) (l r : Tree) :
    (Tree.binary op l r).evaluate number = op.inOrder (l.evaluate number) (r.evaluate number) :=
  rfl

end Meaning

def signed : Nat → Atom → Tree
  | 0, a => .atom a
  | n + 1, a => .negated (signed n a)

def Signed.tree (g : Signed) : Tree := signed g.signs g.atom

section Phrase

theorem Phrase.tokens_single (g : Signed) : Phrase.tokens (single g) = g.tokens :=
  List.append_nil _

theorem Phrase.tokens_attach (p : Phrase) (op : BinaryOp) (q : Phrase) :
    Phrase.tokens (attach p op q) = Phrase.tokens p ++ .operator op :: Phrase.tokens q := by
  simp [Phrase.tokens, attach]

theorem Tree.tokens_phrase (t : Tree) : Phrase.tokens t.phrase = t.tokens := by
  induction t with
  | atom a => exact Phrase.tokens_single ⟨0, a⟩
  | negated t ih =>
    rw [Tree.tokens, ← ih]
    simp [phrase, Phrase.tokens, Signed.tokens, List.replicate_succ]
  | binary op l r ihl ihr => rw [phrase, Phrase.tokens_attach, ihl, ihr, Tree.tokens]

theorem Tree.signs_le (t : Tree) : ∀ g ∈ items t.phrase, g.signs ≤ t.signRun := by
  induction t with
  | atom a =>
    intro g hg
    obtain rfl := List.mem_singleton.mp hg
    exact Nat.le_refl 0
  | negated t ih =>
    intro g hg
    rcases List.mem_cons.mp hg with rfl | hg
    · exact Nat.succ_le_succ (ih t.phrase.1 List.mem_cons_self)
    · exact Nat.le_succ_of_le (ih g (List.mem_cons_of_mem _ hg))
  | binary op l r ihl ihr =>
    intro g hg
    rw [phrase, items_attach] at hg
    rw [signRun]
    rcases List.mem_append.mp hg with hg | hg
    · have := ihl g hg
      omega
    · have := ihr g hg
      omega

end Phrase

section Grouped
open BinaryOp

theorem level_le_operandLevels (op : BinaryOp) :
    op.level ≤ op.operandLevels.1 ∧ op.level ≤ op.operandLevels.2 := by
  cases op <;> decide

theorem operandLevels_fromRight {op : BinaryOp} (h : op.grouping = .fromRight) :
    op.operandLevels = (op.level + 1, op.level) := by
  cases op <;> first | rfl | cases h

theorem operandLevels_fromLeft {op : BinaryOp} (h : op.grouping = .fromLeft) :
    op.operandLevels = (op.level, op.level + 1) := by
  cases op <;> first | rfl | cases h

theorem eq_of_level_eq {op op' : BinaryOp} (h : op.level = op'.level) : op = op' := by
  revert h
  cases op <;> cases op' <;> decide

theorem drop_level (op : BinaryOp) : all.drop op.level = op :: all.drop (op.level + 1) := by
  cases op <;> rfl

theorem level_lt (op : BinaryOp) : op.level < 4 := by
  cases op <;> decide

theorem exists_level_eq {k : Nat} (h : k < 4) : ∃ op : BinaryOp, op.level = k := by
  match k with
  | 0 => exact ⟨plus, rfl⟩
  | 1 => exact ⟨minus, rfl⟩
  | 2 => exact ⟨star, rfl⟩
  | 3 => exact ⟨slash, rfl⟩

theorem Tree.Grouped.phrase_eq {t : Tree} (h : t.Grouped) (hl : 4 ≤ t.level) :
    ∃ g : Signed, t.phrase = single g ∧ g.tree = t := by
  induction t with
  | atom a => exact ⟨⟨0, a⟩, rfl, rfl⟩
  | negated t ih =>
    obtain ⟨g, hg, ht⟩ := ih h.1 h.2
    refine ⟨⟨g.signs + 1, g.atom⟩, by rw [phrase, hg]; rfl, ?_⟩
    exact congrArg Tree.negated ht
  | binary op l r => exact absurd (level_lt op) (Nat.not_lt.mpr hl)

theorem Tree.Grouped.level_le {t : Tree} (h : t.Grouped) :
    ∀ op ∈ operators t.phrase, t.level ≤ op.level := by
  induction t with
  | atom a => simp [phrase]
  | negated t =>
    obtain ⟨g, hg, -⟩ := phrase_eq h (Nat.le_refl 4)
    simp [hg]
  | binary op l r ihl ihr =>
    obtain ⟨hl, hr, hll, hrl⟩ := h
    obtain ⟨hopl, hopr⟩ := level_le_operandLevels op
    intro o ho
    rw [phrase, operators_attach] at ho
    rcases List.mem_append.mp ho with ho | ho
    · exact Nat.le_trans (Nat.le_trans hopl hll) (ihl hl o ho)
    · rcases List.mem_cons.mp ho with rfl | ho
      · exact Nat.le_refl _
      · exact Nat.le_trans (Nat.le_trans hopr hrl) (ihr hr o ho)

variable {β : Type} {f : BinaryOp → β → β → β}

theorem grouped_drop_of_le {p : Series β} {k n : Nat} (hp : ∀ op ∈ operators p, n ≤ op.level)
    (hk : k ≤ n) (hn : n ≤ 4) : grouped f (all.drop k) p = grouped f (all.drop n) p := by
  induction hk with
  | refl => rfl
  | @step n hk ih =>
    obtain ⟨op, rfl⟩ := exists_level_eq (k := n) (by omega)
    have hop : op ∉ operators p := fun h => by
      have := hp op h
      omega
    have hstep : grouped f (all.drop op.level) p = grouped f (all.drop (op.level + 1)) p := by
      rw [drop_level, grouped_cons_of_not_mem hop]
    rw [← hstep]
    exact ih (fun o ho => Nat.le_of_succ_le (hp o ho)) (by omega)

/-- Splitting the phrase of a grouped tree at the operators from a level on gives the tree. -/
theorem Tree.Grouped.grouped_phrase {t : Tree} (h : t.Grouped) {k : Nat} (hk : k ≤ t.level) :
    grouped Tree.binary (all.drop k) (map Signed.tree t.phrase) = t := by
  induction t generalizing k with
  | atom a => exact grouped_single ..
  | negated t =>
    obtain ⟨g, hg, ht⟩ := phrase_eq h (Nat.le_refl 4)
    rw [hg, map_single, grouped_single, ht]
  | binary op l r ihl ihr =>
    have hle := h.level_le
    obtain ⟨hl, hr, hll, hrl⟩ := h
    have hlow : grouped Tree.binary (all.drop k) (map Signed.tree (Tree.binary op l r).phrase) =
        grouped Tree.binary (all.drop op.level)
          (map Signed.tree (Tree.binary op l r).phrase) :=
      grouped_drop_of_le (by simpa [level] using hle) hk (Nat.le_of_lt (level_lt op))
    have hnot : ∀ {u : Tree}, u.Grouped → op.level < u.level →
        op ∉ operators (map Signed.tree u.phrase) := by
      intro u hu hlt hop
      rw [operators_map] at hop
      have := hu.level_le op hop
      omega
    rw [hlow, drop_level, phrase, map_attach]
    cases hg : op.grouping with
    | fromRight =>
      rw [operandLevels_fromRight hg] at hll hrl
      have hlt : op.level < l.level := hll
      have hrt : op.level ≤ r.level := hrl
      rw [grouped_attach_fromRight hg (hnot hl hlt), ihl hl hlt, ← drop_level, ihr hr hrt]
    | fromLeft =>
      rw [operandLevels_fromLeft hg] at hll hrl
      have hlt : op.level ≤ l.level := hll
      have hrt : op.level < r.level := hrl
      rw [grouped_attach_fromLeft hg _ (hnot hr hrt), ihr hr hrt, ← drop_level, ihl hl hlt]

/-- The tree that splitting makes of a phrase. -/
def Phrase.tree (p : Phrase) : Tree := grouped Tree.binary all (map Signed.tree p)

theorem Tree.Grouped.tree_phrase {t : Tree} (h : t.Grouped) : Phrase.tree t.phrase = t :=
  h.grouped_phrase (k := 0) (Nat.zero_le _)

/-- A tree of a phrase that needs no parentheses where operators of a level may stand. -/
structure Tree.Reads (k : Nat) (t : Tree) (p : Phrase) : Prop where
  grouped : t.Grouped
  le_level : k ≤ t.level
  phrase_eq : t.phrase = p

theorem Tree.Reads.binary {op : BinaryOp} {m n : Nat} {t u : Tree} {p q : Phrase}
    (hop : op.operandLevels = (m, n)) (ht : t.Reads m p) (hu : u.Reads n q) :
    (Tree.binary op t u).Reads op.level (attach p op q) := by
  obtain ⟨rfl, rfl⟩ := Prod.ext_iff.mp hop
  refine ⟨⟨ht.grouped, hu.grouped, ht.le_level, hu.le_level⟩, Nat.le_refl _, ?_⟩
  rw [phrase, ht.phrase_eq, hu.phrase_eq]

theorem Tree.Reads.mono {k n : Nat} {t : Tree} {p : Phrase} (h : t.Reads n p) (hk : k ≤ n) :
    t.Reads k p :=
  ⟨h.grouped, Nat.le_trans hk h.le_level, h.phrase_eq⟩

theorem reads_signed (n : Nat) (a : Atom) : (signed n a).Reads 4 (single ⟨n, a⟩) := by
  induction n with
  | zero => exact ⟨trivial, Nat.le_succ 4, rfl⟩
  | succ n ih =>
    obtain ⟨hg, hl, hp⟩ := ih
    refine ⟨⟨hg, hl⟩, Nat.le_refl 4, ?_⟩
    rw [signed, Tree.phrase, hp]
    rfl

theorem lt_level_of_not_mem {p : Phrase} {op : BinaryOp}
    (hp : ∀ o ∈ operators p, op.level ≤ o.level) (hop : op ∉ operators p) :
    ∀ o ∈ operators p, op.level + 1 ≤ o.level := by
  intro o ho
  refine Nat.lt_of_le_of_ne (hp o ho) fun h => hop ?_
  rwa [eq_of_level_eq h]

theorem reads_chain {op : BinaryOp}
    (ih : ∀ {p : Phrase}, (∀ o ∈ operators p, op.level + 1 ≤ o.level) →
      (grouped Tree.binary (all.drop (op.level + 1)) (map Signed.tree p)).Reads (op.level + 1) p)
    {p : Phrase} (hp : ∀ o ∈ operators p, op.level ≤ o.level) :
    (grouped Tree.binary (all.drop op.level) (map Signed.tree p)).Reads op.level p := by
  induction hn : (operators p).length using Nat.strongRecOn generalizing p with
  | _ n ihn =>
    by_cases hop : op ∈ operators p
    · cases hg : op.grouping with
      | fromRight =>
        obtain ⟨q, r, rfl, hq⟩ := exists_first hop
        rw [operators_attach, List.length_append, List.length_cons] at hn
        have hleft := ih (lt_level_of_not_mem (fun o ho => hp o (by simp [ho])) hq)
        have hright := ihn (operators r).length (by omega) (fun o ho => hp o (by simp [ho])) rfl
        rw [drop_level] at hright ⊢
        rw [map_attach, grouped_attach_fromRight hg (by simpa using hq)]
        exact Tree.Reads.binary (operandLevels_fromRight hg) hleft hright
      | fromLeft =>
        obtain ⟨q, r, rfl, hr⟩ := exists_last hop
        rw [operators_attach, List.length_append, List.length_cons] at hn
        have hleft := ihn (operators q).length (by omega) (fun o ho => hp o (by simp [ho])) rfl
        have hright := ih (lt_level_of_not_mem (fun o ho => hp o (by simp [ho])) hr)
        rw [drop_level] at hleft ⊢
        rw [map_attach, grouped_attach_fromLeft hg _ (by simpa using hr)]
        exact Tree.Reads.binary (operandLevels_fromLeft hg) hleft hright
    · rw [drop_level, grouped_cons_of_not_mem (by simpa using hop)]
      exact (ih (lt_level_of_not_mem hp hop)).mono (Nat.le_succ _)

theorem reads_grouped {k : Nat} (hk : k ≤ 4) {p : Phrase}
    (hp : ∀ o ∈ operators p, k ≤ o.level) :
    (grouped Tree.binary (all.drop k) (map Signed.tree p)).Reads k p := by
  induction hn : 4 - k generalizing k p with
  | zero =>
    obtain rfl : k = 4 := by omega
    obtain ⟨g, later⟩ := p
    have hnil : later = [] := by
      cases later with
      | nil => rfl
      | cons e later =>
        exact absurd (level_lt e.1) (Nat.not_lt.mpr (hp e.1 List.mem_cons_self))
    rw [hnil]
    exact reads_signed g.signs g.atom
  | succ n ih =>
    obtain ⟨op, rfl⟩ := exists_level_eq (k := k) (by omega)
    exact reads_chain (fun h => ih (by omega) h (by omega)) hp

/-- A phrase is the phrase of exactly one grouped tree. -/
theorem grouped_and_phrase_eq_iff {t : Tree} {p : Phrase} :
    t.Grouped ∧ t.phrase = p ↔ t = Phrase.tree p := by
  constructor
  · rintro ⟨h, rfl⟩
    exact h.tree_phrase.symm
  · rintro rfl
    have hread := reads_grouped (Nat.zero_le 4) fun o (_ : o ∈ operators p) => Nat.zero_le o.level
    exact ⟨hread.grouped, hread.phrase_eq⟩

end Grouped

end Expression
end Worksheet
