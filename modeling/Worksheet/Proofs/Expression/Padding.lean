import Worksheet.Proofs.Expression.Chunks

/-! # Padded texts

Padding keeps the operators of a text, and its chunks up to white space at their ends. Behind each
operator of a padded text stands a space.
-/
namespace Worksheet.Expression
open Text Series

theorem isBlank_space : isBlank [' '] = true := by decide

theorem allows_space (op : BinaryOp) : op.allows (some ' ') (some ' ') = true := by
  cases op <;> rfl

def spacedChunks : Text → List (BinaryOp × Text) → Chunks
  | c, [] => single (' ' :: trimLeft c)
  | c, (op, d) :: later => attach (single (' ' :: trim c ++ [' '])) op (spacedChunks d later)

theorem trim_space_trimLeft (c : Text) : trim (' ' :: trimLeft c) = trim c := by
  rw [show ' ' :: trimLeft c = [' '] ++ trimLeft c from rfl, trim_append_left isBlank_space,
    trim_trimLeft]

theorem trim_space_trim (c : Text) : trim (' ' :: trim c ++ [' ']) = trim c := by
  rw [show ' ' :: trim c = [' '] ++ trim c from rfl,
    trim_append_of_isBlank isBlank_space _ isBlank_space, trim_trim]

theorem map_trim_spacedChunks (c : Text) (later : List (BinaryOp × Text)) :
    map trim (spacedChunks c later) = map trim (c, later) := by
  induction later generalizing c with
  | nil => rw [spacedChunks, map_single, trim_space_trimLeft]; rfl
  | cons e later ih =>
    rw [spacedChunks, map_attach, map_single, trim_space_trim, ih e.2]
    rfl

theorem head?_spacedChunks (c : Text) (later : List (BinaryOp × Text)) :
    (spacedChunks c later).1.head? = some ' ' := by
  cases later <;> rfl

theorem head?_of_mem_spacedChunks {c : Text} {later : List (BinaryOp × Text)} :
    ∀ e ∈ (spacedChunks c later).2, e.2.head? = some ' ' := by
  induction later generalizing c with
  | nil => nofun
  | cons e later ih =>
    intro d hd
    rcases List.mem_cons.mp hd with rfl | hd
    · exact head?_spacedChunks ..
    · exact ih d hd

theorem exists_padTail (op : BinaryOp) (c : Text) (later : List (BinaryOp × Text))
    (hp : ∀ d ∈ items (c, later), Quiet d) :
    ∃ w, padTail ((op, c) :: later) = ' ' :: op.char :: ' ' :: w ∧
      chunks (' ' :: w) = spacedChunks c later := by
  have hc : Quiet c := hp c List.mem_cons_self
  induction later generalizing op c with
  | nil =>
    have hq : Quiet (' ' :: trimLeft c) := quiet_of_trim_eq (trim_space_trimLeft c).symm hc
    exact ⟨trimLeft c, rfl, hq⟩
  | cons e later ih =>
    obtain ⟨o, d⟩ := e
    have hlater : ∀ x ∈ items (d, later), Quiet x := fun x hx => hp x (List.mem_cons_of_mem _ hx)
    obtain ⟨w, hw, hcut⟩ := ih o d hlater (hlater d List.mem_cons_self)
    have hq : Quiet (' ' :: trim c ++ [' ']) := quiet_of_trim_eq (trim_space_trim c).symm hc
    refine ⟨trim c ++ padTail ((o, d) :: later), rfl, ?_⟩
    have ha : o.allows (' ' :: trim c ++ [' ']).getLast? (' ' :: w).head? = true := by
      rw [List.getLast?_concat]
      exact allows_space o
    rw [spacedChunks, ← hcut, ← hq, ← chunks_append_operator ha, hw]
    simp

theorem pad_of_quiet {s : Text} (h : Quiet s) : pad s = s := by rw [pad, h]; rfl

theorem pad_of_chunks {s c : Text} {e : BinaryOp × Text} {later : List (BinaryOp × Text)}
    (h : chunks s = (c, e :: later)) : pad s = trimRight c ++ padTail (e :: later) := by
  rw [pad, h]

theorem chunks_pad_of_chunks {s c : Text} {e : BinaryOp × Text} {later : List (BinaryOp × Text)}
    (h : chunks s = (c, e :: later)) :
    chunks (pad s) = attach (single (trimRight c ++ [' '])) e.1 (spacedChunks e.2 later) := by
  have hp : ∀ d ∈ items (chunks s), Quiet d := fun d hd => quiet_of_mem_chunks hd
  rw [h] at hp
  obtain ⟨w, hw, hcut⟩ := exists_padTail e.1 e.2 later
    fun d hd => hp d (List.mem_cons_of_mem _ hd)
  have ht : trim (trimRight c ++ [' ']) = trim c := by
    rw [trim_append_right _ isBlank_space, trim_trimRight]
  have hq : Quiet (trimRight c ++ [' ']) := quiet_of_trim_eq ht.symm (hp c List.mem_cons_self)
  have ha : e.1.allows (trimRight c ++ [' ']).getLast? (' ' :: w).head? = true := by
    rw [List.getLast?_concat]
    exact allows_space e.1
  rw [pad_of_chunks h, ← hcut, ← hq, ← chunks_append_operator ha, hw]
  simp

/-- Padding keeps the operators, and the chunks up to white space; a space is behind each
operator. -/
theorem chunks_pad (s : Text) :
    map trim (chunks (pad s)) = map trim (chunks s) ∧
      ∀ e ∈ (chunks (pad s)).2, e.2.head? = some ' ' := by
  rcases hs : chunks s with ⟨c, _ | ⟨e, later⟩⟩
  · rw [pad_of_quiet (quiet_of_chunks_eq_single hs), hs]
    exact ⟨rfl, nofun⟩
  · rw [chunks_pad_of_chunks hs, map_attach, map_single, map_trim_spacedChunks,
      trim_append_right _ isBlank_space, trim_trimRight]
    refine ⟨rfl, fun d hd => ?_⟩
    rcases List.mem_cons.mp hd with rfl | hd
    · exact head?_spacedChunks ..
    · exact head?_of_mem_spacedChunks d hd

/-- Texts with the same operators between chunks that differ in white space at their ends. -/
def Alike (s t : Text) : Prop := map trim (chunks s) = map trim (chunks t)

theorem Alike.symm {s t : Text} (h : Alike s t) : Alike t s := Eq.symm h

theorem Alike.trans {s t u : Text} (h : Alike s t) (h' : Alike t u) : Alike s u := Eq.trans h h'

theorem alike_pad (s : Text) : Alike (pad s) s := (chunks_pad s).1

theorem Alike.operators_eq {s t : Text} (h : Alike s t) :
    operators (chunks s) = operators (chunks t) := by
  rw [← operators_map trim, h, operators_map]

theorem Alike.trim_eq {s t : Text} (h : Alike s t) (hs : Quiet s) : trim s = trim t := by
  have ht : Quiet t := by
    rw [quiet_iff, ← operators_map trim, ← h, hs]
    rfl
  rw [Alike, hs, ht] at h
  exact congrArg Prod.fst h

theorem Alike.append_operator {u v u' v' : Text} {op : BinaryOp} (hu : Alike u u')
    (hv : Alike v v') (ha : op.allows u.getLast? v.head? = true)
    (ha' : op.allows u'.getLast? v'.head? = true) :
    Alike (u ++ op.char :: v) (u' ++ op.char :: v') := by
  rw [Alike, chunks_append_operator ha, chunks_append_operator ha', map_attach, map_attach, hu, hv]

theorem Alike.exists_of_operator {u v t : Text} {op : BinaryOp}
    (h : Alike (u ++ op.char :: v) t) (ha : op.allows u.getLast? v.head? = true) :
    ∃ u' v', t = u' ++ op.char :: v' ∧ op.allows u'.getLast? v'.head? = true ∧
      Alike u u' ∧ Alike v v' := by
  rw [Alike, chunks_append_operator ha, map_attach] at h
  obtain ⟨p, q, ht, hp, hq⟩ := exists_of_map_eq_attach h.symm
  obtain ⟨u', v', rfl, ha', rfl, rfl⟩ := exists_of_chunks_eq_attach ht
  exact ⟨u', v', rfl, ha', hp.symm, hq.symm⟩

/-- Texts in which every operator is followed by white space, or by nothing. -/
def Airy (s : Text) : Prop :=
  ∀ u (op : BinaryOp) v, s = u ++ op.char :: v → op.allows u.getLast? v.head? = true →
    ∀ c ∈ v.head?, isSpace c = true

theorem airy_pad (s : Text) : Airy (pad s) := by
  intro u op v hs ha c hc
  have hair := (chunks_pad s).2
  rw [hs, chunks_append_operator ha] at hair
  have hv : (chunks v).1.head? = some ' ' := hair (op, (chunks v).1) (by simp [attach])
  have hhead : v.head? = some ' ' := by
    rw [← join_chunks v, join, List.head?_append, hv]
    rfl
  obtain rfl := Option.some.inj (hhead.symm.trans hc)
  decide

namespace Airy

variable {s u v : Text} {op : BinaryOp}

theorem left (h : Airy (u ++ op.char :: v)) : Airy u := by
  rintro x o y rfl ha c hc
  cases y with
  | nil => cases hc
  | cons d y => exact h x o (d :: y ++ op.char :: v) (by simp) ha c hc

theorem right (h : Airy (u ++ op.char :: v)) (hop : op.allows u.getLast? v.head? = true) :
    Airy v := by
  rintro x o y rfl ha c hc
  exact h (u ++ op.char :: x) o y (by simp) (allows_append_left hop ha) c hc

theorem trim (h : Airy s) : Airy (trim s) := by
  obtain ⟨b, b', hb, hb', hs⟩ := exists_trim s
  rintro u op v hu ha c hc
  refine h (b ++ u) op (v ++ b') (by rw [hs, hu]; simp) (allows_append_blank hb hb' ha) c ?_
  exact List.mem_head?_append_of_mem_head? hc

end Airy

end Worksheet.Expression
