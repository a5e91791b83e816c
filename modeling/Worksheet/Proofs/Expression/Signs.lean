import Worksheet.Proofs.Expression.Layout

/-! # Runs of signs

A minus behind a blank chunk is a sign. Signs stand in a run when nothing but white space separates
them. Cutting a text at an operator makes no run longer, and neither does white space.
-/
namespace Worksheet.Expression
open Text Series

def signsAfter (chunk : Text) : List (BinaryOp × Text) → Nat
  | (.minus, next) :: later => if isBlank chunk then signsAfter next later + 1 else 0
  | _ => 0

def signRunAfter (chunk : Text) : List (BinaryOp × Text) → Nat
  | [] => 0
  | e :: later => max (signsAfter chunk (e :: later)) (signRunAfter e.2 later)

def leadingSigns (p : Chunks) : Nat := signsAfter p.1 p.2

/-- The length of the longest run of signs. -/
def longestRun (p : Chunks) : Nat := signRunAfter p.1 p.2

/-- The length of the longest run of unary minuses in a text. -/
def signRun (s : Text) : Nat := longestRun (chunks s)

section Series
variable {op : BinaryOp}

theorem leadingSigns_attach_single (b : Text) (op : BinaryOp) (q : Chunks) :
    leadingSigns (attach (single b) op q) =
      if op = .minus ∧ isBlank b = true then leadingSigns q + 1 else 0 := by
  cases op with
  | minus =>
    have h : leadingSigns (attach (single b) .minus q) =
        if isBlank b then leadingSigns q + 1 else 0 := rfl
    rw [h]
    simp only [true_and]
  | plus | star | slash => rfl

theorem longestRun_attach_single (b : Text) (op : BinaryOp) (q : Chunks) :
    longestRun (attach (single b) op q) =
      max (leadingSigns (attach (single b) op q)) (longestRun q) := rfl

theorem leadingSigns_le_longestRun (p : Chunks) : leadingSigns p ≤ longestRun p := by
  cases p using attach_induction with
  | single b => exact Nat.le_refl 0
  | attach b op p => exact Nat.le_max_left _ _

theorem leadingSigns_le_attach (p : Chunks) (op : BinaryOp) (q : Chunks) :
    leadingSigns p ≤ leadingSigns (attach p op q) := by
  induction p using attach_induction with
  | single b => exact Nat.zero_le _
  | attach b o p ih =>
    rw [attach_assoc, leadingSigns_attach_single, leadingSigns_attach_single]
    split
    · exact Nat.succ_le_succ ih
    · exact Nat.le_refl 0

theorem longestRun_le_attach_left (p : Chunks) (op : BinaryOp) (q : Chunks) :
    longestRun p ≤ longestRun (attach p op q) := by
  induction p using attach_induction with
  | single b => exact Nat.zero_le _
  | attach b o p ih =>
    have hlead := leadingSigns_le_attach (attach (single b) o p) op q
    rw [attach_assoc] at hlead ⊢
    rw [longestRun_attach_single, longestRun_attach_single]
    omega

theorem longestRun_le_attach_right (p : Chunks) (op : BinaryOp) (q : Chunks) :
    longestRun q ≤ longestRun (attach p op q) := by
  induction p using attach_induction with
  | single b => exact Nat.le_max_right _ _
  | attach b o p ih =>
    rw [attach_assoc, longestRun_attach_single]
    exact Nat.le_trans ih (Nat.le_max_right _ _)

theorem leadingSigns_map_trim (p : Chunks) : leadingSigns (map trim p) = leadingSigns p := by
  induction p using attach_induction with
  | single b => rfl
  | attach b op p ih =>
    rw [map_attach, map_single, leadingSigns_attach_single, leadingSigns_attach_single, ih,
      isBlank_trim]

theorem longestRun_map_trim (p : Chunks) : longestRun (map trim p) = longestRun p := by
  induction p using attach_induction with
  | single b => rfl
  | attach b op p ih =>
    rw [longestRun_attach_single, ← leadingSigns_map_trim, ← ih]
    rfl

end Series

section Text
variable {s t u v : Text} {op : BinaryOp}

theorem Alike.leadingSigns_eq (h : Alike s t) :
    leadingSigns (chunks s) = leadingSigns (chunks t) := by
  rw [← leadingSigns_map_trim, h, leadingSigns_map_trim]

theorem Alike.signRun_eq (h : Alike s t) : signRun s = signRun t := by
  rw [signRun, ← longestRun_map_trim, h, longestRun_map_trim, signRun]

theorem signRun_le_left (h : op.allows u.getLast? v.head? = true) :
    signRun u ≤ signRun (u ++ op.char :: v) := by
  rw [signRun, signRun, chunks_append_operator h]
  exact longestRun_le_attach_left _ _ _

theorem signRun_le_right (h : op.allows u.getLast? v.head? = true) :
    signRun v ≤ signRun (u ++ op.char :: v) := by
  rw [signRun, signRun, chunks_append_operator h]
  exact longestRun_le_attach_right _ _ _

theorem leadingSigns_minus (h : BinaryOp.minus.allows none s.head? = true) :
    leadingSigns (chunks ('-' :: s)) = leadingSigns (chunks s) + 1 := by
  have hcut : chunks ([] ++ BinaryOp.minus.char :: s) = attach (chunks []) .minus (chunks s) :=
    chunks_append_operator h
  rw [show '-' :: s = [] ++ BinaryOp.minus.char :: s from rfl, hcut]
  exact (leadingSigns_attach_single [] .minus _).trans (if_pos ⟨rfl, rfl⟩)

end Text

end Worksheet.Expression
