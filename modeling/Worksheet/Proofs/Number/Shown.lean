import Worksheet.Number.Written
import Worksheet.Proofs.Number.Literal

/-! # Characters of numbers

A number is written and shown with digits, signs, a point, the mark of an exponent, and the letters
of an infinity or of no number.
-/
namespace Worksheet.Number
open Text

def isNumberChar (c : Char) : Bool := c.isDigit || "+-.aefin".toList.contains c

def Numeric (s : Text) : Prop := ∀ c ∈ s, isNumberChar c = true

instance (s : Text) : Decidable (Numeric s) :=
  List.decidableBAll (fun c : Char => isNumberChar c = true) s

section Digits

variable {s : Text}

theorem numeric_of_allDigits (h : AllDigits s) : Numeric s := by
  intro c hc
  unfold isNumberChar
  rw [h c hc, Bool.true_or]

theorem allDigits_digitsOf (n : Nat) : AllDigits (digitsOf n) := fun _ hc =>
  Nat.isDigit_of_mem_toDigits (by decide) (by decide) hc

theorem allDigits_zeros (n : Nat) : AllDigits (List.replicate n '0') := by
  intro c hc
  rw [List.eq_of_mem_replicate hc]
  rfl

theorem allDigits_decimalOf (q : Nat) (p : Int) : AllDigits (decimalOf q p).digits := by
  intro c hc
  have hmem : c ∈ (digitsOf q).reverse.dropWhile (· = '0') := List.mem_reverse.mp hc
  exact allDigits_digitsOf q c (List.mem_reverse.mp ((List.dropWhile_sublist _).mem hmem))

/-- The digits come from the grid, or are those of the significand. -/
theorem allDigits_shortest (m : Nat) (e : Int) : AllDigits (shortest m e).digits := by
  unfold shortest
  extract_lets interval unit lead grid
  cases h : (List.range maxDigits).findSome? grid with
  | none => exact allDigits_digitsOf m
  | some d =>
    obtain ⟨k, -, hk⟩ := List.exists_of_findSome?_eq_some h
    obtain ⟨q, -, rfl⟩ := Option.map_eq_some_iff.mp hk
    exact allDigits_decimalOf q _

end Digits

namespace Numeric

variable {s t : Text} {c : Char}

theorem cons (hc : isNumberChar c = true) (h : Numeric s) : Numeric (c :: s) :=
  List.forall_mem_cons.mpr ⟨hc, h⟩

theorem append (hs : Numeric s) (ht : Numeric t) : Numeric (s ++ t) :=
  List.forall_mem_append.mpr ⟨hs, ht⟩

theorem withSign (h : Numeric s) (g : Float.Model.UnpackedFloat.Sign) :
    Numeric (withSign g s) := by
  cases g with
  | positive => exact h
  | negative => exact h.cons rfl

end Numeric

section Written

variable {d : Decimal}

theorem numeric_writeExponent (e : Int) : Numeric (writeExponent e) := by
  have hdigits : Numeric (List.replicate (2 - (digitsOf e.natAbs).length) '0' ++
      digitsOf e.natAbs) :=
    (numeric_of_allDigits (allDigits_zeros _)).append
      (numeric_of_allDigits (allDigits_digitsOf _))
  refine Numeric.cons rfl (Numeric.cons ?_ hdigits)
  split <;> rfl

theorem numeric_positional (h : AllDigits d.digits) : Numeric d.positional := by
  have hzeros : ∀ n, Numeric (List.replicate n '0') := fun n =>
    numeric_of_allDigits (allDigits_zeros n)
  have hfraction : ∀ n, Numeric (d.digits.drop n) := fun n => numeric_of_allDigits fun c hc =>
    h c (List.mem_of_mem_drop hc)
  have hwhole : ∀ n, Numeric (d.digits.take n) := fun n => numeric_of_allDigits fun c hc =>
    h c (List.mem_of_mem_take hc)
  unfold Decimal.positional
  split
  · exact (((hzeros _).append (numeric_of_allDigits h)).cons rfl).cons rfl
  · refine ((hwhole _).append (hzeros _)).append (Numeric.cons rfl ?_)
    split
    · exact hzeros 1
    · exact hfraction _

theorem numeric_scientific (h : AllDigits d.digits) : Numeric d.scientific := by
  have hfraction : Numeric (d.digits.drop 1) := numeric_of_allDigits fun c hc =>
    h c (List.mem_of_mem_drop hc)
  have hwhole : Numeric (d.digits.take 1) := numeric_of_allDigits fun c hc =>
    h c (List.mem_of_mem_take hc)
  refine (hwhole.append ?_).append (numeric_writeExponent _)
  split
  · exact nofun
  · exact hfraction.cons rfl

theorem numeric_decimal (h : AllDigits d.digits) : Numeric d.text := by
  unfold Decimal.text
  split
  · exact numeric_positional h
  · exact numeric_scientific h

theorem numeric_text (x : Float) : Numeric (text x) := by
  have hword : Numeric infinity ∧ Numeric notANumber ∧ Numeric "0.0".toList := by decide
  unfold text
  split
  · exact hword.1.withSign _
  · exact hword.2.1
  · exact hword.2.2.withSign _
  · exact (numeric_decimal (allDigits_shortest _ _)).withSign _

end Written

theorem numeric_shown (x : Float) : Numeric (shown x) := by
  unfold shown
  split
  · exact numeric_of_allDigits (allDigits_zeros 1)
  · split
    · exact (numeric_of_allDigits (allDigits_digitsOf _)).withSign _
    · exact numeric_text x
  · exact numeric_text x

end Worksheet.Number
