import Worksheet.Proofs.Text.Encoding

/-! # Strict decoding

Nothing but the bytes of a text can be decoded. Whatever the decoder reads as a character are the
bytes of that character, so bytes that no text has are refused, wherever in them the fault is.
-/
namespace Worksheet.Text.Utf8

section Character

variable {n a b c d : Nat}

theorem toNat_val_ofNat (h : n.isValidChar) : (Char.ofNat n).val.toNat = n := by
  rw [Char.ofNat, dif_pos h]
  rfl

theorem utf8EncodeChar_one (h : n < 0x80) :
    String.utf8EncodeChar (Char.ofNat n) = [UInt8.ofNat n] := by
  rw [String.utf8EncodeChar, toNat_val_ofNat (.inl (by omega))]
  exact if_pos (by omega)

theorem utf8EncodeChar_two (ha : 0xC2 ≤ a ∧ a < 0xE0) (hb : 0x80 ≤ b ∧ b ≤ 0xBF) :
    String.utf8EncodeChar (Char.ofNat ((a - 0xC0) * 64 + (b - 0x80))) =
      [UInt8.ofNat a, UInt8.ofNat b] := by
  obtain ⟨n, hn⟩ : ∃ n, (a - 0xC0) * 64 + (b - 0x80) = n := ⟨_, rfl⟩
  have hfirst : n / 64 % 32 + 192 = a := by omega
  have hlast : n % 64 + 128 = b := by omega
  rw [hn, String.utf8EncodeChar, toNat_val_ofNat (.inl (by omega))]
  rw [if_neg (by omega), if_pos (by omega), hfirst, hlast]

theorem utf8EncodeChar_three (ha : 0xE0 ≤ a ∧ a < 0xF0)
    (hb : (if a = 0xE0 then 0xA0 else 0x80) ≤ b ∧ b ≤ (if a = 0xED then 0x9F else 0xBF))
    (hc : 0x80 ≤ c ∧ c ≤ 0xBF) :
    String.utf8EncodeChar (Char.ofNat (((a - 0xE0) * 64 + (b - 0x80)) * 64 + (c - 0x80))) =
      [UInt8.ofNat a, UInt8.ofNat b, UInt8.ofNat c] := by
  obtain ⟨n, hn⟩ : ∃ n, ((a - 0xE0) * 64 + (b - 0x80)) * 64 + (c - 0x80) = n := ⟨_, rfl⟩
  have hbounds : 0x80 ≤ b ∧ b ≤ 0xBF := by split at hb <;> split at hb <;> omega
  have hvalid : n.isValidChar := by
    unfold Nat.isValidChar
    split at hb <;> split at hb <;> omega
  have hwide : 0x7FF < n := by split at hb <;> omega
  have hfirst : n / 4096 % 16 + 224 = a := by omega
  have hsecond : n / 64 % 64 + 128 = b := by omega
  have hlast : n % 64 + 128 = c := by omega
  rw [hn, String.utf8EncodeChar, toNat_val_ofNat hvalid]
  rw [if_neg (by omega), if_neg (by omega), if_pos (by omega), hfirst, hsecond, hlast]

theorem utf8EncodeChar_four (ha : 0xF0 ≤ a ∧ a < 0xF5)
    (hb : (if a = 0xF0 then 0x90 else 0x80) ≤ b ∧ b ≤ (if a = 0xF4 then 0x8F else 0xBF))
    (hc : 0x80 ≤ c ∧ c ≤ 0xBF) (hd : 0x80 ≤ d ∧ d ≤ 0xBF) :
    String.utf8EncodeChar (Char.ofNat ((((a - 0xF0) * 64 + (b - 0x80)) * 64 + (c - 0x80)) * 64 +
        (d - 0x80))) =
      [UInt8.ofNat a, UInt8.ofNat b, UInt8.ofNat c, UInt8.ofNat d] := by
  obtain ⟨n, hn⟩ : ∃ n, (((a - 0xF0) * 64 + (b - 0x80)) * 64 + (c - 0x80)) * 64 + (d - 0x80) = n :=
    ⟨_, rfl⟩
  have hbounds : 0x80 ≤ b ∧ b ≤ 0xBF := by split at hb <;> split at hb <;> omega
  have hrange : 0xFFFF < n ∧ n < 0x110000 := by split at hb <;> split at hb <;> omega
  have hfirst : n / 262144 % 8 + 240 = a := by omega
  have hsecond : n / 4096 % 64 + 128 = b := by omega
  have hthird : n / 64 % 64 + 128 = c := by omega
  have hlast : n % 64 + 128 = d := by omega
  rw [hn, String.utf8EncodeChar, toNat_val_ofNat (.inr (by omega))]
  rw [if_neg (by omega), if_neg (by omega), if_neg (by omega), hfirst, hsecond, hthird, hlast]

end Character

section Decoding

variable {done s : Text} {place : Place} {p : Pending} {bytes : Bytes} {b : UInt8}

theorem exists_byte (h : decodeFrom done place (some p) bytes = .ok s) :
    ∃ n rest, bytes = UInt8.ofNat n :: rest ∧ p.low.toNat ≤ n ∧ n ≤ p.high.toNat := by
  cases bytes with
  | nil => cases h
  | cons b rest =>
    rw [decodeFrom] at h
    split at h
    · next hb =>
      rw [Pending.accepts, Bool.and_eq_true, decide_eq_true_eq, decide_eq_true_eq,
        UInt8.le_iff_toNat_le, UInt8.le_iff_toNat_le] at hb
      exact ⟨b.toNat, rest, by rw [UInt8.ofNat_toNat], hb⟩
    · cases h

/-- Bytes that go on as decoded after a first character, and begin with its bytes. -/
def BeginsDecoded (done : Text) (bytes : Bytes) (s : Text) : Prop :=
  ∃ c rest next, bytes = String.utf8EncodeChar c ++ rest ∧
    decodeFrom (c :: done) next none rest = .ok s

variable {a : Nat}

theorem beginsDecoded_one (ha : a < 0x80)
    (h : decodeFrom done place none (UInt8.ofNat a :: bytes) = .ok s) :
    BeginsDecoded done (UInt8.ofNat a :: bytes) s := by
  rw [decodeFrom_whole _ _ _ ha] at h
  exact ⟨_, bytes, _, by rw [utf8EncodeChar_one ha]; rfl, h⟩

theorem beginsDecoded_two (ha : 0xC2 ≤ a ∧ a < 0xE0)
    (h : decodeFrom done place none (UInt8.ofNat a :: bytes) = .ok s) :
    BeginsDecoded done (UInt8.ofNat a :: bytes) s := by
  rw [decodeFrom_first _ _ _ (lead_two ha)] at h
  obtain ⟨b, rest, rfl, hb⟩ := exists_byte h
  rw [decodeFrom_last _ _ _ hb.1 hb.2 rfl] at h
  exact ⟨_, rest, _, by rw [utf8EncodeChar_two ha hb]; rfl, h⟩

theorem beginsDecoded_three (ha : 0xE0 ≤ a ∧ a < 0xF0)
    (h : decodeFrom done place none (UInt8.ofNat a :: bytes) = .ok s) :
    BeginsDecoded done (UInt8.ofNat a :: bytes) s := by
  rw [decodeFrom_first _ _ _ (lead_three ha)] at h
  obtain ⟨b, rest, rfl, hb⟩ := exists_byte h
  rw [decodeFrom_next _ _ _ hb.1 hb.2 rfl] at h
  obtain ⟨c, rest, rfl, hc⟩ := exists_byte h
  rw [decodeFrom_last _ _ _ hc.1 hc.2 rfl] at h
  rw [apply_ite UInt8.toNat, apply_ite UInt8.toNat] at hb
  exact ⟨_, rest, _, by rw [utf8EncodeChar_three ha hb hc]; rfl, h⟩

theorem beginsDecoded_four (ha : 0xF0 ≤ a ∧ a < 0xF5)
    (h : decodeFrom done place none (UInt8.ofNat a :: bytes) = .ok s) :
    BeginsDecoded done (UInt8.ofNat a :: bytes) s := by
  rw [decodeFrom_first _ _ _ (lead_four ha)] at h
  obtain ⟨b, rest, rfl, hb⟩ := exists_byte h
  rw [decodeFrom_next _ _ _ hb.1 hb.2 rfl] at h
  obtain ⟨c, rest, rfl, hc⟩ := exists_byte h
  rw [decodeFrom_next _ _ _ hc.1 hc.2 rfl] at h
  obtain ⟨d, rest, rfl, hd⟩ := exists_byte h
  rw [decodeFrom_last _ _ _ hd.1 hd.2 rfl] at h
  rw [apply_ite UInt8.toNat, apply_ite UInt8.toNat] at hb
  exact ⟨_, rest, _, by rw [utf8EncodeChar_four ha hb hc hd]; rfl, h⟩

theorem lead_invalid (ha : a < 0x100) (h : 0x80 ≤ a ∧ a < 0xC2 ∨ 0xF5 ≤ a) :
    lead (UInt8.ofNat a) = .invalid := by
  unfold lead
  rw [toNat_byte ha]
  dsimp only
  rcases h with h | h
  · rw [if_neg (by omega), if_pos h.2]
  · rw [if_neg (by omega), if_neg (by omega), if_neg (by omega), if_neg (by omega),
      if_neg (by omega)]

theorem beginsDecoded (h : decodeFrom done place none (b :: bytes) = .ok s) :
    BeginsDecoded done (b :: bytes) s := by
  obtain ⟨a, ha, rfl⟩ : ∃ a, a < 0x100 ∧ b = UInt8.ofNat a :=
    ⟨b.toNat, b.toNat_lt, by rw [UInt8.ofNat_toNat]⟩
  have hinvalid : ¬ (0x80 ≤ a ∧ a < 0xC2 ∨ 0xF5 ≤ a) := fun hbad => by
    rw [decodeFrom, lead_invalid ha hbad] at h
    cases h
  by_cases hone : a < 0x80
  · exact beginsDecoded_one hone h
  by_cases htwo : a < 0xE0
  · exact beginsDecoded_two (by omega) h
  by_cases hthree : a < 0xF0
  · exact beginsDecoded_three (by omega) h
  · exact beginsDecoded_four (by omega) h

theorem eq_encode_of_decodeFrom (h : decodeFrom done place none bytes = .ok s) :
    ∃ t, bytes = encode t ∧ s = done.reverse ++ t := by
  -- On the length: a character takes one to four bytes at once.
  induction hn : bytes.length using Nat.strongRecOn generalizing bytes done place with
  | _ n ih =>
    subst hn
    cases bytes with
    | nil =>
      obtain rfl := Except.ok.inj h
      exact ⟨[], rfl, (List.append_nil _).symm⟩
    | cons b bytes =>
      obtain ⟨c, rest, next, hbytes, hrest⟩ := beginsDecoded h
      have hshort : rest.length < (b :: bytes).length := by
        have hpos := List.length_pos_iff.mpr (String.utf8EncodeChar_ne_nil (c := c))
        rw [hbytes, List.length_append]
        omega
      obtain ⟨t, rfl, rfl⟩ := ih _ hshort hrest rfl
      exact ⟨c :: t, hbytes, by simp⟩

theorem decode_eq_ok_iff : decode bytes = .ok s ↔ bytes = encode s := by
  constructor
  · intro h
    obtain ⟨t, rfl, rfl⟩ := eq_encode_of_decodeFrom h
    rfl
  · rintro rfl
    exact decode_encode s

/-- The bytes that are decoded are the valid ones. -/
theorem isValidUTF8_iff : bytes.toByteArray.IsValidUTF8 ↔ ∃ s, decode bytes = .ok s := by
  constructor
  · rintro ⟨s, hs⟩
    have hbytes : bytes.toByteArray = (encode s).toByteArray := hs
    have hdata := congrArg ByteArray.data hbytes
    rw [List.data_toByteArray, List.data_toByteArray] at hdata
    exact ⟨s, decode_eq_ok_iff.mpr (congrArg Array.toList hdata)⟩
  · rintro ⟨s, hs⟩
    rw [decode_eq_ok_iff.mp hs]
    exact ⟨s, rfl⟩

theorem exists_fault (h : ¬ bytes.toByteArray.IsValidUTF8) : ∃ f, decode bytes = .error f := by
  cases hd : decode bytes with
  | error f => exact ⟨f, rfl⟩
  | ok s => exact absurd (isValidUTF8_iff.mpr ⟨s, hd⟩) h

end Decoding

end Worksheet.Text.Utf8
