import Worksheet.Text.Utf8

/-! # Encoding

The bytes of a text are those of its characters, one to four for each. Decoding them gives the text
back, so every text is what some file holds.
-/
namespace Worksheet.Text.Utf8

def encode (s : Text) : Bytes := s.flatMap String.utf8EncodeChar

section Byte

variable {n : Nat} (done : Text) (place : Place) (rest : Bytes)

theorem toNat_byte (h : n < 256) : (UInt8.ofNat n).toNat = n := by
  rw [UInt8.toNat_ofNat']
  exact Nat.mod_eq_of_lt h

theorem decodeFrom_whole (h : n < 0x80) :
    decodeFrom done place none (UInt8.ofNat n :: rest) =
      decodeFrom (Char.ofNat n :: done) (place.read.skip 1) none rest := by
  have hlead : lead (UInt8.ofNat n) = .whole (Char.ofNat n) := by
    unfold lead
    rw [toNat_byte (by omega)]
    exact if_pos h
  rw [decodeFrom, hlead]

theorem decodeFrom_first {p : Pending} (h : lead (UInt8.ofNat n) = .sequence p) :
    decodeFrom done place none (UInt8.ofNat n :: rest) =
      decodeFrom done place.read (some p) rest := by
  rw [decodeFrom, h]

variable {p : Pending}

theorem accepts_byte (hl : p.low.toNat ≤ n) (hh : n ≤ p.high.toNat) :
    p.accepts (UInt8.ofNat n) = true := by
  have hn : n < 256 := Nat.lt_of_le_of_lt hh p.high.toNat_lt
  rw [Pending.accepts, Bool.and_eq_true, decide_eq_true_eq, decide_eq_true_eq,
    UInt8.le_iff_toNat_le, UInt8.le_iff_toNat_le, toNat_byte hn]
  exact ⟨hl, hh⟩

theorem valueWith_byte (hh : n ≤ p.high.toNat) :
    p.valueWith (UInt8.ofNat n) = p.value * 64 + (n - 0x80) := by
  have hn : n < 256 := Nat.lt_of_le_of_lt hh p.high.toNat_lt
  unfold Pending.valueWith
  rw [toNat_byte hn]

theorem decodeFrom_last (hl : p.low.toNat ≤ n) (hh : n ≤ p.high.toNat) (hm : p.missing = 0) :
    decodeFrom done place (some p) (UInt8.ofNat n :: rest) =
      decodeFrom (Char.ofNat (p.value * 64 + (n - 0x80)) :: done)
        (place.read.skip (p.length + 1)) none rest := by
  rw [decodeFrom, if_pos (accepts_byte hl hh), hm, valueWith_byte hh]

/-- Another byte adds six bits, and frees the bounds of the next. -/
theorem decodeFrom_next {missing : Nat} (hl : p.low.toNat ≤ n) (hh : n ≤ p.high.toNat)
    (hm : p.missing = missing + 1) :
    decodeFrom done place (some p) (UInt8.ofNat n :: rest) =
      decodeFrom done place.read (some ⟨p.first, p.more ++ [UInt8.ofNat n],
        p.value * 64 + (n - 0x80), missing, 0x80, 0xBF⟩) rest := by
  rw [decodeFrom, if_pos (accepts_byte hl hh), hm, valueWith_byte hh]

end Byte

section Sequence

variable {a b c d : Nat} (done : Text) (place : Place) (rest : Bytes)

theorem lead_two (ha : 0xC2 ≤ a ∧ a < 0xE0) :
    lead (UInt8.ofNat a) = .sequence ⟨UInt8.ofNat a, [], a - 0xC0, 0, 0x80, 0xBF⟩ := by
  unfold lead
  rw [toNat_byte (by omega)]
  dsimp only
  rw [if_neg (by omega), if_neg (by omega), if_pos ha.2]

/-- The first byte of three may narrow the bounds of the second. -/
theorem lead_three (ha : 0xE0 ≤ a ∧ a < 0xF0) :
    lead (UInt8.ofNat a) = .sequence ⟨UInt8.ofNat a, [], a - 0xE0, 1,
      if a = 0xE0 then 0xA0 else 0x80, if a = 0xED then 0x9F else 0xBF⟩ := by
  unfold lead
  rw [toNat_byte (by omega)]
  dsimp only
  rw [if_neg (by omega), if_neg (by omega), if_neg (by omega), if_pos ha.2]

theorem lead_four (ha : 0xF0 ≤ a ∧ a < 0xF5) :
    lead (UInt8.ofNat a) = .sequence ⟨UInt8.ofNat a, [], a - 0xF0, 2,
      if a = 0xF0 then 0x90 else 0x80, if a = 0xF4 then 0x8F else 0xBF⟩ := by
  unfold lead
  rw [toNat_byte (by omega)]
  dsimp only
  rw [if_neg (by omega), if_neg (by omega), if_neg (by omega), if_neg (by omega), if_pos ha.2]

theorem decodeFrom_two (ha : 0xC2 ≤ a ∧ a < 0xE0) (hb : 0x80 ≤ b ∧ b ≤ 0xBF) :
    ∃ next, decodeFrom done place none (UInt8.ofNat a :: UInt8.ofNat b :: rest) =
      decodeFrom (Char.ofNat ((a - 0xC0) * 64 + (b - 0x80)) :: done) next none rest := by
  rw [decodeFrom_first _ _ _ (lead_two ha), decodeFrom_last _ _ _ hb.1 hb.2 rfl]
  exact ⟨_, rfl⟩

theorem decodeFrom_three (ha : 0xE0 ≤ a ∧ a < 0xF0)
    (hb : (if a = 0xE0 then 0xA0 else 0x80) ≤ b ∧ b ≤ (if a = 0xED then 0x9F else 0xBF))
    (hc : 0x80 ≤ c ∧ c ≤ 0xBF) :
    ∃ next, decodeFrom done place none
        (UInt8.ofNat a :: UInt8.ofNat b :: UInt8.ofNat c :: rest) =
      decodeFrom (Char.ofNat (((a - 0xE0) * 64 + (b - 0x80)) * 64 + (c - 0x80)) :: done) next none
        rest := by
  rw [decodeFrom_first _ _ _ (lead_three ha), decodeFrom_next _ _ _ ?low ?high rfl,
    decodeFrom_last _ _ _ hc.1 hc.2 rfl]
  case low => rw [apply_ite UInt8.toNat]; exact hb.1
  case high => rw [apply_ite UInt8.toNat]; exact hb.2
  exact ⟨_, rfl⟩

theorem decodeFrom_four (ha : 0xF0 ≤ a ∧ a < 0xF5)
    (hb : (if a = 0xF0 then 0x90 else 0x80) ≤ b ∧ b ≤ (if a = 0xF4 then 0x8F else 0xBF))
    (hc : 0x80 ≤ c ∧ c ≤ 0xBF) (hd : 0x80 ≤ d ∧ d ≤ 0xBF) :
    ∃ next, decodeFrom done place none
        (UInt8.ofNat a :: UInt8.ofNat b :: UInt8.ofNat c :: UInt8.ofNat d :: rest) =
      decodeFrom (Char.ofNat ((((a - 0xF0) * 64 + (b - 0x80)) * 64 + (c - 0x80)) * 64 +
        (d - 0x80)) :: done) next none rest := by
  rw [decodeFrom_first _ _ _ (lead_four ha), decodeFrom_next _ _ _ ?low ?high rfl,
    decodeFrom_next _ _ _ hc.1 hc.2 rfl, decodeFrom_last _ _ _ hd.1 hd.2 rfl]
  case low => rw [apply_ite UInt8.toNat]; exact hb.1
  case high => rw [apply_ite UInt8.toNat]; exact hb.2
  exact ⟨_, rfl⟩

end Sequence

theorem decodeFrom_char (done : Text) (place : Place) (c : Char) (rest : Bytes) :
    ∃ next, decodeFrom done place none (String.utf8EncodeChar c ++ rest) =
      decodeFrom (c :: done) next none rest := by
  obtain ⟨n, hn⟩ : ∃ n, c.val.toNat = n := ⟨_, rfl⟩
  have hc : Char.ofNat n = c := by rw [← hn]; exact Char.ofNat_toNat c
  have hvalid : n < 0xD800 ∨ 0xDFFF < n ∧ n < 0x110000 := hn ▸ c.valid
  unfold String.utf8EncodeChar
  rw [hn]
  dsimp only
  split
  · rw [List.singleton_append, decodeFrom_whole done place rest (by omega), hc]
    exact ⟨_, rfl⟩
  split
  · obtain ⟨next, h⟩ := decodeFrom_two (a := n / 64 % 32 + 192) (b := n % 64 + 128) done place
      rest (by omega) (by omega)
    have hvalue : (n / 64 % 32 + 192 - 0xC0) * 64 + (n % 64 + 128 - 0x80) = n := by omega
    rw [hvalue, hc] at h
    exact ⟨next, h⟩
  split
  · obtain ⟨next, h⟩ := decodeFrom_three (a := n / 4096 % 16 + 224) (b := n / 64 % 64 + 128)
      (c := n % 64 + 128) done place rest (by omega) (by split <;> split <;> omega) (by omega)
    have hvalue : ((n / 4096 % 16 + 224 - 0xE0) * 64 + (n / 64 % 64 + 128 - 0x80)) * 64 +
        (n % 64 + 128 - 0x80) = n := by omega
    rw [hvalue, hc] at h
    exact ⟨next, h⟩
  · obtain ⟨next, h⟩ := decodeFrom_four (a := n / 262144 % 8 + 240) (b := n / 4096 % 64 + 128)
      (c := n / 64 % 64 + 128) (d := n % 64 + 128) done place rest (by omega)
      (by split <;> split <;> omega) (by omega) (by omega)
    have hvalue : (((n / 262144 % 8 + 240 - 0xF0) * 64 + (n / 4096 % 64 + 128 - 0x80)) * 64 +
        (n / 64 % 64 + 128 - 0x80)) * 64 + (n % 64 + 128 - 0x80) = n := by omega
    rw [hvalue, hc] at h
    exact ⟨next, h⟩

theorem decode_encode (s : Text) : decode (encode s) = .ok s := by
  have hfrom : ∀ (done : Text) (place : Place),
      decodeFrom done place none (encode s) = .ok (done.reverse ++ s) := by
    induction s with
    | nil =>
      intro done place
      rw [List.append_nil]
      rfl
    | cons c s ih =>
      intro done place
      obtain ⟨next, h⟩ := decodeFrom_char done place c (encode s)
      rw [encode, List.flatMap_cons, ← encode, h, ih]
      simp
  exact hfrom [] ⟨0, chunkSize⟩

end Worksheet.Text.Utf8
