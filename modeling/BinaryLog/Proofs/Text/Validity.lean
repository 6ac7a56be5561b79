import BinaryLog.Proofs.Text.Utf8

namespace BinaryLog.Utf8

/-!
# Characters in valid bytes

The other direction of the round trip: a character that is read has exactly the bytes that it was
read from, as overlong forms and surrogates are refused.

* `utf8EncodeChar_one` to `utf8EncodeChar_four`, the bytes of a character of each length;
* `utf8EncodeChar_of_head`, all lengths;
* `encode_of_decode`, the bytes of a text that valid bytes were read as;
* `nul_not_mem_lossyChars`, a text has no NUL that its bytes do not have.
-/

variable {first b c d : UInt8} {rest : Bytes}

/-! ### What the checks of a byte say -/

theorem payload_lt (b : UInt8) : payload b < 64 := Nat.mod_lt _ (by decide)

/-- A continuation byte is told by the bits that it carries. -/
theorem toNat_of_isContinuation (h : isContinuation b = true) : b.toNat = payload b + 0x80 := by
  simp only [isContinuation, UInt8.le_iff_toNat_le, Bool.and_eq_true, decide_eq_true_eq] at h
  have hlow : 0x80 ≤ b.toNat := h.1
  have hhigh : b.toNat ≤ 0xBF := h.2
  rw [payload]
  omega

/-- A second byte continues a character, and leaves out what four of the first bytes exclude. -/
theorem toNat_of_allowsSecond (h : allowsSecond first b = true) :
    b.toNat = payload b + 0x80 ∧ (first.toNat = 0xE0 → 0x20 ≤ payload b) ∧
      (first.toNat = 0xED → payload b < 0x20) ∧ (first.toNat = 0xF0 → 0x10 ≤ payload b) ∧
      (first.toNat = 0xF4 → payload b < 0x10) := by
  simp only [allowsSecond, secondRange, UInt8.le_iff_toNat_le, Bool.and_eq_true,
    decide_eq_true_eq, ← UInt8.toNat_inj] at h
  unfold payload
  repeat' split at h
  all_goals simp at *
  all_goals omega

/-! ### The bytes of a character of each length -/

theorem ofNat_eq_of_toNat {n : Nat} (h : n = b.toNat) : UInt8.ofNat n = b := by
  rw [h, UInt8.ofNat_toNat]

theorem toNat_val_ofNat {v : Nat} (h : v.isValidChar) : (Char.ofNat v).val.toNat = v := by
  rw [Char.ofNat, dif_pos h]
  rfl

/-- A character of seven bits is encoded as one byte. -/
theorem utf8EncodeChar_one (hfirst : first.toNat < 0x80) :
    String.utf8EncodeChar (Char.ofNat first.toNat) = [first] := by
  have hv : (Char.ofNat first.toNat).val.toNat = first.toNat := toNat_val_ofNat (.inl (by omega))
  simp only [String.utf8EncodeChar, hv]
  rw [if_pos (by omega), UInt8.ofNat_toNat]

/-- A character of two bytes is encoded as these again: no shorter encoding would do. -/
theorem utf8EncodeChar_two (hlow : 0xC2 ≤ first.toNat) (hhigh : first.toNat < 0xE0)
    (hb : isContinuation b = true) :
    String.utf8EncodeChar (Char.ofNat (first.toNat % 32 * 64 + payload b)) = [first, b] := by
  have hb := toNat_of_isContinuation hb
  have hbits := payload_lt b
  generalize hv : first.toNat % 32 * 64 + payload b = v
  have hvalue : (Char.ofNat v).val.toNat = v := toNat_val_ofNat (.inl (by omega))
  simp only [String.utf8EncodeChar, hvalue]
  rw [if_neg (by omega), if_pos (by omega), ofNat_eq_of_toNat (b := first) (by omega),
    ofNat_eq_of_toNat (b := b) (by omega)]

/-- A character of three bytes is encoded as these again, as the range of the second byte rules out
    shorter encodings and surrogates. -/
theorem utf8EncodeChar_three (hlow : 0xE0 ≤ first.toNat) (hhigh : first.toNat < 0xF0)
    (hb : allowsSecond first b = true) (hc : isContinuation c = true) :
    String.utf8EncodeChar
        (Char.ofNat ((first.toNat % 16 * 64 + payload b) * 64 + payload c)) = [first, b, c] := by
  obtain ⟨hb, hE0, hED, -, -⟩ := toNat_of_allowsSecond hb
  have hc := toNat_of_isContinuation hc
  have hbbits := payload_lt b
  have hcbits := payload_lt c
  generalize hv : (first.toNat % 16 * 64 + payload b) * 64 + payload c = v
  -- two bytes would not do, and the value is no surrogate
  have hvalid : v.isValidChar := by
    rw [Nat.isValidChar]
    omega
  simp only [String.utf8EncodeChar, toNat_val_ofNat hvalid]
  rw [if_neg (by omega), if_neg (by omega), if_pos (by omega),
    ofNat_eq_of_toNat (b := first) (by omega), ofNat_eq_of_toNat (b := b) (by omega),
    ofNat_eq_of_toNat (b := c) (by omega)]

/-- A character of four bytes is encoded as these again, as the range of the second byte rules out
    shorter encodings and values that are too large. -/
theorem utf8EncodeChar_four (hlow : 0xF0 ≤ first.toNat) (hhigh : first.toNat ≤ 0xF4)
    (hb : allowsSecond first b = true) (hc : isContinuation c = true)
    (hd : isContinuation d = true) :
    String.utf8EncodeChar
        (Char.ofNat (((first.toNat % 8 * 64 + payload b) * 64 + payload c) * 64 + payload d)) =
      [first, b, c, d] := by
  obtain ⟨hb, -, -, hF0, hF4⟩ := toNat_of_allowsSecond hb
  have hc := toNat_of_isContinuation hc
  have hd := toNat_of_isContinuation hd
  have hbbits := payload_lt b
  have hcbits := payload_lt c
  have hdbits := payload_lt d
  generalize hv : ((first.toNat % 8 * 64 + payload b) * 64 + payload c) * 64 + payload d = v
  -- three bytes would not do, and the value is no larger than the last code point
  have hvalid : v.isValidChar := by
    rw [Nat.isValidChar]
    omega
  simp only [String.utf8EncodeChar, toNat_val_ofNat hvalid]
  rw [if_neg (by omega), if_neg (by omega), if_neg (by omega),
    ofNat_eq_of_toNat (b := first) (by omega), ofNat_eq_of_toNat (b := b) (by omega),
    ofNat_eq_of_toNat (b := c) (by omega), ofNat_eq_of_toNat (b := d) (by omega)]

/-- **A character that is read** has the bytes that it was read from. -/
theorem utf8EncodeChar_of_head {n : Nat} {char : Char} (h : head first rest = .scalar char n) :
    String.utf8EncodeChar char = first :: rest.take n := by
  unfold head at h
  simp only [UInt8.lt_iff_toNat_lt, Bool.or_eq_true, decide_eq_true_eq] at h
  -- one case for each length of a character
  split at h
  · cases h
    exact utf8EncodeChar_one ‹_›
  split at h
  · cases h
  rename_i hfirst
  have hlow : 0xC2 ≤ first.toNat := Nat.le_of_not_lt fun hlt => hfirst (.inl hlt)
  have hhigh : first.toNat ≤ 0xF4 := Nat.le_of_not_lt fun hlt => hfirst (.inr hlt)
  split at h
  · split at h
    · cases h
    split at h <;> cases h
    exact utf8EncodeChar_two hlow ‹_› ‹_›
  rename_i htwo
  have htwo : 0xE0 ≤ first.toNat := Nat.le_of_not_lt htwo
  split at h
  · split at h
    · cases h
    split at h
    · split at h
      · cases h
      split at h <;> cases h
      exact utf8EncodeChar_three htwo ‹_› ‹_› ‹_›
    · cases h
  rename_i hthree
  have hthree : 0xF0 ≤ first.toNat := Nat.le_of_not_lt hthree
  split at h
  · cases h
  split at h
  · split at h
    · cases h
    split at h
    · split at h
      · cases h
      split at h <;> cases h
      exact utf8EncodeChar_four hthree hhigh ‹_› ‹_› ‹_›
    · cases h
  · cases h

/-! ### Texts -/

/-- Valid bytes are those of the characters that are read. -/
theorem flatMap_of_decodeFrom {index : Nat} {bytes : Bytes} {cs : List Char}
    (h : decodeFrom index bytes = .ok cs) :
    cs.flatMap String.utf8EncodeChar = bytes ∧ lossyChars bytes = cs := by
  fun_induction decodeFrom index bytes generalizing cs with
  | case1 index =>
    cases h
    exact ⟨rfl, by rw [lossyChars]⟩
  | case2 index b bs c further hhead cs' hrest ih =>
    cases h
    obtain ⟨hbytes, hlossy⟩ := ih hrest
    constructor
    · rw [List.flatMap_cons, utf8EncodeChar_of_head hhead, hbytes, List.cons_append,
        List.take_append_drop]
    · rw [lossyChars, hhead]
      exact congrArg (c :: ·) hlossy
  | case3 => cases h
  | case4 => cases h
  | case5 => cases h

/-- **Valid bytes** are those of their text, also where invalid ones would be replaced. -/
theorem encode_of_decode {bytes : Bytes} {text : String} (h : decode bytes = .ok text) :
    encode (decodeLossy bytes) = bytes := by
  rw [decode] at h
  cases hchars : decodeFrom 0 bytes with
  | error fault =>
    rw [hchars] at h
    cases h
  | ok cs =>
    obtain ⟨hbytes, hlossy⟩ := flatMap_of_decodeFrom hchars
    rw [decodeLossy, encode, String.toList_ofList, hlossy, hbytes]

/-- What is read of bytes without a zero has no NUL. -/
theorem nul_not_mem_lossyChars {bytes : Bytes} (h : 0 ∉ bytes) : '\x00' ∉ lossyChars bytes := by
  fun_induction lossyChars bytes with
  | case1 => exact List.not_mem_nil
  | case2 b bs c further hhead ih =>
    rw [List.mem_cons, not_or] at h ⊢
    refine ⟨?_, ih fun hmem => h.2 (List.mem_of_mem_drop hmem)⟩
    rintro rfl
    -- the NUL has one byte, which is zero
    exact h.1 (List.cons.inj (utf8EncodeChar_of_head hhead)).1
  | case3 b bs further hhead ih =>
    rw [List.mem_cons, not_or] at h ⊢
    exact ⟨by decide, ih fun hmem => h.2 (List.mem_of_mem_drop hmem)⟩
  | case4 => simp [replacement]

end BinaryLog.Utf8
