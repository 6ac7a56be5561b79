import BinaryLog.Text.Utf8

namespace BinaryLog.Utf8

/-!
# UTF-8 as a round trip

What is read of an encoded text is the text:

* `head_one` to `head_four`, what a character of each length reads as;
* `head_utf8EncodeChar`, every character reads as itself in front of anything;
* `decodeLossy_encode`, the same for texts, and `zero_not_mem_encode`, which texts hold no zero.
-/

/-! ### Reading a character of each length -/

variable {first b c d : UInt8} {rest : Bytes}

/-- An ASCII byte is a character by itself. -/
theorem head_one (hfirst : first.toNat < 0x80) :
    head first rest = .scalar (Char.ofNat first.toNat) 0 := by
  simp [head, UInt8.lt_iff_toNat_lt, hfirst]

/-- Two bytes carry five bits and six. -/
theorem head_two (hlow : 0xC2 ≤ first.toNat) (hhigh : first.toNat < 0xE0)
    (hb : isContinuation b = true) :
    head first (b :: rest) = .scalar (Char.ofNat (first.toNat % 32 * 64 + payload b)) 1 := by
  have hnotOne : ¬ first.toNat < 0x80 := by omega
  have hvalid : ¬ (first.toNat < 0xC2 ∨ 0xF4 < first.toNat) := by omega
  simp [head, UInt8.lt_iff_toNat_lt, hnotOne, hvalid, hhigh, hb]

/-- Three bytes carry four bits and twice six, if the second byte is in the range of the first. -/
theorem head_three (hlow : 0xE0 ≤ first.toNat) (hhigh : first.toNat < 0xF0)
    (hb : allowsSecond first b = true) (hc : isContinuation c = true) :
    head first (b :: c :: rest) =
      .scalar (Char.ofNat ((first.toNat % 16 * 64 + payload b) * 64 + payload c)) 2 := by
  have hnotOne : ¬ first.toNat < 0x80 := by omega
  have hvalid : ¬ (first.toNat < 0xC2 ∨ 0xF4 < first.toNat) := by omega
  have hnotTwo : ¬ first.toNat < 0xE0 := by omega
  simp [head, UInt8.lt_iff_toNat_lt, hnotOne, hvalid, hnotTwo, hhigh, hb, hc]

/-- Four bytes carry three bits and three times six, if the second byte is in the range of the
    first. -/
theorem head_four (hlow : 0xF0 ≤ first.toNat) (hhigh : first.toNat ≤ 0xF4)
    (hb : allowsSecond first b = true) (hc : isContinuation c = true)
    (hd : isContinuation d = true) :
    head first (b :: c :: d :: rest) =
      .scalar (Char.ofNat (((first.toNat % 8 * 64 + payload b) * 64 + payload c) * 64 + payload d))
        3 := by
  have hnotOne : ¬ first.toNat < 0x80 := by omega
  have hvalid : ¬ (first.toNat < 0xC2 ∨ 0xF4 < first.toNat) := by omega
  have hnotTwo : ¬ first.toNat < 0xE0 := by omega
  have hnotThree : ¬ first.toNat < 0xF0 := by omega
  simp [head, UInt8.lt_iff_toNat_lt, hnotOne, hvalid, hnotTwo, hnotThree, hb, hc, hd]

/-! ### Writing a character -/

/-- The lowest six bits of a number as a byte that continues a character. -/
def continuation (n : Nat) : UInt8 := UInt8.ofNat (n % 64 + 0x80)

theorem toNat_ofNat_of_lt {n : Nat} (h : n < 256) : (UInt8.ofNat n).toNat = n :=
  UInt8.toNat_ofNat_of_lt' h

theorem toNat_continuation (n : Nat) : (continuation n).toNat = n % 64 + 0x80 :=
  toNat_ofNat_of_lt (by omega)

theorem isContinuation_continuation (n : Nat) : isContinuation (continuation n) = true := by
  have h := toNat_continuation n
  simp only [isContinuation, UInt8.le_iff_toNat_le, Bool.and_eq_true, decide_eq_true_eq, h]
  constructor
  · exact Nat.le_add_left _ _
  · show n % 64 + 0x80 ≤ 0xBF
    omega

theorem payload_continuation (n : Nat) : payload (continuation n) = n % 64 := by
  rw [payload, toNat_continuation]
  omega

/-- Which bytes may come second only matters after four of the first bytes. -/
theorem allowsSecond_continuation {n : Nat} (hE0 : first.toNat = 0xE0 → 0x20 ≤ n % 64)
    (hED : first.toNat = 0xED → n % 64 < 0x20) (hF0 : first.toNat = 0xF0 → 0x10 ≤ n % 64)
    (hF4 : first.toNat = 0xF4 → n % 64 < 0x10) :
    allowsSecond first (continuation n) = true := by
  have h := toNat_continuation n
  simp only [allowsSecond, secondRange, UInt8.le_iff_toNat_le, Bool.and_eq_true,
    decide_eq_true_eq, h]
  repeat' split
  all_goals simp_all
  all_goals omega

/-- **Every character reads as itself**, whatever comes after it. -/
theorem head_utf8EncodeChar (c : Char) (rest : Bytes) :
    ∃ b bs, String.utf8EncodeChar c = b :: bs ∧ head b (bs ++ rest) = .scalar c bs.length := by
  have hvalid : c.val.toNat.isValidChar := c.valid
  have hc : Char.ofNat c.val.toNat = c := Char.ofNat_toNat c
  unfold String.utf8EncodeChar
  generalize c.val.toNat = v at hvalid hc
  dsimp only
  -- one case for each length of a character
  split
  · have hfirst := toNat_ofNat_of_lt (n := v) (by omega)
    refine ⟨_, _, rfl, (head_one ?_).trans ?_⟩
    · omega
    · rw [hfirst, hc]
      rfl
  split
  · have hfirst := toNat_ofNat_of_lt (n := v / 64 % 0x20 + 0xC0) (by omega)
    refine ⟨_, _, rfl, (head_two ?_ ?_ (isContinuation_continuation v)).trans ?_⟩
    · omega
    · omega
    · rw [hfirst, payload_continuation, ← hc, List.length_singleton]
      congr 2
      omega
  split
  · have hfirst := toNat_ofNat_of_lt (n := v / 4096 % 0x10 + 0xE0) (by omega)
    refine ⟨_, _, rfl, (head_three ?_ ?_ (b := continuation (v / 64)) ?_
      (isContinuation_continuation v)).trans ?_⟩
    · omega
    · omega
    · -- below 0x800 two bytes are enough, and the surrogates are no characters
      apply allowsSecond_continuation <;> omega
    · rw [hfirst, payload_continuation, payload_continuation, ← hc]
      congr 2
      omega
  · have hfirst := toNat_ofNat_of_lt (n := v / 262144 % 0x08 + 0xF0) (by omega)
    refine ⟨_, _, rfl, (head_four ?_ ?_ (b := continuation (v / 4096)) ?_
      (isContinuation_continuation (v / 64)) (isContinuation_continuation v)).trans ?_⟩
    · omega
    · omega
    · -- below 0x10000 three bytes are enough, and 0x10FFFF is the last code point
      apply allowsSecond_continuation <;> omega
    · rw [hfirst, payload_continuation, payload_continuation, payload_continuation, ← hc]
      congr 2
      omega

theorem ofNat_ne_zero {n : Nat} (hpos : 0 < n) (hlt : n < 256) : 0 ≠ UInt8.ofNat n := by
  intro h
  have hn := toNat_ofNat_of_lt hlt
  rw [← h] at hn
  exact absurd hn (Nat.ne_of_lt hpos)

/-- Only the NUL has a zero among its bytes. -/
theorem eq_nul_of_zero_mem {c : Char} (h : 0 ∈ String.utf8EncodeChar c) : c = '\x00' := by
  have hc : Char.ofNat c.val.toNat = c := Char.ofNat_toNat c
  unfold String.utf8EncodeChar at h
  generalize c.val.toNat = v at h hc
  dsimp only at h
  split at h
  · have hv : 0 = UInt8.ofNat v := List.mem_singleton.mp h
    have hzero : v = 0 := by
      by_cases hpos : 0 < v
      · exact absurd hv (ofNat_ne_zero hpos (by omega))
      · omega
    rw [← hc, hzero]
  -- all other bytes are at least 0x80
  split at h
  · simp only [List.mem_cons, List.not_mem_nil, or_false] at h
    rcases h with h | h <;> exact absurd h (ofNat_ne_zero (by omega) (by omega))
  split at h
  · simp only [List.mem_cons, List.not_mem_nil, or_false] at h
    rcases h with h | h | h <;> exact absurd h (ofNat_ne_zero (by omega) (by omega))
  · simp only [List.mem_cons, List.not_mem_nil, or_false] at h
    rcases h with h | h | h | h <;> exact absurd h (ofNat_ne_zero (by omega) (by omega))

/-! ### Texts -/

/-- What is read of the bytes of a text is the text. -/
theorem lossyChars_flatMap (cs : List Char) :
    lossyChars (cs.flatMap String.utf8EncodeChar) = cs := by
  induction cs with
  | nil => rw [List.flatMap_nil, lossyChars]
  | cons c cs ih =>
    obtain ⟨b, bs, hbytes, hhead⟩ := head_utf8EncodeChar c (cs.flatMap String.utf8EncodeChar)
    rw [List.flatMap_cons, hbytes, List.cons_append, lossyChars, hhead]
    dsimp only
    rw [List.drop_left, ih]

/-- **A text reads as itself.** -/
theorem decodeLossy_encode (text : String) : decodeLossy (encode text) = text := by
  rw [decodeLossy, encode, lossyChars_flatMap, String.ofList_toList]

/-- The bytes of a text without a NUL hold no zero. -/
theorem zero_not_mem_encode {text : String} (h : '\x00' ∉ text.toList) : 0 ∉ encode text := by
  intro hzero
  obtain ⟨c, hc, hmem⟩ := List.mem_flatMap.mp hzero
  rw [eq_nul_of_zero_mem hmem] at hc
  exact h hc

end BinaryLog.Utf8
