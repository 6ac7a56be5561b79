import BinaryLog.Binary64.Decimal
import BinaryLog.Proofs.Text.Numeral
import Mathlib.Algebra.Order.Floor.Semifield
import Mathlib.Data.Int.Log
import Mathlib.Data.Rat.Floor
import Mathlib.Tactic.Linarith

namespace BinaryLog

/-!
# Decimal rounding

* `NearestEven q n`, the natural number nearest to `q`, with `nearestEven_roundDiv` and
  `NearestEven.unique`;
* `Binary64.magnitude`, the value of a finite number without its sign;
* `Decimal.exponent_eq`, the power of ten that a quotient reaches;
* `Decimal.RoundsTo places a v`, the magnitude `a` rounded to `places` digits behind its first, with
  `Decimal.roundsTo_scientific`;
* `Decimal.roundDiv_eq_digits`, rounding to the same digit in fixed notation gives the same digits,
  also where rounding carries into the next power of ten;
* `Binary64.readInt32?_exponent`, exponents are small enough to be read from their text.
-/

/-! ### Nearest natural numbers -/

/-- The natural number is nearest to `q`, and even if another one is equally near. -/
structure NearestEven (q : ℚ) (n : ℕ) : Prop where
  near : |q - n| ≤ 1 / 2
  even_of_tie : |q - n| = 1 / 2 → Even n

namespace NearestEven

variable {q : ℚ} {m n : ℕ}

/-- Less than half a unit away, nothing else is equally near. -/
theorem of_lt (h : |q - n| < 1 / 2) : NearestEven q n := ⟨h.le, fun htie => absurd htie h.ne⟩

/-- Rounding does not fall below a natural number that is not above. -/
theorem le_of_le (h : NearestEven q n) (hq : m ≤ q) : m ≤ n := by
  by_contra hlt
  have hlt : (n : ℚ) + 1 ≤ m := by exact_mod_cast Nat.not_le.mp hlt
  have hnear := (abs_le.mp h.near).2
  linarith

/-- Rounding does not rise above a natural number that is not below. -/
theorem ge_of_ge (h : NearestEven q n) (hq : q ≤ m) : n ≤ m := by
  by_contra hlt
  have hlt : (m : ℚ) + 1 ≤ n := by exact_mod_cast Nat.not_le.mp hlt
  have hnear := (abs_le.mp h.near).1
  linarith

/-- **There is one** nearest number, as of two neighbours only one is even. -/
theorem unique (hm : NearestEven q m) (hn : NearestEven q n) : m = n := by
  have hle {m n : ℕ} (hm : NearestEven q m) (hn : NearestEven q n) : ¬ m < n := by
    intro hlt
    have hmn : (m : ℚ) + 1 ≤ n := by exact_mod_cast hlt
    have hqm := (abs_le.mp hm.near).2
    have hqn := (abs_le.mp hn.near).1
    -- both are half a unit away, on either side
    have htie : q - m = 1 / 2 ∧ q - n = -(1 / 2) := by constructor <;> linarith
    have hsucc : n = m + 1 := by
      have : (n : ℚ) = m + 1 := by linarith [htie.1, htie.2]
      exact_mod_cast this
    have heven := hm.even_of_tie (by rw [htie.1]; norm_num)
    have hodd := hn.even_of_tie (by rw [htie.2]; norm_num)
    rw [hsucc] at hodd
    exact (Nat.even_add_one.mp hodd) heven
  exact Nat.le_antisymm (Nat.not_lt.mp (hle hn hm)) (Nat.not_lt.mp (hle hm hn))

end NearestEven

/-- **A rounded quotient** is the natural number nearest to the exact one. -/
theorem nearestEven_roundDiv (num : ℕ) {den : ℕ} (hden : 0 < den) :
    NearestEven ((num : ℚ) / den) (roundDiv num den) := by
  have hden' : (0 : ℚ) < den := by exact_mod_cast hden
  obtain ⟨rest, hrest⟩ : ∃ rest : ℚ, rest = (num % den : ℕ) / den := ⟨_, rfl⟩
  have hsplit : (num : ℚ) / den = (num / den : ℕ) + rest := by
    rw [hrest, add_div' _ _ _ hden'.ne']
    congr 1
    exact_mod_cast (Nat.div_add_mod' num den).symm
  have hless : rest < 1 / 2 ↔ 2 * (num % den) < den := by
    rw [hrest, div_lt_div_iff₀ hden' two_pos, one_mul, mul_comm]
    exact_mod_cast Iff.rfl
  have hmore : 1 / 2 < rest ↔ den < 2 * (num % den) := by
    rw [hrest, div_lt_div_iff₀ two_pos hden', one_mul, mul_comm]
    exact_mod_cast Iff.rfl
  have hnonneg : 0 ≤ rest := by rw [hrest]; positivity
  have hone : rest < 1 := by
    rw [hrest, div_lt_one hden']
    exact_mod_cast Nat.mod_lt num hden
  rw [roundDiv, hsplit]
  split
  · rename_i h
    have h := hless.mpr h
    refine .of_lt ?_
    rw [add_sub_cancel_left, abs_of_nonneg hnonneg]
    exact h
  · rename_i hnotless
    split
    · rename_i h
      have h := hmore.mpr h
      refine .of_lt ?_
      rw [abs_lt]
      push_cast
      constructor <;> linarith
    -- neither neighbour is nearer: the even one is taken
    · rename_i hnotmore
      have htie : rest = 1 / 2 :=
        le_antisymm (not_lt.mp (mt hmore.mp hnotmore)) (not_lt.mp (mt hless.mp hnotless))
      obtain heven | hodd := Nat.even_or_odd (num / den)
      · rw [Nat.even_iff.mp heven, htie]
        exact ⟨by norm_num, fun _ => heven⟩
      · rw [Nat.odd_iff.mp hodd, htie]
        refine ⟨?_, fun _ => hodd.add_one⟩
        push_cast
        rw [abs_le]
        constructor <;> linarith

/-! ### Magnitudes -/

namespace Binary64

/-- The value of a finite number without its sign. -/
def magnitude (x : Binary64) : ℚ := x.significand * 2 ^ x.exponent

theorem denominator_pos (x : Binary64) : 0 < x.denominator := Nat.pow_pos Nat.two_pos

/-- A magnitude is the quotient that the digits are computed from. -/
theorem magnitude_eq (x : Binary64) : x.magnitude = (x.numerator : ℚ) / x.denominator := by
  rw [magnitude, numerator, denominator, Nat.pow_eq, Nat.pow_eq]
  push_cast
  rw [mul_div_assoc, ← zpow_natCast, ← zpow_natCast, ← zpow_sub₀ two_ne_zero]
  congr 2
  omega

end Binary64

namespace Decimal

/-! ### Powers of ten -/

theorem ten_zpow_pos (e : ℤ) : (0 : ℚ) < 10 ^ e := zpow_pos (by norm_num) e

/-- A number between two neighbouring powers of ten is told by the lower one. -/
theorem log_eq {v : ℚ} {e : ℤ} (hle : 10 ^ e ≤ v) (hlt : v < 10 ^ (e + 1)) :
    Int.log 10 v = e := by
  have hpos : 0 < v := lt_of_lt_of_le (ten_zpow_pos e) hle
  have hge : e ≤ Int.log 10 v := (Int.zpow_le_iff_le_log (by norm_num) hpos).mp (by simpa using hle)
  have hless : Int.log 10 v < e + 1 :=
    (Int.lt_zpow_iff_log_lt (by norm_num) hpos).mp (by simpa using hlt)
  omega

theorem zpow_log_le {v : ℚ} (h : 0 < v) : 10 ^ Int.log 10 v ≤ v := by
  simpa using Int.zpow_log_le_self (b := 10) (by norm_num) h

theorem lt_zpow_log (v : ℚ) : v < 10 ^ (Int.log 10 v + 1) := by
  simpa using Int.lt_zpow_succ_log_self (b := 10) (by norm_num) v

/-- The length of a numeral is told by the power of ten that the number reaches. -/
theorem digitCount_eq (n : ℕ) : digitCount n = Nat.log 10 n + 1 := by
  have hspells := Numeral.spells_chars (by decide : 1 < 10) (by decide) n
  have hpos : 0 < (Numeral.chars 10 n).length := List.length_pos_iff.mpr hspells.nonempty
  rw [digitCount]
  by_cases hn : n = 0
  · rw [hn]
    rfl
  · rw [Nat.log_eq_of_pow_le_of_lt_pow (hspells.pow_le hn), Nat.sub_add_cancel hpos]
    rw [Nat.sub_add_cancel hpos]
    exact hspells.lt_pow

variable {num den places : ℕ}

/-- A quotient below one is told by the power of ten that lifts it just above one. -/
theorem log_eq_neg {k : ℕ} (hden : 0 < den) (hle : den ≤ num * 10 ^ k)
    (hlt : num * 10 ^ k < 10 * den) : Int.log 10 ((num : ℚ) / den) = -k := by
  have hden' : (0 : ℚ) < den := by exact_mod_cast hden
  have hle' : (den : ℚ) ≤ num * 10 ^ k := by exact_mod_cast hle
  have hlt' : (num : ℚ) * 10 ^ k < 10 * den := by exact_mod_cast hlt
  have hpow : (0 : ℚ) < 10 ^ k := by positivity
  apply log_eq
  · rw [zpow_neg, zpow_natCast, le_div_iff₀ hden', inv_mul_le_iff₀ hpow, mul_comm]
    exact hle'
  · rw [zpow_add_one₀ (by norm_num), zpow_neg, zpow_natCast, div_lt_iff₀ hden', mul_assoc,
      lt_inv_mul_iff₀ hpow, mul_comm]
    exact hlt'

/-- Each power of ten makes a number one digit longer. -/
theorem log_mul_pow (hnum : 0 < num) (k : ℕ) : Nat.log 10 (num * 10 ^ k) = Nat.log 10 num + k := by
  induction k with
  | zero => simp
  | succ k ih =>
    rw [Nat.pow_succ, ← Nat.mul_assoc, Nat.log_mul_base (by decide) (by positivity), ih]
    rfl

/-- **The exponent of a quotient** is that of the power of ten that it reaches. -/
theorem exponent_eq (hnum : 0 < num) (hden : 0 < den) :
    exponent num den = Int.log 10 ((num : ℚ) / den) := by
  rw [exponent]
  split
  · rename_i hle
    have hone : (1 : ℚ) ≤ num / den := by
      rw [one_le_div (by exact_mod_cast hden)]
      exact_mod_cast hle
    rw [Int.log_of_one_le_right 10 hone, Nat.floor_div_eq_div, digitCount_eq]
    push_cast
    ring
  · rename_i hlt
    have hlog : Nat.log 10 num ≤ Nat.log 10 den := Nat.log_mono_right (Nat.le_of_not_le hlt)
    -- times the missing power of ten, the number is as long as the denominator
    have hgrown : Nat.log 10 (num * 10 ^ (Nat.log 10 den - Nat.log 10 num)) = Nat.log 10 den := by
      rw [log_mul_pow hnum, Nat.add_sub_cancel' hlog]
    have hpos : 0 < num * 10 ^ (Nat.log 10 den - Nat.log 10 num) := by positivity
    have hnumLe := Nat.pow_log_le_self 10 (Nat.ne_of_gt hpos)
    have hnumLt := Nat.lt_pow_succ_log_self (b := 10) (by decide)
      (num * 10 ^ (Nat.log 10 den - Nat.log 10 num))
    have hdenLe := Nat.pow_log_le_self 10 (Nat.ne_of_gt hden)
    have hdenLt := Nat.lt_pow_succ_log_self (b := 10) (by decide) den
    rw [Nat.pow_succ] at hdenLt
    rw [hgrown] at hnumLe hnumLt
    rw [Nat.pow_succ] at hnumLt
    simp only [digitCount_eq, Nat.add_sub_add_right, Nat.pow_eq]
    split
    · rename_i hreached
      rw [log_eq_neg hden hreached (by omega)]
    · rename_i hmissed
      rw [log_eq_neg (k := Nat.log 10 den - Nat.log 10 num + 1) hden]
      · push_cast
        ring
      · rw [Nat.pow_succ, ← Nat.mul_assoc]
        omega
      · rw [Nat.pow_succ, ← Nat.mul_assoc]
        omega

/-! ### Rounding to significant digits -/

/-- Rounded to `places` digits behind its first, the magnitude `a` is `v`: the nearest multiple of
    the last digit's unit, and of two the even one. Zero stays zero. -/
def RoundsTo (places : ℕ) (a v : ℚ) : Prop :=
  ∃ n : ℕ, NearestEven (a / 10 ^ (Int.log 10 a - places)) n ∧
    v = n * 10 ^ (Int.log 10 a - places)

/-- The number that a scientific notation stands for. -/
def Scientific.value (s : Scientific) (places : ℕ) : ℚ := s.digits * 10 ^ (s.exponent - places)

/-- A quotient in other units. -/
theorem shift_div (num den : ℕ) (shift : ℤ) :
    ((num * 10 ^ shift.toNat : ℕ) : ℚ) / (den * 10 ^ (-shift).toNat : ℕ) =
      (num : ℚ) / den / 10 ^ (-shift) := by
  have hpow : (10 : ℚ) ^ (-shift) * 10 ^ shift.toNat = 10 ^ (-shift).toNat := by
    rw [← zpow_natCast, ← zpow_natCast, ← zpow_add₀ (by norm_num)]
    congr 1
    omega
  push_cast
  rw [div_div, ← hpow, ← mul_assoc]
  rw [mul_div_mul_right _ _ (by positivity)]

/-- **The two outcomes of rounding** to significant digits: either the first digit stays where it
    was, or rounding carries into the next power of ten. -/
theorem scientific_cases (hnum : 0 < num) (hden : 0 < den) (places : ℕ) :
    let a : ℚ := num / den
    let e := Int.log 10 a
    ∃ n, NearestEven (a / 10 ^ (e - places)) n ∧ 10 ^ places ≤ n ∧
      ((n < 10 ^ (places + 1) ∧ scientific num den places = { digits := n, exponent := e }) ∨
        (n = 10 ^ (places + 1) ∧
          scientific num den places = { digits := 10 ^ places, exponent := e + 1 })) := by
  intro a e
  have ha : 0 < a := div_pos (by exact_mod_cast hnum) (by exact_mod_cast hden)
  have hunit := ten_zpow_pos (e - places)
  let shift : ℤ := places - e
  let n := roundDiv (num * 10 ^ shift.toNat) (den * 10 ^ (-shift).toNat)
  have hnearest : NearestEven (a / 10 ^ (e - places)) n := by
    have hden : 0 < den * 10 ^ (-shift).toNat := by positivity
    have hround : NearestEven _ n := nearestEven_roundDiv (num * 10 ^ shift.toNat) hden
    rwa [shift_div, neg_sub] at hround
  -- rounding cannot leave the two powers of ten that the number lies between, though it may reach
  -- the upper one
  have hle : 10 ^ places ≤ n := by
    refine hnearest.le_of_le ?_
    rw [le_div_iff₀ hunit]
    push_cast
    rw [← zpow_natCast, ← zpow_add₀ (by norm_num), add_sub_cancel]
    exact zpow_log_le ha
  have hge : n ≤ 10 ^ (places + 1) := by
    refine hnearest.ge_of_ge ?_
    rw [div_le_iff₀ hunit]
    push_cast
    rw [← zpow_natCast, ← zpow_add₀ (by norm_num)]
    have hsum : ((places + 1 : ℕ) : ℤ) + (e - places) = e + 1 := by omega
    rw [hsum]
    exact (lt_zpow_log a).le
  refine ⟨n, hnearest, hle, ?_⟩
  rw [scientific, if_neg (Nat.ne_of_gt hnum)]
  simp only [exponent_eq hnum hden, Nat.pow_eq]
  show (n < _ ∧ (if n = _ then _ else _) = _) ∨ _ ∧ (if n = _ then _ else _) = _
  by_cases hcarry : n = 10 ^ (places + 1)
  · exact .inr ⟨hcarry, if_pos hcarry⟩
  · exact .inl ⟨Nat.lt_of_le_of_ne hge hcarry, if_neg hcarry⟩

theorem scientific_zero (den places : ℕ) :
    scientific 0 den places = { digits := 0, exponent := 0 } := rfl

/-- A number above zero is written with just the digits that are asked for. -/
theorem digits_scientific (hnum : 0 < num) (hden : 0 < den) (places : ℕ) :
    10 ^ places ≤ (scientific num den places).digits ∧
      (scientific num den places).digits < 10 ^ (places + 1) := by
  obtain ⟨n, -, hle, ⟨hlt, heq⟩ | ⟨-, heq⟩⟩ := scientific_cases hnum hden places
  · rw [heq]
    exact ⟨hle, hlt⟩
  · rw [heq]
    exact ⟨Nat.le_refl _, Nat.pow_lt_pow_right (by decide) (Nat.lt_succ_self places)⟩

/-- The digits of a scientific notation of `a`: as many as are asked for, or for zero none but
    zeros, and no power of ten. -/
structure Scientific.Normal (places : ℕ) (a : ℚ) (s : Scientific) : Prop where
  digits_lt : s.digits < 10 ^ (places + 1)
  le_digits : a ≠ 0 → 10 ^ places ≤ s.digits
  of_zero : a = 0 → s = { digits := 0, exponent := 0 }

/-- The digits of a quotient are as many as are asked for. -/
theorem normal_scientific (num : ℕ) (hden : 0 < den) (places : ℕ) :
    (scientific num den places).Normal places ((num : ℚ) / den) := by
  obtain rfl | hnum := Nat.eq_zero_or_pos num
  · exact ⟨Nat.pow_pos (by decide), fun h => absurd (by simp) h, fun _ => rfl⟩
  · have ha : (0 : ℚ) < num / den :=
      div_pos (by exact_mod_cast hnum) (by exact_mod_cast hden)
    obtain ⟨hle, hlt⟩ := digits_scientific hnum hden places
    exact ⟨hlt, fun _ => hle, fun hzero => absurd hzero ha.ne'⟩

/-- **The scientific notation** of a quotient stands for the rounded quotient. -/
theorem roundsTo_scientific (num : ℕ) (hden : 0 < den) (places : ℕ) :
    RoundsTo places ((num : ℚ) / den) ((scientific num den places).value places) := by
  obtain rfl | hnum := Nat.eq_zero_or_pos num
  · refine ⟨0, .of_lt ?_, ?_⟩ <;> simp [scientific_zero, Scientific.value]
  · obtain ⟨n, hnearest, -, ⟨-, heq⟩ | ⟨hcarry, heq⟩⟩ := scientific_cases hnum hden places
    · exact ⟨n, hnearest, by rw [heq, Scientific.value]⟩
    · refine ⟨n, hnearest, ?_⟩
      rw [heq, Scientific.value, hcarry]
      push_cast
      rw [pow_succ, mul_assoc, ← zpow_one_add₀ (by norm_num)]
      congr 2
      ring

/-- The exponent is that of the rounded number. -/
theorem log_scientific (num : ℕ) (hden : 0 < den) (places : ℕ) :
    Int.log 10 ((scientific num den places).value places) =
      (scientific num den places).exponent := by
  obtain rfl | hnum := Nat.eq_zero_or_pos num
  · simp [scientific_zero, Scientific.value]
  · obtain ⟨hle, hlt⟩ := digits_scientific hnum hden places
    -- only the number of digits is needed of the notation
    generalize scientific num den places = s at hle hlt ⊢
    have hle : (10 : ℚ) ^ (places : ℤ) ≤ s.digits := by rw [zpow_natCast]; exact_mod_cast hle
    have hlt : (s.digits : ℚ) < 10 ^ ((places : ℤ) + 1) := by
      rw [zpow_add_one₀ (by norm_num), zpow_natCast, ← pow_succ]
      exact_mod_cast hlt
    have hunit := ten_zpow_pos (s.exponent - places)
    apply log_eq
    · calc (10 : ℚ) ^ s.exponent = 10 ^ (places : ℤ) * 10 ^ (s.exponent - places) := by
            rw [← zpow_add₀ (by norm_num), add_sub_cancel]
        _ ≤ _ := mul_le_mul_of_nonneg_right hle hunit.le
    · calc s.value places < 10 ^ ((places : ℤ) + 1) * 10 ^ (s.exponent - places) :=
            mul_lt_mul_of_pos_right hlt hunit
        _ = 10 ^ (s.exponent + 1) := by
            rw [← zpow_add₀ (by norm_num)]
            congr 1
            ring

/-- **Rounding once more**, to the digit that the scientific notation ends with, gives the same
    digits. Where the first rounding carried, the second is to a unit ten times as large, and the
    number is still nearest to the power of ten. -/
theorem roundDiv_eq_digits (num : ℕ) (hden : 0 < den) {places : ℕ}
    (h : (scientific num den places).exponent ≤ places) :
    roundDiv (num * 10 ^ (places - (scientific num den places).exponent).toNat) den =
      (scientific num den places).digits := by
  -- rounding in any units gives what is nearest in them
  have hround (e : ℤ) (he : e ≤ places) : NearestEven ((num : ℚ) / den / 10 ^ (e - places))
      (roundDiv (num * 10 ^ (places - e).toNat) den) := by
    have hround := nearestEven_roundDiv (num * 10 ^ (places - e).toNat) hden
    have hshift := shift_div num den (places - e)
    rw [show (-(places - e)).toNat = 0 by omega, Nat.pow_zero, Nat.mul_one,
      show -(places - e) = e - places by omega] at hshift
    rwa [hshift] at hround
  obtain rfl | hnum := Nat.eq_zero_or_pos num
  · refine (hround 0 (by omega)).unique (.of_lt ?_)
    simp [scientific_zero]
  · obtain ⟨n, hnearest, -, ⟨-, heq⟩ | ⟨hcarry, heq⟩⟩ := scientific_cases hnum hden places
    · rw [heq] at h ⊢
      exact (hround _ h).unique hnearest
    · rw [heq] at h ⊢
      refine (hround _ h).unique (.of_lt ?_)
      -- the number is a tenth as many of the larger units
      have hnear := hnearest.near
      rw [hcarry] at hnear
      have hten : (10 : ℚ) ^ (Int.log 10 ((num : ℚ) / den) + 1 - places) =
          10 * 10 ^ (Int.log 10 ((num : ℚ) / den) - places) := by
        rw [← zpow_one_add₀ (by norm_num)]
        congr 1
        ring
      rw [hten, mul_comm, ← div_div]
      push_cast at hnear ⊢
      rw [pow_succ, abs_le] at hnear
      rw [abs_lt]
      constructor <;> linarith

/-! ### The range of exponents -/

/-- A number has no more decimal digits than binary ones. -/
theorem digitCount_le {n k : ℕ} (h : n < 2 ^ k) : digitCount n ≤ k + 1 := by
  rw [digitCount_eq]
  refine Nat.succ_le_succ ?_
  by_cases hn : n = 0
  · rw [hn, Nat.log_zero_right]
    exact Nat.zero_le k
  · have hlt : n < 10 ^ k := h.trans_le (Nat.pow_le_pow_left (by decide) k)
    exact Nat.le_of_lt (Nat.log_lt_of_lt_pow hn hlt)

/-- The exponent of a quotient is bounded by the lengths of its two numbers. -/
theorem natAbs_exponent_le {k : ℕ} (hnum : num < 2 ^ k) (hden : den < 2 ^ k) :
    (exponent num den).natAbs ≤ k + 1 := by
  have hquotient : digitCount (num / den) ≤ k + 1 :=
    digitCount_le (Nat.lt_of_le_of_lt (Nat.div_le_self num den) hnum)
  have hcount : digitCount den ≤ k + 1 := digitCount_le hden
  have hpos : 0 < digitCount num := by
    rw [digitCount_eq]
    exact Nat.succ_pos _
  rw [exponent]
  split
  · omega
  · dsimp only
    split <;> omega

/-- So is that of its scientific notation, up to a carry. -/
theorem natAbs_exponent_scientific_le {k : ℕ} (hnum : num < 2 ^ k) (hden : den < 2 ^ k)
    (places : ℕ) : (scientific num den places).exponent.natAbs ≤ k + 2 := by
  have hle := natAbs_exponent_le hnum hden
  rw [scientific]
  split
  · exact Nat.zero_le _
  · -- a carry adds one
    dsimp only
    split <;> dsimp only <;> omega

end Decimal

namespace Binary64

/-- The exponent of a double is that of a subnormal number at the least. -/
theorem natAbs_exponent_le (x : Binary64) : x.exponent.natAbs ≤ 1074 := by
  have hmagnitude : x.magnitudeBits < signWeight := Nat.mod_lt _ (by decide)
  have hfield : x.exponentField < 2048 := Nat.div_lt_of_lt_mul hmagnitude
  rw [exponent]
  omega

/-- A significand has 53 bits. -/
theorem significand_lt (x : Binary64) : x.significand < 2 ^ 53 := by
  have hfraction : x.fraction < exponentWeight := Nat.mod_lt _ (by decide)
  rw [exponentWeight] at hfraction
  rw [significand, exponentWeight]
  split <;> omega

/-- The numerator has the bits of the significand, and as many more as the exponent says. -/
theorem numerator_lt (x : Binary64) : x.numerator < 2 ^ (53 + x.exponent.natAbs) :=
  calc x.numerator < 2 ^ 53 * 2 ^ x.exponent.toNat :=
        Nat.mul_lt_mul_of_pos_right x.significand_lt (Nat.pow_pos Nat.two_pos)
    _ = 2 ^ (53 + x.exponent.toNat) := (Nat.pow_add 2 53 _).symm
    _ ≤ 2 ^ (53 + x.exponent.natAbs) := Nat.pow_le_pow_right Nat.two_pos (by omega)

/-- The denominator has one bit more than the exponent says. -/
theorem denominator_lt (x : Binary64) : x.denominator < 2 ^ (53 + x.exponent.natAbs) :=
  Nat.pow_lt_pow_right (by decide) (by omega)

/-- **The exponent of a number** in scientific notation is one of 32 bits, and its text is read as
    such. -/
theorem readInt32?_exponent (x : Binary64) (places : ℕ) :
    Numeral.readInt32? (Numeral.ofInt (x.scientific places).exponent) =
      some (x.scientific places).exponent := by
  have hsmall := x.natAbs_exponent_le
  have hle : (x.scientific places).exponent.natAbs ≤ 53 + x.exponent.natAbs + 2 :=
    Decimal.natAbs_exponent_scientific_le x.numerator_lt x.denominator_lt places
  exact Numeral.readInt32?_ofInt (by omega) (by omega)

end Binary64

end BinaryLog
