import BinaryLog.Binary64.Decimal
import BinaryLog.Proofs.Text.Numeral
import BinaryLog.Proofs.Text.Scanning
import Mathlib.Algebra.Order.Field.Basic
import Mathlib.Data.List.DropRight
import Mathlib.Data.Rat.Cast.Order

namespace BinaryLog.Decimal

/-!
# Reading decimal notations

* `value`, the number that a decimal notation denotes, with or without a power of ten;
* `Form`, what a decimal notation is made of, with `Form.toList`, its text, and
  `Form.value_toList`, what that denotes;
* `Form.ofDigits`, the notation of given digits, of which `Form.mantissa_ofDigits` is written before
  the power of ten;
* `Form.trim`, a notation without the zeros that end its fraction, with `Form.value_trim`.
-/

/-! ### Texts -/

/-- The decimal digits. -/
def digitChars : List Char := "0123456789".toList

/-- Does a power of ten begin here? -/
def isMark (c : Char) : Bool := c == 'e' || c == 'E'

/-- The exponent that a notation ends in, from its mark on; zero if nothing is left of it. -/
def exponentOf : List Char → ℤ
  | _ :: '-' :: digits => -Numeral.value 10 digits
  | _ :: _ :: digits => Numeral.value 10 digits
  | _ => 0

/-- The number that a decimal notation without a sign denotes. -/
def value (text : List Char) : ℚ :=
  let mantissa := text.takeWhile (!isMark ·)
  let whole := mantissa.takeWhile (· != '.')
  let fraction := (mantissa.dropWhile (· != '.')).tail
  Numeral.value 10 (whole ++ fraction) *
    10 ^ (exponentOf (text.dropWhile (!isMark ·)) - fraction.length)

/-- **Zeros in front** do not change the number. -/
theorem value_zeros_append (count : ℕ) (text : List Char) :
    value (List.replicate count '0' ++ text) = value text := by
  have htake (p : Char → Bool) (hp : p '0' = true) (cs : List Char) :
      (List.replicate count '0' ++ cs).takeWhile p = List.replicate count '0' ++ cs.takeWhile p :=
    List.takeWhile_append_of_pos fun c hc => by rw [List.eq_of_mem_replicate hc, hp]
  have hdrop (p : Char → Bool) (hp : p '0' = true) (cs : List Char) :
      (List.replicate count '0' ++ cs).dropWhile p = cs.dropWhile p :=
    List.dropWhile_append_of_pos fun c hc => by rw [List.eq_of_mem_replicate hc, hp]
  simp only [value, htake (!isMark ·) rfl, hdrop (!isMark ·) rfl, htake (· != '.') rfl,
    hdrop (· != '.') rfl, List.append_assoc, Numeral.value_zeros_append]

theorem isMark_of_mem_digitChars {c : Char} (hc : c ∈ digitChars) : isMark c = false := by
  have hall : digitChars.all (!isMark ·) = true := by decide
  simpa using List.all_eq_true.mp hall c hc

theorem ne_point_of_mem_digitChars {c : Char} (hc : c ∈ digitChars) : c ≠ '.' := by
  rintro rfl
  exact absurd hc (by decide)

theorem toUpper_of_mem_digitChars {c : Char} (hc : c ∈ digitChars) : c.toUpper = c := by
  have hall : digitChars.all (fun c => c.toUpper == c) = true := by decide
  simpa using List.all_eq_true.mp hall c hc

theorem digitValue_lt_of_mem {c : Char} (hc : c ∈ digitChars) : Numeral.digitValue c < 10 :=
  have hmem : c ∈ (Numeral.alphabet false).take 10 := hc
  Numeral.digitValue_lt hmem

/-- Decimal numerals are the same in upper case. -/
theorem map_toUpper_digits {cs : List Char} (h : ∀ c ∈ cs, c ∈ digitChars) :
    cs.map Char.toUpper = cs := by
  rw [List.map_congr_left fun c hc => toUpper_of_mem_digitChars (h c hc), List.map_id']

/-! ### Forms -/

/-- What a decimal notation is made of: digits before a point and behind it, and perhaps the sign
    and the digits of a power of ten, of which there are two or as many more as it takes. Where no
    digit follows, there may be no point. -/
structure Form where
  whole : List Char
  point : Bool
  fraction : List Char
  power : Option (Bool × List Char)
  whole_nonempty : whole ≠ []
  whole_digits : ∀ c ∈ whole, c ∈ digitChars
  fraction_digits : ∀ c ∈ fraction, c ∈ digitChars
  point_of_fraction : fraction ≠ [] → point = true
  power_digits : ∀ negative digits, power = some (negative, digits) →
    2 ≤ digits.length ∧ ∀ c ∈ digits, c ∈ digitChars
  power_shortest : ∀ negative digits, power = some (negative, digits) →
    2 < digits.length → digits.head? ≠ some '0'

namespace Form

/-- The text before the power of ten. -/
def mantissa (f : Form) : List Char := f.whole ++ if f.point then '.' :: f.fraction else []

/-- The text of the power of ten, which begins with the mark. -/
def powerText (f : Form) (mark : Char) : List Char :=
  match f.power with
  | none => []
  | some (negative, digits) => mark :: (if negative then '-' else '+') :: digits

/-- The text of a notation. -/
def toList (f : Form) (mark : Char) : List Char := f.mantissa ++ f.powerText mark

/-- The digits of a notation, without its point. -/
def digits (f : Form) : List Char := f.whole ++ f.fraction

/-- The exponent of the power of ten. -/
def exponent (f : Form) : ℤ :=
  match f.power with
  | none => 0
  | some (negative, digits) =>
    if negative then -Numeral.value 10 digits else Numeral.value 10 digits

variable {f : Form} {mark : Char}

theorem digits_digits (f : Form) : ∀ c ∈ f.digits, c ∈ digitChars := by
  intro c hc
  obtain hc | hc := List.mem_append.mp hc
  · exact f.whole_digits c hc
  · exact f.fraction_digits c hc

/-- Without a point there is nothing behind it. -/
theorem fraction_of_point (h : f.point = false) : f.fraction = [] := by
  by_contra hne
  rw [f.point_of_fraction hne] at h
  cases h

/-- A mantissa holds digits and a point. -/
theorem mem_mantissa {c : Char} (h : c ∈ f.mantissa) : c ∈ digitChars ∨ c = '.' := by
  obtain h | h := List.mem_append.mp h
  · exact .inl (f.whole_digits c h)
  · split at h
    · obtain rfl | h := List.mem_cons.mp h
      · exact .inr rfl
      · exact .inl (f.fraction_digits c h)
    · cases h

/-- The mark is not met before the power of ten. -/
theorem isMark_of_mem_mantissa {c : Char} (h : c ∈ f.mantissa) : isMark c = false := by
  obtain h | rfl := mem_mantissa h
  · exact isMark_of_mem_digitChars h
  · rfl

/-- Either there is no power of ten, or its text begins with the mark. -/
theorem powerText_eq_nil_or (f : Form) (mark : Char) :
    f.powerText mark = [] ∨ ∃ rest, f.powerText mark = mark :: rest := by
  rw [powerText]
  split
  · exact .inl rfl
  · exact .inr ⟨_, rfl⟩

/-- A power of ten is a mark, a sign and digits. -/
theorem mem_powerText {c : Char} (h : c ∈ f.powerText mark) :
    c = mark ∨ c = '-' ∨ c = '+' ∨ c ∈ digitChars := by
  rw [powerText] at h
  split at h
  · cases h
  · rename_i negative digits hpower
    obtain rfl | h := List.mem_cons.mp h
    · exact .inl rfl
    · obtain rfl | h := List.mem_cons.mp h
      · cases negative
        · exact .inr (.inr (.inl rfl))
        · exact .inr (.inl rfl)
      · exact .inr (.inr (.inr ((f.power_digits _ _ hpower).2 c h)))

/-- A notation holds nothing but digits, a point, a mark and a sign. -/
theorem not_mem_toList {c : Char} (hmark : isMark mark = true) (hdigit : c ∉ digitChars)
    (hnot : isMark c = false) (hother : c ≠ '.' ∧ c ≠ '-' ∧ c ≠ '+') : c ∉ f.toList mark := by
  intro hc
  obtain hc | hc := List.mem_append.mp hc
  · obtain hc | hc := mem_mantissa hc
    · exact hdigit hc
    · exact hother.1 hc
  · obtain rfl | hc | hc | hc := mem_powerText hc
    · rw [hmark] at hnot
      cases hnot
    · exact hother.2.1 hc
    · exact hother.2.2 hc
    · exact hdigit hc

/-- A notation begins with a digit. -/
theorem exists_cons_toList (f : Form) (mark : Char) :
    ∃ digit rest, f.toList mark = digit :: rest ∧ digit ∈ digitChars := by
  obtain ⟨digit, rest, hwhole⟩ := List.exists_cons_of_ne_nil f.whole_nonempty
  refine ⟨digit, (rest ++ if f.point then '.' :: f.fraction else []) ++ f.powerText mark, ?_,
    f.whole_digits digit (hwhole ▸ List.mem_cons_self)⟩
  rw [toList, mantissa, hwhole]
  rfl

/-- A mantissa goes on up to the mark of the power of ten. -/
theorem stops_powerText {accepts : Char → Bool} (h : accepts mark = false) :
    Stops accepts (f.powerText mark) := by
  obtain hnil | ⟨rest, hcons⟩ := f.powerText_eq_nil_or mark
  · rw [hnil]
    exact fun c hc => by cases hc
  · rw [hcons]
    rintro c ⟨⟩
    exact h

/-- The exponent is read back from the text of the power of ten. -/
theorem exponentOf_powerText (f : Form) (mark : Char) :
    exponentOf (f.powerText mark) = f.exponent := by
  cases hpower : f.power with
  | none => simp [powerText, exponent, hpower, exponentOf]
  | some power =>
    obtain ⟨negative, digits⟩ := power
    cases negative <;> simp [powerText, exponent, hpower, exponentOf]

/-- The digits before the point go on up to it. -/
theorem span_mantissa (f : Form) : f.mantissa.takeWhile (· != '.') = f.whole ∧
    (f.mantissa.dropWhile (· != '.')).tail = f.fraction := by
  have hwhole : ∀ c ∈ f.whole, (c != '.') = true := by
    intro c hc
    simpa using ne_point_of_mem_digitChars (f.whole_digits c hc)
  rw [mantissa]
  cases hpoint : f.point with
  | false =>
    have hstops : Stops (· != '.') [] := fun c hc => by cases hc
    simp only [Bool.false_eq_true, if_false, fraction_of_point hpoint]
    exact ⟨hstops.takeWhile hwhole, by rw [hstops.dropWhile hwhole, List.tail_nil]⟩
  | true =>
    have hstops : Stops (· != '.') ('.' :: f.fraction) := by rintro c ⟨⟩; rfl
    simp only [if_true]
    exact ⟨hstops.takeWhile hwhole, by rw [hstops.dropWhile hwhole, List.tail_cons]⟩

/-- **What a notation denotes**: its digits, scaled by its power of ten and by its point. -/
theorem value_toList (f : Form) (hmark : isMark mark = true) :
    value (f.toList mark) = Numeral.value 10 f.digits * 10 ^ (f.exponent - f.fraction.length) := by
  -- the text is taken apart where the form was put together: at the mark, and then at the point
  have hmantissa : ∀ c ∈ f.mantissa, (!isMark c) = true := by
    intro c hc
    rw [isMark_of_mem_mantissa hc]
    rfl
  have hstops : Stops (!isMark ·) (f.powerText mark) := stops_powerText (by rw [hmark]; rfl)
  obtain ⟨hwhole, hfraction⟩ := f.span_mantissa
  rw [toList, value]
  simp only [hstops.takeWhile hmantissa, hstops.dropWhile hmantissa, hwhole, hfraction,
    exponentOf_powerText]
  rfl

/-- In upper case, only the mark changes. -/
theorem map_toUpper_toList (f : Form) : (f.toList 'e').map Char.toUpper = f.toList 'E' := by
  have hpower : (f.powerText 'e').map Char.toUpper = f.powerText 'E' := by
    rw [powerText, powerText]
    split
    · rfl
    · rename_i negative digits hpower
      rw [List.map_cons, List.map_cons, map_toUpper_digits (f.power_digits _ _ hpower).2]
      cases negative <;> rfl
  rw [toList, toList, List.map_append, hpower, mantissa, List.map_append,
    map_toUpper_digits f.whole_digits]
  split
  · rw [List.map_cons, map_toUpper_digits f.fraction_digits]
    rfl
  · rfl

/-! ### Trimming -/

/-- The notation without the zeros that end its fraction, and without a point that nothing
    follows. -/
def trim (f : Form) : Form where
  whole := f.whole
  point := !(f.fraction.rdropWhile (· == '0')).isEmpty
  fraction := f.fraction.rdropWhile (· == '0')
  power := f.power
  whole_nonempty := f.whole_nonempty
  whole_digits := f.whole_digits
  fraction_digits c hc := f.fraction_digits c ((List.rdropWhile_prefix _ _).subset hc)
  point_of_fraction h := by simpa using h
  power_digits := f.power_digits
  power_shortest := f.power_shortest

/-- **The text is trimmed as the form is.** Where there is a point, dropping zeros from the end of
    the text stops at the last digit that is kept, or at the point, which is dropped then. -/
theorem trimFraction_mantissa (f : Form) : trimFraction f.mantissa = f.trim.mantissa := by
  cases hpoint : f.point with
  | false =>
    -- without a point nothing is trimmed, and no digit is taken for one
    have hno : '.' ∉ f.whole := fun h => ne_point_of_mem_digitChars (f.whole_digits _ h) rfl
    simp [mantissa, trim, hpoint, fraction_of_point hpoint, trimFraction, hno]
  | true =>
    have hreverse : (f.whole ++ '.' :: f.fraction).reverse =
        f.fraction.reverse ++ '.' :: f.whole.reverse := by simp
    have hkept : f.fraction.rdropWhile (· == '0') =
        (f.fraction.reverse.dropWhile (· == '0')).reverse := rfl
    simp only [mantissa, trim, hpoint, if_true, trimFraction, hreverse, hkept]
    rw [if_pos (by simp), List.dropWhile_append]
    cases hdropped : f.fraction.reverse.dropWhile (· == '0') with
    | nil => simp
    | cons c rest =>
      -- the last digit that is kept is no point
      have hmem : c ∈ f.fraction := by
        rw [← List.mem_reverse]
        exact (List.dropWhile_suffix _).subset (hdropped ▸ List.mem_cons_self)
      have hne := ne_point_of_mem_digitChars (f.fraction_digits c hmem)
      simp only [List.isEmpty_cons, List.cons_append]
      split
      · rename_i h
        cases h
        exact absurd rfl hne
      · simp

/-- **Trimming** does not change what a notation denotes. -/
theorem value_trim (f : Form) (hmark : isMark mark = true) :
    value (f.trim.toList mark) = value (f.toList mark) := by
  -- each zero that is dropped scales the digits by ten, and the point stands one place less to the
  -- left
  obtain ⟨count, hcount⟩ : ∃ count, f.fraction.rtakeWhile (· == '0') = List.replicate count '0' :=
    ⟨_, List.eq_replicate_of_mem fun c hc => by simpa using List.mem_rtakeWhile_imp hc⟩
  have hfraction : f.fraction = f.trim.fraction ++ List.replicate count '0' := by
    rw [← hcount]
    exact List.rdropWhile_append_rtakeWhile.symm
  have hdigits : f.digits = f.trim.digits ++ List.replicate count '0' := by
    rw [digits, hfraction, ← List.append_assoc]
    rfl
  have hexponent : f.exponent = f.trim.exponent := rfl
  rw [value_toList _ hmark, value_toList _ hmark, hdigits, hfraction, hexponent,
    Numeral.value_append, Numeral.value_zeros, List.length_append, List.length_replicate]
  push_cast
  rw [add_zero, mul_assoc, ← zpow_natCast, ← zpow_add₀ (by norm_num)]
  congr 2
  ring

/-- A trimmed fraction does not end in a zero. -/
theorem getLast?_trim (f : Form) : f.trim.fraction.getLast? ≠ some '0' := by
  intro h
  have hne : f.trim.fraction ≠ [] := by
    intro hnil
    rw [hnil] at h
    cases h
  refine List.rdropWhile_last_not (· == '0') f.fraction hne ?_
  rw [List.getLast?_eq_getLast_of_ne_nil hne] at h
  exact beq_iff_eq.mpr (Option.some.inj h)

/-! ### Notations that are written -/

theorem mem_digitChars_of_chars (n : ℕ) : ∀ c ∈ Numeral.chars 10 n, c ∈ digitChars :=
  (Numeral.spells_chars (by decide) (by decide) n).digits

theorem mem_digitChars_of_extend (least n : ℕ) :
    ∀ c ∈ Numeral.extend least (Numeral.chars 10 n), c ∈ digitChars := by
  intro c hc
  rw [Numeral.extend_eq] at hc
  obtain hc | hc := List.mem_append.mp hc
  · rw [List.eq_of_mem_replicate hc]
    decide
  · exact mem_digitChars_of_chars n c hc

theorem value_chars (n : ℕ) : Numeral.value 10 (Numeral.chars 10 n) = n :=
  (Numeral.spells_chars (by decide) (by decide) n).value_eq

theorem value_extend (least n : ℕ) :
    Numeral.value 10 (Numeral.extend least (Numeral.chars 10 n)) = n := by
  rw [Numeral.extend_eq, Numeral.value_zeros_append, value_chars]

/-- A number of at most `least` digits is extended to exactly as many. -/
theorem length_extend_chars {least n : ℕ} (h : n < 10 ^ least) (hleast : 0 < least) :
    (Numeral.extend least (Numeral.chars 10 n)).length = least := by
  have hle : (Numeral.chars 10 n).length ≤ least := by
    by_cases hn : n = 0
    · rw [hn]
      exact hleast
    · have hspells := Numeral.spells_chars (by decide : 1 < 10) (by decide) n
      have hlt := Nat.lt_of_le_of_lt (hspells.pow_le hn) h
      have hlength := (Nat.pow_lt_pow_iff_right (by decide)).mp hlt
      omega
  rw [Numeral.extend_eq, List.length_append, List.length_replicate]
  omega

/-- More digits than the least number have no zeros in front. -/
theorem head?_extend_chars_ne {least n : ℕ} (hleast : 0 < least)
    (h : least < (Numeral.extend least (Numeral.chars 10 n)).length) :
    (Numeral.extend least (Numeral.chars 10 n)).head? ≠ some '0' := by
  rw [Numeral.extend_eq] at h ⊢
  rw [List.length_append, List.length_replicate] at h
  have hmissing : least - (Numeral.chars 10 n).length = 0 := by omega
  rw [hmissing, List.replicate_zero, List.nil_append]
  intro hhead
  rw [(Numeral.spells_chars (by decide) (by decide) n).shortest hhead, List.length_singleton] at h
  omega

/-- The last `places` digits of a number. -/
def lastDigits (n places : ℕ) : List Char :=
  if places = 0 then [] else Numeral.extend places (Numeral.chars 10 (n % 10 ^ places))

variable (n places : ℕ) (point : Bool) (exponent : Option ℤ)

theorem mem_digitChars_of_lastDigits : ∀ c ∈ lastDigits n places, c ∈ digitChars := by
  intro c hc
  rw [lastDigits] at hc
  split at hc
  · cases hc
  · exact mem_digitChars_of_extend _ _ c hc

/-- There are as many last digits as are asked for, if need be with zeros in front. -/
theorem length_lastDigits : (lastDigits n places).length = places := by
  cases places with
  | zero => rfl
  | succ places =>
    rw [lastDigits, if_neg (Nat.succ_ne_zero places)]
    exact length_extend_chars (Nat.mod_lt n (Nat.pow_pos (by decide))) (Nat.succ_pos places)

/-- The last digits stand for the remainder that they are the digits of. -/
theorem value_lastDigits : Numeral.value 10 (lastDigits n places) = n % 10 ^ places := by
  cases places with
  | zero => exact (Nat.mod_one n).symm
  | succ places => rw [lastDigits, if_neg (Nat.succ_ne_zero places), value_extend]

/-- The digits of `n` with a point before the last `places` of them, also before none if `point`
    says so, and with the given power of ten. -/
def ofDigits (n places : ℕ) (point : Bool) (exponent : Option ℤ) : Form where
  whole := Numeral.chars 10 (n / 10 ^ places)
  point := point || decide (0 < places)
  fraction := lastDigits n places
  power := exponent.map fun e => (decide (e < 0), Numeral.extend 2 (Numeral.chars 10 e.natAbs))
  whole_nonempty := (Numeral.spells_chars (by decide) (by decide) _).nonempty
  whole_digits := mem_digitChars_of_chars _
  fraction_digits := mem_digitChars_of_lastDigits n places
  point_of_fraction h := by
    rw [← List.length_pos_iff, length_lastDigits] at h
    rw [decide_eq_true h, Bool.or_true]
  power_digits negative digits h := by
    obtain ⟨e, -, heq⟩ := Option.map_eq_some_iff.mp h
    cases heq
    refine ⟨?_, mem_digitChars_of_extend _ _⟩
    rw [Numeral.extend_eq, List.length_append, List.length_replicate]
    omega
  power_shortest negative digits h hlength := by
    obtain ⟨e, -, heq⟩ := Option.map_eq_some_iff.mp h
    cases heq
    exact head?_extend_chars_ne Nat.two_pos hlength

/-- Before the power of ten stand the digits with the point among them, or behind them. -/
theorem mantissa_ofDigits : (ofDigits n places point exponent).mantissa =
    pointed n places ++ if point && places == 0 then ['.'] else [] := by
  cases places with
  | zero => cases point <;> simp [mantissa, ofDigits, pointed, lastDigits]
  | succ places => simp [mantissa, ofDigits, pointed, lastDigits]

/-- **The text of a scientific notation is taken apart** at its exponent: the digits in front have
    no letter among them. -/
theorem splitExponent?_text (s : Scientific) : splitExponent? (s.text places) =
    some (pointed s.digits places, Numeral.ofInt s.exponent) := by
  have hpointed : (ofDigits s.digits places false none).mantissa = pointed s.digits places := by
    rw [mantissa_ofDigits]
    exact List.append_nil _
  have hmantissa : ∀ c ∈ pointed s.digits places, (c != 'e') = true := by
    intro c hc
    rw [bne_iff_ne]
    rintro rfl
    exact absurd (isMark_of_mem_mantissa (hpointed ▸ hc)) (by decide)
  have hstops : Stops (· != 'e') ('e' :: Numeral.ofInt s.exponent) := by
    rintro c ⟨⟩
    rfl
  rw [splitExponent?, Scientific.text, hstops.takeWhile hmantissa, hstops.dropWhile hmantissa]

/-- All digits together are those of the number, with zeros in front perhaps. -/
theorem value_digits_ofDigits :
    Numeral.value 10 (ofDigits n places point exponent).digits = n := by
  rw [digits, Numeral.value_append]
  simp only [ofDigits, value_chars, value_lastDigits, length_lastDigits]
  exact Nat.div_add_mod' n (10 ^ places)

/-- The exponent of a notation is the one that was given, or zero. -/
theorem exponent_ofDigits : (ofDigits n places point exponent).exponent = exponent.getD 0 := by
  cases exponent with
  | none => rfl
  | some e =>
    simp only [Form.exponent, ofDigits, Option.map_some, Option.getD_some, value_extend]
    split <;> rename_i h <;> simp only [decide_eq_true_eq] at h <;> omega

/-- The number that given digits denote. -/
theorem value_ofDigits {mark : Char} (hmark : isMark mark = true) :
    value ((ofDigits n places point exponent).toList mark) =
      n * 10 ^ (exponent.getD 0 - places) := by
  rw [value_toList _ hmark, value_digits_ofDigits, exponent_ofDigits]
  simp only [ofDigits, length_lastDigits]

end Form

end BinaryLog.Decimal
