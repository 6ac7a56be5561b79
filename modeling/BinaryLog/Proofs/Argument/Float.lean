import BinaryLog.Proofs.Argument.Integer
import BinaryLog.Proofs.Binary64.Rounding
import BinaryLog.Proofs.Text.Decimal

namespace BinaryLog

/-!
# Floating point numbers as text

* `Decimal.Form.Exponential` and `Decimal.Form.General`, the shapes of the two notations that are
  rounded to significant digits;
* `Directive.exponentialBody_eq` and `Directive.generalBody_eq`, the notations that are written;
* `Directive.write_rounded`, what finite numbers without a width are written as.
-/

/-! ### Shapes -/

namespace Decimal.Form

/-- A magnitude as one digit, which is a zero only for zero itself, a point and `places` more
    digits, and a power of ten. Where no digit follows, the point is kept only in the alternate
    form. -/
structure Exponential (places : ℕ) (alternate : Bool) (a : ℚ) (f : Form) : Prop where
  length_whole : f.whole.length = 1
  whole_eq_zero_iff : f.whole = ['0'] ↔ a = 0
  length_fraction : f.fraction.length = places
  point_iff : f.point = true ↔ 0 < places ∨ alternate = true
  power_isSome : f.power.isSome = true

/-- The digits of a notation from the first that is no zero. -/
def significant (f : Form) : List Char := f.digits.dropWhile (· == '0')

/-- A magnitude whose rounded value has the given exponent, with a power of ten unless the exponent
    is small, and without zeros in front. The alternate form keeps the point and as many digits as
    `precision` says, which for zero are all that there are, and else the significant ones. The
    other form has no zeros at the end of its fraction and no point at its end. -/
structure General (precision : ℕ) (alternate : Bool) (a : ℚ) (exponent : ℤ) (f : Form) : Prop where
  fixed_iff : f.power = none ↔ -4 ≤ exponent ∧ exponent < precision
  length_whole : f.power.isSome = true → f.whole.length = 1
  shortest : f.whole.head? = some '0' → f.whole = ['0']
  trimmed : alternate = false → f.point = true →
    f.fraction ≠ [] ∧ f.fraction.getLast? ≠ some '0'
  point : alternate = true → f.point = true
  length_significant : alternate = true → a ≠ 0 → f.significant.length = precision
  length_digits : alternate = true → a = 0 → f.digits.length = precision

/-- Zeros in front of the significant digits do not count. -/
theorem value_significant (f : Form) :
    Numeral.value 10 f.significant = Numeral.value 10 f.digits := by
  obtain ⟨count, hcount⟩ : ∃ count, f.digits.takeWhile (· == '0') = List.replicate count '0' :=
    ⟨_, List.eq_replicate_of_mem fun c hc => by simpa using List.mem_takeWhile_imp hc⟩
  have hdigits : f.digits = List.replicate count '0' ++ f.significant := by
    rw [← hcount]
    exact List.takeWhile_append_dropWhile.symm
  rw [hdigits, Numeral.value_zeros_append]

/-- Digits between two powers of ten are as many as the lower one has. -/
theorem length_significant_eq (f : Form) {k : ℕ} (hle : 10 ^ k ≤ Numeral.value 10 f.digits)
    (hlt : Numeral.value 10 f.digits < 10 ^ (k + 1)) : f.significant.length = k + 1 := by
  have hdigits : ∀ c ∈ f.significant, c ∈ (Numeral.alphabet false).take 10 := fun c hc =>
    f.digits_digits c ((List.dropWhile_suffix _).subset hc)
  have hhead : f.significant.head? ≠ some '0' := by
    intro hhead
    have hnot := List.head?_dropWhile_not (· == '0') f.digits
    rw [show f.digits.dropWhile (· == '0') = f.significant from rfl, hhead] at hnot
    exact absurd hnot (by decide)
  rw [← value_significant] at hle hlt
  exact Numeral.length_eq_of_value (by decide) hdigits hhead hle hlt

theorem length_chars_of_lt {n : ℕ} (h : n < 10) : (Numeral.chars 10 n).length = 1 := by
  rw [Numeral.chars_eq_if (by decide), if_pos h]
  rfl

variable {n places : ℕ} {point : Bool}

/-- Of one digit more than there are places, just one stands before the point. -/
theorem length_whole_ofDigits (h : n < 10 ^ (places + 1)) (power : Option ℤ) :
    (ofDigits n places point power).whole.length = 1 := by
  refine length_chars_of_lt ?_
  rw [Nat.div_lt_iff_lt_mul (Nat.pow_pos (by decide)), ← Nat.pow_succ']
  exact h

/-- **The shape of the exponential notation.** -/
theorem exponential_ofDigits {a : ℚ} {s : Scientific} (h : s.Normal places a) :
    (ofDigits s.digits places point (some s.exponent)).Exponential places point a where
  length_whole := length_whole_ofDigits h.digits_lt _
  whole_eq_zero_iff := by
    constructor
    · intro hwhole
      by_contra ha
      have hpos : 0 < s.digits / 10 ^ places :=
        Nat.div_pos (h.le_digits ha) (Nat.pow_pos (by decide))
      -- the first digit is the quotient by the power of the places
      have hvalue := congrArg (Numeral.value 10) hwhole
      rw [ofDigits, value_chars] at hvalue
      exact absurd hvalue (Nat.ne_of_gt hpos)
    · intro ha
      rw [h.of_zero ha]
      show Numeral.chars 10 (0 / 10 ^ places) = ['0']
      rw [Nat.zero_div]
      rfl
  length_fraction := length_lastDigits _ places
  point_iff := by simp [ofDigits, or_comm]
  power_isSome := rfl

end Decimal.Form

namespace Directive

open Decimal

variable {d : Directive} {x : Binary64}

/-! ### Notations of a number -/

/-- **Fixed notation** writes the digits of the rounded number, and no power of ten. -/
theorem fixedBody_eq (d : Directive) (x : Binary64) (places : ℕ) :
    d.fixedBody x places = (Form.ofDigits (roundDiv (x.numerator * 10 ^ places) x.denominator)
      places d.flags.alternate none).toList 'e' := by
  rw [fixedBody, Form.toList, Form.mantissa_ofDigits]
  exact (List.append_nil _).symm

/-- **The exponent is found in the text** of a number, so that nothing else is ever put in its
    place. -/
theorem decimalExponent_eq (x : Binary64) (places : ℕ) :
    decimalExponent x places = (x.scientific places).exponent := by
  rw [decimalExponent, Binary64.scientificText, Form.splitExponent?_text]
  exact congrArg (Option.getD · 0) (x.readInt32?_exponent places)

/-- **Exponential notation** writes the digits of the scientific one. -/
theorem exponentialBody_eq (d : Directive) (x : Binary64) (places : ℕ) :
    d.exponentialBody x places = (Form.ofDigits (x.scientific places).digits places
      d.flags.alternate (some (x.scientific places).exponent)).toList 'e' := by
  rw [exponentialBody, Form.toList, Form.mantissa_ofDigits]
  simp only [Binary64.scientificText, Form.splitExponent?_text, Option.getD_some,
    x.readInt32?_exponent]
  simp [Form.powerText, Form.ofDigits, barePoint]

/-- Trimming stops before the power of ten, and what is in front is trimmed as the form is. -/
theorem trimZeros_toList (f : Form) : trimZeros (f.toList 'e') = f.trim.toList 'e' := by
  have hmantissa : ∀ c ∈ f.mantissa, (c != 'e') = true := by
    intro c hc
    rw [bne_iff_ne]
    rintro rfl
    exact absurd (Form.isMark_of_mem_mantissa hc) (by decide)
  have hstops : Stops (· != 'e') (f.powerText 'e') := Form.stops_powerText rfl
  rw [trimZeros, Form.toList, hstops.takeWhile hmantissa, hstops.dropWhile hmantissa,
    Form.trimFraction_mantissa]
  rfl

/-- The notation of the digits of `s`, with a power of ten unless its exponent is small. -/
def shorterForm (alternate : Bool) (s : Scientific) (precision : ℕ) : Form :=
  if -4 ≤ s.exponent ∧ s.exponent < precision then
    .ofDigits s.digits (precision - 1 - s.exponent).toNat alternate none
  else .ofDigits s.digits (precision - 1) alternate (some s.exponent)

/-- The same notation, trimmed unless it is the alternate one. -/
def generalForm (alternate : Bool) (s : Scientific) (precision : ℕ) : Form :=
  if alternate then shorterForm alternate s precision
  else (shorterForm alternate s precision).trim

/-- **The shorter notation** writes the digits of the scientific one, also where it rounds to them
    once more. -/
theorem generalBody_eq (d : Directive) (x : Binary64) (precision : ℕ) :
    let significant := max precision 1
    d.generalBody x precision =
      (generalForm d.flags.alternate (x.scientific (significant - 1)) significant).toList 'e' := by
  intro significant
  let s := x.scientific (significant - 1)
  -- x
  let f := shorterForm d.flags.alternate s significant
  have hbody : (if -4 ≤ s.exponent && s.exponent < (significant : ℤ) then
      d.fixedBody x ((significant : ℤ) - 1 - s.exponent).toNat
      else d.exponentialBody x (significant - 1)) = f.toList 'e' := by
    simp only [f, shorterForm, Bool.and_eq_true, decide_eq_true_eq]
    split
    · rename_i hsmall
      have hplaces : ((significant - 1 : ℕ) : ℤ) = significant - 1 := by omega
      -- in fixed notation the number is rounded again, to the same digit
      have hdigits : roundDiv (x.numerator * 10 ^ ((significant : ℤ) - 1 - s.exponent).toNat)
          x.denominator = s.digits := by
        rw [← hplaces]
        exact roundDiv_eq_digits x.numerator x.denominator_pos
          (show s.exponent ≤ (significant - 1 : ℕ) by omega)
      rw [fixedBody_eq, hdigits]
    · exact exponentialBody_eq d x _
  simp only [generalBody, generalForm, decimalExponent_eq]
  split
  · exact hbody
  · exact (congrArg trimZeros hbody).trans (trimZeros_toList f)

/-- Either way the digits are those of the scientific notation. -/
theorem value_digits_shorterForm (alternate : Bool) (s : Scientific) (precision : ℕ) :
    Numeral.value 10 (shorterForm alternate s precision).digits = s.digits := by
  rw [shorterForm]
  split <;> exact Form.value_digits_ofDigits _ _ _ _

/-- **The shape of the shorter notation** is decided by the exponent of the rounded number. -/
theorem general_generalForm (alternate : Bool) {a : ℚ} {s : Scientific} {precision : ℕ}
    (hprecision : 0 < precision) (h : s.Normal (precision - 1) a) :
    (generalForm alternate s precision).General precision alternate a s.exponent := by
  let f := shorterForm alternate s precision
  -- trimming keeps the power of ten and the digits before the point
  have hpower : f.power = none ↔ -4 ≤ s.exponent ∧ s.exponent < precision := by
    simp only [f, shorterForm]
    split <;> simp_all [Form.ofDigits]
  have hwhole : f.power.isSome = true → f.whole.length = 1 := by
    simp only [f, shorterForm]
    split
    · exact fun hsome => absurd hsome Bool.false_ne_true
    · exact fun _ => Form.length_whole_ofDigits h.digits_lt _
  have hshortest : f.whole.head? = some '0' → f.whole = ['0'] := by
    simp only [f, shorterForm]
    split <;> exact (Numeral.spells_chars (by decide) (by decide) _).shortest
  have hvalue : Numeral.value 10 f.digits = s.digits := value_digits_shorterForm _ _ _
  rw [generalForm]
  cases alternate with
  | false =>
    have hno {P : Prop} (h : false = true) : P := absurd h Bool.false_ne_true
    refine ⟨hpower, hwhole, hshortest, fun _ hpoint => ⟨?_, Form.getLast?_trim _⟩, hno, hno, hno⟩
    simpa [Form.trim] using hpoint
  | true =>
    refine ⟨hpower, hwhole, hshortest, fun hfalse => absurd hfalse.symm Bool.false_ne_true,
      fun _ => ?_, fun _ ha => ?_, fun _ hzero => ?_⟩
    · rw [if_pos rfl, shorterForm]
      split <;> rfl
    · have hlength := f.length_significant_eq (k := precision - 1)
        (by rw [hvalue]; exact h.le_digits ha) (by rw [hvalue]; exact h.digits_lt)
      rw [if_pos rfl, hlength, Nat.sub_add_cancel hprecision]
    · -- zero has no power of ten, so all its digits but one follow the point
      rw [if_pos rfl, shorterForm, h.of_zero hzero, if_pos (by dsimp only; omega), Form.digits,
        List.length_append, Form.length_whole_ofDigits (Nat.pow_pos (by decide))]
      show 1 + (Form.lastDigits 0 (precision - 1 - 0 : ℤ).toNat).length = precision
      rw [Form.length_lastDigits]
      omega

/-- Either way the digits denote the number that the scientific notation stands for. -/
theorem value_generalForm (alternate : Bool) (s : Scientific) {precision : ℕ} {mark : Char}
    (hprecision : 0 < precision) (hmark : isMark mark = true) :
    value ((generalForm alternate s precision).toList mark) = s.value (precision - 1) := by
  have hplaces : ((precision - 1 : ℕ) : ℤ) = precision - 1 := by omega
  have hvalue : value ((shorterForm alternate s precision).toList mark) =
      s.value (precision - 1) := by
    rw [shorterForm, Scientific.value, hplaces]
    split
    · rename_i hsmall
      rw [Form.value_ofDigits _ _ _ _ hmark, Option.getD_none]
      congr 2
      omega
    · rw [Form.value_ofDigits _ _ _ _ hmark, Option.getD_some, hplaces]
  rw [generalForm]
  split
  · exact hvalue
  · rw [Form.value_trim _ hmark, hvalue]

/-! ### Numbers without a width -/

/-- The mark of a power of ten in the case of the conversion. -/
def powerMark (upper : Bool) : Char := if upper then 'E' else 'e'

theorem isMark_powerMark (upper : Bool) : isMark (powerMark upper) = true := by
  cases upper <;> rfl

/-- The body of the field of a finite number is its notation. -/
theorem body_floatField (hfinite : x.isFinite = true) {f : Form}
    (hbody : d.floatBody x = f.toList 'e') :
    (d.floatField x).body = f.toList (powerMark d.isUpper) := by
  obtain ⟨hnan, hinfinite⟩ := x.isFinite_iff.mp hfinite
  simp only [floatField, hnan, hinfinite, hbody, Bool.false_eq_true, if_false]
  cases d.isUpper with
  | false => rfl
  | true => rw [if_pos rfl, f.map_toUpper_toList]; rfl

/-- A finite number is written as its sign and its notation. -/
theorem toList_write_float (hwidth : d.width = none) (hkind : d.argKind = .float)
    (hfinite : x.isFinite = true) {f : Form} (hbody : d.floatBody x = f.toList 'e') :
    (d.write (.float x)).toList = d.flags.sign x.negative ++ f.toList (powerMark d.isUpper) := by
  rw [toList_write hwidth, field, hkind]
  exact congrArg (d.flags.sign x.negative ++ ·) (body_floatField hfinite hbody)

/-- **Rounded decimals.** Without a width, the exponential notation of a finite number behind its
    sign is one digit, a point and as many digits as the precision says, and a power of ten. It
    denotes the number rounded to these digits. The shorter notation denotes what the exponential
    one with as many significant digits does, also where rounding carries into the next power of
    ten; the exponent of that number tells whether a power of ten is written. -/
theorem write_rounded (hwidth : d.width = none) (hfinite : x.isFinite = true) (upper : Bool) :
    let sign := d.flags.sign x.negative
    let mark := powerMark upper
    let precision := d.precision.getD 6
    let significant := max precision 1
    (∃ f : Form,
      ({ d with conversion := .exponential upper }.write (.float x)).toList =
        sign ++ f.toList mark ∧
      f.Exponential precision d.flags.alternate x.magnitude ∧
      RoundsTo precision x.magnitude (value (f.toList mark))) ∧
    ∃ f g : Form,
      ({ d with conversion := .general upper }.write (.float x)).toList = sign ++ f.toList mark ∧
      ({ d with conversion := .exponential upper, precision := some (significant - 1) }.write
        (.float x)).toList = sign ++ g.toList mark ∧
      RoundsTo (significant - 1) x.magnitude (value (g.toList mark)) ∧
      value (f.toList mark) = value (g.toList mark) ∧
      f.General significant d.flags.alternate x.magnitude
        (Int.log 10 (value (g.toList mark))) := by
  intro sign mark precision significant
  have hmark : isMark mark = true := isMark_powerMark upper
  have hsignificant : 0 < significant := Nat.lt_of_lt_of_le Nat.one_pos (Nat.le_max_right _ _)
  -- with any number of places, the exponential notation is one of the rounded number
  let form (places : ℕ) : Form := .ofDigits (x.scientific places).digits places d.flags.alternate
    (some (x.scientific places).exponent)
  have hvalue (places : ℕ) :
      value ((form places).toList mark) = (x.scientific places).value places :=
    Form.value_ofDigits _ _ _ _ hmark
  have hrounds (places : ℕ) :
      RoundsTo places x.magnitude (value ((form places).toList mark)) := by
    rw [hvalue, x.magnitude_eq]
    exact roundsTo_scientific x.numerator x.denominator_pos places
  have hnormal (places : ℕ) : (x.scientific places).Normal places x.magnitude := by
    rw [x.magnitude_eq]
    exact normal_scientific x.numerator x.denominator_pos places
  constructor
  · refine ⟨form precision, ?_, ?_, hrounds precision⟩
    · exact toList_write_float (d := { d with conversion := .exponential upper }) hwidth rfl hfinite
        (exponentialBody_eq _ x precision)
    · exact Form.exponential_ofDigits (hnormal precision)
  -- the shorter notation is one of the number that the exponential one rounds to
  · let s := x.scientific (significant - 1)
    have hlog : Int.log 10 (value ((form (significant - 1)).toList mark)) = s.exponent := by
      rw [hvalue]
      exact log_scientific x.numerator x.denominator_pos (significant - 1)
    refine ⟨generalForm d.flags.alternate s significant, form (significant - 1), ?_, ?_,
      hrounds (significant - 1), ?_, ?_⟩
    · exact toList_write_float (d := { d with conversion := .general upper }) hwidth rfl hfinite
        (generalBody_eq _ x precision)
    · exact toList_write_float
        (d := { d with conversion := .exponential upper, precision := some (significant - 1) })
        hwidth rfl hfinite (exponentialBody_eq _ x (significant - 1))
    · rw [value_generalForm _ _ hsignificant hmark, hvalue]
    · rw [hlog]
      exact general_generalForm _ hsignificant (hnormal (significant - 1))

/-- Rounding 999.9 to three digits carries into the next power of ten, which is then written. -/
theorem write_rounded_of_carry :
    let d : Directive := { precision := some 3, conversion := .general false }
    let x : Binary64 := ⟨0x408F3F3333333333⟩
    d.width = none ∧ x.isFinite = true ∧ d.write (.float x) = "1e+03" ∧
      { d with conversion := .exponential false, precision := some 2 }.write (.float x) =
        "1.00e+03" ∧
      RoundsTo 2 x.magnitude (value "1e+03".toList) := by
  intro d x
  have hfinite : x.isFinite = true := by decide
  have hshort : d.write (.float x) = "1e+03" := by decide +kernel
  have hlong : { d with conversion := .exponential false, precision := some 2 }.write (.float x) =
      "1.00e+03" := by decide +kernel
  refine ⟨rfl, hfinite, hshort, hlong, ?_⟩
  obtain ⟨-, f, g, hf, -, hrounds, hvalue, -⟩ := write_rounded (d := d) rfl hfinite false
  -- neither text has a sign
  have hf : "1e+03".toList = f.toList 'e' := by rw [← hshort]; exact hf
  rw [hf]
  exact (congrArg (RoundsTo 2 x.magnitude) hvalue).mpr hrounds

end Directive

end BinaryLog
