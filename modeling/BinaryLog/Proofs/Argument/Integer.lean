import BinaryLog.Argument.Rendering
import BinaryLog.Proofs.Text.Numeral

namespace BinaryLog.Directive

/-!
# Integers as text

* `integer`, the integer that a directive shows of the bits of its argument;
* `ShowsDigits`, what digits are shown of it, `shownSign` and `shownMark`, what stands before them;
* `showsDigits_extendDigits`, the digits that are written are those;
* `field_eq_integerField`, the field that an integer or a pointer becomes;
* `write_integer`, what integers and pointers without a width are written as.
-/

/-! ### The integer that is shown -/

/-- The conversions of integers and pointers. -/
def integerConversions : List Conversion :=
  [.decimal, .integer, .unsigned, .octal, .hex false, .hex true, .pointer]

/-- Of the 64 bits of an argument, the number of those that count. -/
def bitCount (d : Directive) : Nat := if d.conversion = .pointer then 64 else d.length.bits

/-- The integer that the bits which count stand for: in two's complement for the signed
    conversions. -/
def integer (d : Directive) (bits : UInt64) : Int :=
  if d.argKind = .signed then (bits.toNat : Int).bmod (2 ^ d.bitCount)
  else (bits.toNat : Int) % 2 ^ d.bitCount

variable {d : Directive}

/-- The length counts for all integers; a pointer has 64 bits whatever its length says. -/
theorem bitCount_of_argKind {kind : ArgKind} (h : d.argKind = kind) (hkind : kind ≠ .pointer) :
    d.bitCount = d.length.bits :=
  if_neg fun hpointer => hkind (by rw [← h, Directive.argKind, hpointer]; rfl)

/-- For the signed conversions, the bits that count are cut out and sign-extended. -/
theorem integer_of_signed (h : d.argKind = .signed) (bits : UInt64) :
    d.integer bits = d.signedValue bits := by
  rw [integer, if_pos h, bitCount_of_argKind h (by decide), signedValue, BitVec.toInt_setWidth]
  rfl

/-- For the unsigned conversions, the bits that count are cut out. -/
theorem integer_of_unsigned (h : d.argKind = .unsigned) (bits : UInt64) :
    d.integer bits = d.unsignedValue bits := by
  rw [integer, if_neg (by rw [h]; decide), bitCount_of_argKind h (by decide), unsignedValue,
    BitVec.toNat_setWidth]
  simp

/-- Of a pointer all bits count. -/
theorem integer_of_pointer (h : d.conversion = .pointer) (bits : UInt64) :
    d.integer bits = bits.toNat := by
  have hbits : bits.toNat < 2 ^ 64 := bits.toNat_lt
  rw [integer, if_neg (by rw [Directive.argKind, h]; decide), bitCount, if_pos h]
  omega

/-! ### Digits -/

/-- The base that integers are shown in. -/
def base (d : Directive) : Nat :=
  match d.conversion with
  | .octal => 8
  | .hex _ | .pointer => 16
  | _ => 10

/-- The digits that are shown of an integer: its numeral, with zeros in front up to the precision.
    Only zero at precision zero has none. -/
structure ShowsDigits (d : Directive) (v : Int) (digits : List Char) : Prop where
  eq_nil_iff : digits = [] ↔ v = 0 ∧ d.precision = some 0
  extends_numeral : digits ≠ [] → ∃ numeral,
    Numeral.Spells d.base (d.conversion = .hex true) v.natAbs numeral ∧
      digits = List.replicate (d.precision.getD 0 - numeral.length) '0' ++ numeral
  value_eq : Numeral.value d.base digits = v.natAbs

/-- What a precision makes of a numeral. -/
theorem extendDigits_eq (numeral : List Char) (precision : Option Nat) :
    extendDigits numeral precision =
      if numeral = ['0'] ∧ precision = some 0 then []
      else List.replicate (precision.getD 0 - numeral.length) '0' ++ numeral := by
  cases precision with
  | none => simp [extendDigits]
  | some least =>
    cases least with
    | zero => simp [extendDigits]
    | succ least => simp [extendDigits, Numeral.extend_eq]

/-- **The digits that are written** are a numeral that the precision extends. -/
theorem showsDigits_extendDigits {v : Int} {numeral : List Char}
    (h : Numeral.Spells d.base (d.conversion = .hex true) v.natAbs numeral) :
    d.ShowsDigits v (extendDigits numeral d.precision) := by
  -- only the numeral of zero may be left out, and only at precision zero
  have hzero : numeral = ['0'] ↔ v = 0 := by rw [h.eq_zero_iff, Int.natAbs_eq_zero]
  simp only [extendDigits_eq, hzero]
  by_cases hnone : v = 0 ∧ d.precision = some 0
  · rw [if_pos hnone]
    exact ⟨by simp [hnone], fun hne => absurd rfl hne, by rw [hnone.1]; rfl⟩
  · rw [if_neg hnone]
    refine ⟨by simp [h.nonempty, hnone], fun _ => ⟨numeral, h, rfl⟩, ?_⟩
    rw [Numeral.value_zeros_append, h.value_eq]

/-! ### Signs and marks -/

/-- The sign of an integer, which only the signed conversions show. -/
def shownSign (d : Directive) (v : Int) : List Char :=
  if d.argKind = .signed then
    if v < 0 then ['-']
    else if d.flags.forceSign then ['+']
    else if d.flags.spaceSign then [' ']
    else []
  else []

/-- The mark of the base before the digits. The alternate form of an octal number begins with a
    zero, and that of a hexadecimal number other than zero with `0x`, as every pointer does. -/
def shownMark (d : Directive) (v : Int) (digits : List Char) : List Char :=
  match d.conversion with
  | .octal => if d.flags.alternate ∧ digits.head? ≠ some '0' then ['0'] else []
  | .hex upper => if d.flags.alternate ∧ v ≠ 0 then ['0', if upper then 'X' else 'x'] else []
  | .pointer => ['0', 'x']
  | _ => []

/-- The zero that marks an octal number does not change it. -/
theorem value_octalMark (h : d.conversion = .octal) (v : Int) (digits : List Char) :
    Numeral.value d.base (d.shownMark v digits ++ digits) = Numeral.value d.base digits := by
  simp only [shownMark, h]
  split
  · exact Numeral.value_zeros_append _ 1 _
  · rfl

/-- The numeral of an integer in the base and the case of the conversion. -/
def numeral (d : Directive) (v : Int) : List Char :=
  if d.conversion = .hex true then Numeral.upperChars 16 v.natAbs
  else Numeral.chars d.base v.natAbs

/-- The numeral of a conversion is that of its base and its case. -/
theorem spells_numeral (d : Directive) (v : Int) :
    Numeral.Spells d.base (d.conversion = .hex true) v.natAbs (d.numeral v) := by
  by_cases hupper : d.conversion = .hex true
  · have hbase : d.base = 16 := by rw [base, hupper]
    rw [numeral, if_pos hupper, hbase, decide_eq_true hupper]
    exact Numeral.spells_upperChars (by decide) (by decide) v.natAbs
  · have hbase : 1 < d.base ∧ d.base ≤ 16 := by
      rw [base]
      split <;> decide
    rw [numeral, if_neg hupper, decide_eq_false hupper]
    exact Numeral.spells_chars hbase.1 hbase.2 v.natAbs

/-! ### Fields of integers -/

/-- Sign, mark and digits of an integer. -/
def integerText (d : Directive) (v : Int) : List Char :=
  let digits := extendDigits (d.numeral v) d.precision
  d.shownSign v ++ (d.shownMark v digits ++ digits)

/-- The field of an integer. Zeros fill it behind the sign and the mark, but the zero that marks an
    octal number counts among the digits. -/
def integerField (d : Directive) (v : Int) : Field :=
  let digits := extendDigits (d.numeral v) d.precision
  let mark := d.shownMark v digits
  { lead := d.shownSign v ++ if d.conversion = .octal then [] else mark
    body := (if d.conversion = .octal then mark else []) ++ digits
    takesZeros := d.precision.isNone }

/-- The text of the field is the sign, the mark and the digits, in whichever part of it the mark
    stands. -/
theorem text_integerField (d : Directive) (v : Int) :
    (d.integerField v).text = d.integerText v := by
  rw [integerField, integerText, Field.text]
  split <;> simp

/-- Signed integers are written as their sign and their decimal digits. -/
theorem signedField_eq (h : d.argKind = .signed) (bits : UInt64) :
    d.signedField bits = d.integerField (d.integer bits) := by
  have hconversion : d.conversion = .decimal ∨ d.conversion = .integer := by
    cases hc : d.conversion <;> simp [Directive.argKind, Conversion.argKind, hc] at h ⊢
  rw [integer_of_signed h, integerField, shownSign, if_pos h]
  obtain hc | hc := hconversion <;> simp [signedField, Flags.sign, shownMark, numeral, base, hc]

/-- Unsigned integers are written in the base of their conversion, behind its mark. -/
theorem unsignedField_eq (h : d.argKind = .unsigned) (bits : UInt64) :
    d.unsignedField bits = d.integerField (d.integer bits) := by
  rw [integer_of_unsigned h, integerField, shownSign, if_neg (by rw [h]; decide)]
  -- each base has a mark of its own, and that of the octal one depends on the digits
  cases hc : d.conversion with
  | unsigned => simp [unsignedField, shownMark, numeral, base, hc]
  | octal =>
    simp only [unsignedField, octalDigits, shownMark, numeral, base, hc, Int.natAbs_natCast]
    by_cases hmark : d.flags.alternate ∧
        (extendDigits (Numeral.chars 8 (d.unsignedValue bits)) d.precision).head? ≠ some '0' <;>
      simp [hmark]
  | hex upper => cases upper <;> simp [unsignedField, shownMark, numeral, base, hc]
  | _ => simp [Directive.argKind, Conversion.argKind, hc] at h

/-- Pointers are written as hexadecimal digits that always have their mark, and never a sign. -/
theorem pointerField_eq (h : d.conversion = .pointer) {bits : UInt64} (hbits : bits ≠ 0) :
    d.pointerField bits = d.integerField (d.integer bits) := by
  rw [integer_of_pointer h, pointerField, if_neg hbits]
  simp [integerField, shownSign, shownMark, numeral, base, Directive.argKind, Conversion.argKind, h]

/-- **The field that an integer or a pointer becomes.** -/
theorem field_eq_integerField (h : d.conversion ∈ integerConversions) (a : Argument) :
    d.field a =
      if d.conversion = .pointer ∧ d.integer a.bits = 0 then { body := "(nil)".toList }
      else d.integerField (d.integer a.bits) := by
  by_cases hpointer : d.conversion = .pointer
  · -- a pointer is never narrowed, so it is null exactly if its bits are
    have hzero : a.bits = 0 ↔ d.integer a.bits = 0 := by
      rw [integer_of_pointer hpointer, Int.natCast_eq_zero]
      exact UInt64.toNat_inj.symm
    have hfield : d.field a = d.pointerField a.bits := by
      rw [field, Directive.argKind, hpointer]
      rfl
    rw [hfield]
    split
    · rename_i hnil
      rw [pointerField, if_pos (hzero.mpr hnil.2)]
    · rename_i hnil
      exact pointerField_eq hpointer fun hbits => hnil ⟨hpointer, hzero.mp hbits⟩
  · rw [if_neg fun hnil => hpointer hnil.1]
    have hkind : d.argKind = .signed ∨ d.argKind = .unsigned := by
      simp only [integerConversions, List.mem_cons, List.not_mem_nil, or_false] at h
      rcases h with h | h | h | h | h | h | h <;>
        simp_all [Directive.argKind, Conversion.argKind]
    obtain hsigned | hunsigned := hkind
    · rw [field, hsigned]
      exact signedField_eq hsigned a.bits
    · rw [field, hunsigned]
      exact unsignedField_eq hunsigned a.bits

/-! ### Integers without a width -/

/-- A field without a least width is not filled. -/
theorem toList_write (hwidth : d.width = none) (a : Argument) :
    (d.write a).toList = (d.field a).text := by
  have hfill (f : Field) (flags : Flags) : f.fill flags 0 = f.text := by
    simp only [Field.fill, Nat.zero_sub, List.replicate_zero, List.append_nil, List.nil_append]
    split
    · rfl
    · split <;> rfl
  rw [write, String.toList_ofList, hwidth]
  exact hfill _ _

/-- The text of the field that an integer or a pointer becomes. -/
theorem text_field (h : d.conversion ∈ integerConversions) (a : Argument) :
    (d.field a).text =
      if d.conversion = .pointer ∧ d.integer a.bits = 0 then "(nil)".toList
      else d.integerText (d.integer a.bits) := by
  rw [field_eq_integerField h]
  split
  · rfl
  · exact d.text_integerField _

/-- **Integers as text.** Where no width is given, the null pointer is written by its name, and any
    other integer or pointer as its sign, the mark of its base and its digits. The digits, also
    behind the zero that marks an octal number, stand for the magnitude. -/
theorem write_integer (h : d.conversion ∈ integerConversions) (hwidth : d.width = none)
    (a : Argument) :
    let v := d.integer a.bits
    if d.conversion = .pointer ∧ v = 0 then d.write a = "(nil)"
    else ∃ digits, d.ShowsDigits v digits ∧
      (d.write a).toList = d.shownSign v ++ (d.shownMark v digits ++ digits) ∧
      (d.conversion = .octal →
        Numeral.value d.base (d.shownMark v digits ++ digits) = v.natAbs) := by
  intro v
  have htext := text_field h a
  rw [← toList_write hwidth] at htext
  split
  · rename_i hnil
    rw [if_pos hnil] at htext
    exact String.toList_inj.mp htext
  · rename_i hnil
    rw [if_neg hnil] at htext
    have hdigits := showsDigits_extendDigits (d.spells_numeral v)
    refine ⟨_, hdigits, htext, fun hoctal => ?_⟩
    rw [value_octalMark hoctal, hdigits.value_eq]

/-- The most negative value of eight bits, and zero at precision zero, which a mark still shows. -/
theorem write_integer_at_the_edges :
    let least : Directive := { length := .char, conversion := .decimal }
    let zero : Directive :=
      { flags := { alternate := true }, precision := some 0, conversion := .octal }
    let null : Directive := { flags := { forceSign := true }, conversion := .pointer }
    (least.integer 0xFFFFFFFFFFFFFF80 = -128 ∧ least.write (.uint 0xFFFFFFFFFFFFFF80) = "-128" ∧
      ∃ digits, least.ShowsDigits (-128) digits ∧ ['-', '1', '2', '8'] = ['-'] ++ digits) ∧
    (zero.write (.int 0) = "0" ∧ zero.ShowsDigits 0 []) ∧
    null.write (.uint 0) = "(nil)" := by
  intro least zero null
  have hvalue : least.integer (Argument.uint 0xFFFFFFFFFFFFFF80).bits = -128 := by decide
  have hleast : least.write (.uint 0xFFFFFFFFFFFFFF80) = "-128" := by decide +kernel
  have hzero : zero.write (.int 0) = "0" := by decide +kernel
  refine ⟨⟨hvalue, hleast, ?_⟩, ⟨hzero, ?_⟩, write_integer (d := null) (by decide) rfl (.uint 0)⟩
  · obtain ⟨digits, hdigits, htext, -⟩ :=
      write_integer (d := least) (by decide) rfl (.uint 0xFFFFFFFFFFFFFF80)
    rw [hvalue] at hdigits htext
    rw [hleast] at htext
    exact ⟨digits, hdigits, htext⟩
  · obtain ⟨digits, hdigits, -⟩ := write_integer (d := zero) (by decide) rfl (.int 0)
    obtain rfl := hdigits.eq_nil_iff.mpr ⟨rfl, rfl⟩
    exact hdigits

end BinaryLog.Directive
