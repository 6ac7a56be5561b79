import BinaryLog.Proofs.Argument.Float

namespace BinaryLog

/-!
# Filling fields

* `Field.leadOf`, the sign and the mark that a text begins with, and `Field.trimBlanks`, a text
  without the blanks around it;
* `Field.Numeric`, the fields of numbers, whose text tells what leads it: `leadOf_append`;
* `Directive.numeric_field`, numbers and pointers become such fields;
* `Directive.reading`, the number that is read from a text, which `reading_fill` does not change;
* `Directive.write_filled`, what a width adds to the text of a number or a pointer.
-/

namespace Field

/-! ### Texts of numbers -/

/-- May the character stand for the sign of a number? -/
def isSign (c : Char) : Bool := c == '-' || c == '+' || c == ' '

/-- The mark of hexadecimal digits that a text begins with. -/
def markOf : List Char → List Char
  | '0' :: 'x' :: _ => ['0', 'x']
  | '0' :: 'X' :: _ => ['0', 'X']
  | _ => []

/-- The sign and the mark that a text begins with. -/
def leadOf : List Char → List Char
  | [] => []
  | c :: cs => if isSign c then c :: markOf cs else markOf (c :: cs)

/-- The text without blanks at its ends. -/
def trimBlanks (text : List Char) : List Char :=
  (text.dropWhile (· == ' ')).rdropWhile (· == ' ')

/-- The signs of numbers, of which one is not written. -/
def signs : List (List Char) := [[], ['-'], ['+'], [' ']]

/-- The marks of bases, of which one is not written. -/
def marks : List (List Char) := [[], ['0', 'x'], ['0', 'X']]

/-- What may follow a sign and a mark: nothing that belongs to another one, and no blank. -/
structure Bare (text : List Char) : Prop where
  no_sign : text.head?.any isSign = false
  no_mark : 'x' ∉ text ∧ 'X' ∉ text
  no_blank : ' ' ∉ text

/-- The text without this many zeros behind its sign and its mark. -/
def dropZeros (count : ℕ) (text : List Char) : List Char :=
  leadOf text ++ text.drop ((leadOf text).length + count)

variable {sign mark text : List Char}

namespace Bare

/-- A bare text begins with no mark. -/
theorem markOf_eq_nil (h : Bare text) : markOf text = [] := by
  rw [markOf.eq_def]
  split
  · exact absurd (by simp) h.no_mark.1
  · exact absurd (by simp) h.no_mark.2
  · rfl

/-- Zeros in front belong to no sign and to no mark. -/
theorem zeros_append (h : Bare text) (count : ℕ) : Bare (List.replicate count '0' ++ text) := by
  have hzeros {c : Char} (hc : c ≠ '0') (htext : c ∉ text) :
      c ∉ List.replicate count '0' ++ text := by
    intro hmem
    obtain hmem | hmem := List.mem_append.mp hmem
    · exact hc (List.eq_of_mem_replicate hmem)
    · exact htext hmem
  refine ⟨?_, ⟨hzeros (by decide) h.no_mark.1, hzeros (by decide) h.no_mark.2⟩,
    hzeros (by decide) h.no_blank⟩
  -- with no zeros in front, what is first is what was first before
  cases count with
  | zero => exact h.no_sign
  | succ count => rfl

/-- Digits belong to no sign and to no mark. -/
theorem of_digits {base : ℕ} {upper : Bool}
    (h : ∀ c ∈ text, c ∈ (Numeral.alphabet upper).take base) : Bare text := by
  have hforeign {c : Char} (hc : c ∉ Numeral.alphabet upper) : c ∉ text := fun hmem =>
    hc (List.mem_of_mem_take (h c hmem))
  have hsigns : (Numeral.alphabet upper).all (!isSign ·) = true := by cases upper <;> decide
  refine ⟨?_, ⟨hforeign ?_, hforeign ?_⟩, hforeign ?_⟩
  · cases text with
    | nil => rfl
    | cons c text =>
      have hmem := List.mem_of_mem_take (h c List.mem_cons_self)
      simpa using List.all_eq_true.mp hsigns c hmem
  all_goals cases upper <;> decide

/-- So do decimal notations, which begin with a digit. -/
theorem of_form (f : Decimal.Form) {mark : Char} (hmark : Decimal.isMark mark = true) :
    Bare (f.toList mark) := by
  obtain ⟨digit, rest, hcons, hdigit⟩ := f.exists_cons_toList mark
  have hdigits : ∀ c ∈ [digit], c ∈ (Numeral.alphabet false).take 10 := by
    intro c hc
    rw [List.mem_singleton.mp hc]
    exact hdigit
  have hforeign {c : Char} := Decimal.Form.not_mem_toList (f := f) (c := c) hmark
  refine ⟨?_, ⟨hforeign ?_ rfl ?_, hforeign ?_ rfl ?_⟩, hforeign ?_ rfl ?_⟩
  · rw [hcons]
    exact (of_digits hdigits).no_sign
  all_goals decide

end Bare

/-- A mark in front of a bare text is told from it. -/
theorem markOf_append (hmark : mark ∈ marks) (h : Bare text) :
    markOf (mark ++ text) = mark := by
  simp only [marks, List.mem_cons, List.not_mem_nil, or_false] at hmark
  obtain rfl | rfl | rfl := hmark
  · exact h.markOf_eq_nil
  · rfl
  · rfl

/-- A mark and what follows it have no sign in front. -/
theorem no_sign_append (hmark : mark ∈ marks) (h : Bare text) :
    (mark ++ text).head?.any isSign = false := by
  simp only [marks, List.mem_cons, List.not_mem_nil, or_false] at hmark
  obtain rfl | rfl | rfl := hmark
  · exact h.no_sign
  · rfl
  · rfl

/-- **What leads a text** is told by the text. -/
theorem leadOf_append (hsign : sign ∈ signs) (hmark : mark ∈ marks) (h : Bare text) :
    leadOf (sign ++ mark ++ text) = sign ++ mark := by
  have hmarkOf := markOf_append hmark h
  simp only [signs, List.mem_cons, List.not_mem_nil, or_false] at hsign
  rw [List.append_assoc]
  obtain rfl | rfl | rfl | rfl := hsign
  · have hhead := no_sign_append hmark h
    rw [List.nil_append, List.nil_append]
    generalize mark ++ text = rest at hmarkOf hhead
    cases rest with
    | nil => exact hmarkOf
    | cons c rest =>
      have hsign : isSign c = false := hhead
      rw [leadOf, hsign, if_neg Bool.false_ne_true]
      exact hmarkOf
  · exact congrArg ('-' :: ·) hmarkOf
  · exact congrArg ('+' :: ·) hmarkOf
  · exact congrArg (' ' :: ·) hmarkOf

/-! ### Blanks -/

/-- Blanks in front are trimmed, however many there are. -/
theorem trimBlanks_blanks_append (count : ℕ) (text : List Char) :
    trimBlanks (List.replicate count ' ' ++ text) = trimBlanks text := by
  rw [trimBlanks, List.dropWhile_append_of_pos fun c hc => by rw [List.eq_of_mem_replicate hc]; rfl]
  rfl

/-- So are blanks behind. -/
theorem trimBlanks_append_blanks (text : List Char) (count : ℕ) :
    trimBlanks (text ++ List.replicate count ' ') = trimBlanks text := by
  have hblanks : ∀ c ∈ List.replicate count ' ', (c == ' ') = true := fun c hc => by
    rw [List.eq_of_mem_replicate hc]
    rfl
  -- trimming in front stops within the text, or there is nothing but blanks
  rw [trimBlanks, trimBlanks, List.dropWhile_append]
  split
  · rename_i hnil
    rw [List.isEmpty_iff.mp hnil, List.dropWhile_eq_nil_iff.mpr hblanks]
  · rw [List.rdropWhile, List.reverse_append, List.reverse_replicate,
      List.dropWhile_append_of_pos hblanks]
    rfl

/-- Where there is no blank, nothing is trimmed. -/
theorem trimBlanks_of_no_blank (h : ' ' ∉ text) : trimBlanks text = text := by
  have hne {c : Char} (hc : c ∈ text) : (c == ' ') = false :=
    beq_eq_false_iff_ne.mpr fun hblank => h (hblank ▸ hc)
  have hfirst : text.dropWhile (· == ' ') = text := by
    rw [List.dropWhile_eq_self_iff]
    intro hlength
    rw [hne (List.getElem_mem hlength)]
    exact Bool.false_ne_true
  have hlast : text.rdropWhile (· == ' ') = text := by
    rw [List.rdropWhile_eq_self_iff]
    intro hlast
    rw [hne (List.getLast_mem hlast)]
    exact Bool.false_ne_true
  rw [trimBlanks, hfirst, hlast]

theorem no_blank_append (hmark : mark ∈ marks) (h : Bare text) :
    ' ' ∉ mark ++ text := by
  have hmarks : ∀ mark ∈ marks, ' ' ∉ mark := by decide
  intro hmem
  obtain hmem | hmem := List.mem_append.mp hmem
  · exact hmarks mark hmark hmem
  · exact h.no_blank hmem

/-- Of a number without fill, at most a blank for its sign is trimmed. -/
theorem trimBlanks_append (hsign : sign ∈ signs) (hmark : mark ∈ marks) (h : Bare text) :
    trimBlanks (sign ++ mark ++ text) = (if sign = [' '] then [] else sign) ++ mark ++ text := by
  have hrest := no_blank_append hmark h
  simp only [signs, List.mem_cons, List.not_mem_nil, or_false] at hsign
  rw [List.append_assoc, List.append_assoc]
  obtain rfl | rfl | rfl | rfl := hsign
  · exact trimBlanks_of_no_blank hrest
  · exact trimBlanks_of_no_blank (List.not_mem_cons_of_ne_of_not_mem (by decide) hrest)
  · exact trimBlanks_of_no_blank (List.not_mem_cons_of_ne_of_not_mem (by decide) hrest)
  · exact (trimBlanks_blanks_append 1 _).trans (trimBlanks_of_no_blank hrest)

/-! ### Fields of numbers -/

/-- The field of a number in the given base. If it takes zeros, then a digit is first behind its
    sign and its mark. -/
structure Numeric (base : ℕ) (f : Field) : Prop where
  lead : ∃ sign ∈ signs, ∃ mark ∈ marks, f.lead = sign ++ mark
  bare : Bare f.body
  digit : f.takesZeros = true →
    ∃ digit rest, f.body = digit :: rest ∧ Numeral.digitValue digit < base

variable {base : ℕ} {f : Field}

namespace Numeric

/-- Zeros before the digits are none of what leads the text. -/
theorem leadOf_zeros (h : f.Numeric base) (count : ℕ) :
    leadOf (f.lead ++ (List.replicate count '0' ++ f.body)) = f.lead := by
  obtain ⟨sign, hsign, mark, hmark, hlead⟩ := h.lead
  rw [hlead, leadOf_append hsign hmark (h.bare.zeros_append count)]

/-- What leads the text of a number is told by the text. -/
theorem leadOf_text (h : f.Numeric base) : leadOf f.text = f.lead := h.leadOf_zeros 0

/-- **Zeros that fill a field** can be told from its own digits by their number. -/
theorem dropZeros_zeros (h : f.Numeric base) (count : ℕ) :
    dropZeros count (f.lead ++ (List.replicate count '0' ++ f.body)) = f.text := by
  have hdrop : (f.lead ++ (List.replicate count '0' ++ f.body)).drop (f.lead.length + count) =
      f.body := by
    rw [← List.append_assoc]
    exact List.drop_left' (by simp)
  rw [dropZeros, h.leadOf_zeros, hdrop, text]

/-- A number has no blanks around it, except for one in place of a sign. -/
theorem trimBlanks_text (h : f.Numeric base) (hhead : f.text.head? ≠ some ' ') :
    trimBlanks f.text = f.text := by
  obtain ⟨sign, hsign, mark, hmark, hlead⟩ := h.lead
  rw [text, hlead] at hhead ⊢
  rw [trimBlanks_append hsign hmark h.bare, if_neg]
  rintro rfl
  exact hhead rfl

end Numeric

variable {flags : Flags}

/-! ### Filled fields -/

/-- Alignment to the left overrides zeros: the blanks are behind. -/
theorem fill_of_left (h : flags.leftAlign = true) (f : Field) (width : ℕ) :
    f.fill flags width = f.text ++ List.replicate (width - f.text.length) ' ' := by
  rw [fill, if_pos h]

/-- Zeros stand between what leads the text and its digits. -/
theorem fill_of_zeros (hleft : flags.leftAlign = false)
    (h : (flags.zeroPad && f.takesZeros) = true) (width : ℕ) : f.fill flags width =
      f.lead ++ (List.replicate (width - f.text.length) '0' ++ f.body) := by
  rw [fill, if_neg (by rw [hleft]; exact Bool.false_ne_true), if_pos h, List.append_assoc]

/-- Without alignment or zeros the blanks are in front. -/
theorem fill_of_right (hleft : flags.leftAlign = false)
    (h : ¬ (flags.zeroPad && f.takesZeros) = true) (width : ℕ) :
    f.fill flags width = List.replicate (width - f.text.length) ' ' ++ f.text := by
  rw [fill, if_neg (by rw [hleft]; exact Bool.false_ne_true), if_neg h]

/-- A filled text is as long as the width says, unless it is longer without. -/
theorem length_fill (f : Field) (flags : Flags) (width : ℕ) :
    (f.fill flags width).length = max width f.text.length := by
  -- whichever fill is taken, it is as long as what is missing
  have hmissing : f.text.length + (width - f.text.length) = max width f.text.length := by omega
  have htext : f.text.length = f.lead.length + f.body.length := List.length_append
  rw [← hmissing]
  cases hleft : flags.leftAlign with
  | true => rw [fill_of_left hleft, List.length_append, List.length_replicate]
  | false =>
    by_cases hzeros : (flags.zeroPad && f.takesZeros) = true
    · rw [fill_of_zeros hleft hzeros, List.length_append, List.length_append,
        List.length_replicate]
      omega
    · rw [fill_of_right hleft hzeros, List.length_append, List.length_replicate, Nat.add_comm]

/-- **Blanks that fill a field** can be trimmed. -/
theorem trimBlanks_fill (h : ¬ (flags.leftAlign = false ∧ (flags.zeroPad && f.takesZeros) = true))
    (width : ℕ) : trimBlanks (f.fill flags width) = trimBlanks f.text := by
  cases hleft : flags.leftAlign with
  | true => rw [fill_of_left hleft, trimBlanks_append_blanks]
  | false => rw [fill_of_right hleft fun hzeros => h ⟨hleft, hzeros⟩, trimBlanks_blanks_append]

end Field

namespace Directive

open BinaryLog.Field

variable {d : Directive}

/-- The conversions of numbers and pointers. -/
def numericConversions : List Conversion :=
  integerConversions ++ [.fixed false, .fixed true, .exponential false, .exponential true,
    .general false, .general true]

/-- Do zeros fill the field of this argument? They are asked for by a flag, which alignment to the
    left overrides. They are not taken where an integer has a precision, or where there is no number
    to be seen: for the null pointer, infinities and NaN. -/
def ZeroFills (d : Directive) (a : Argument) : Prop :=
  d.flags.leftAlign = false ∧ d.flags.zeroPad = true ∧
    if d.argKind = .float then a.toFloat.isFinite = true
    else d.precision = none ∧ ¬ (d.conversion = .pointer ∧ d.integer a.bits = 0)

/-! ### What numbers become -/

/-- The flags choose one of the four signs. -/
theorem sign_mem_signs (flags : Flags) (negative : Bool) : flags.sign negative ∈ signs := by
  rw [Flags.sign]
  split
  · decide
  · split
    · decide
    · split <;> decide

/-- Only a negative number has the sign of one. -/
theorem sign_eq_minus_iff (flags : Flags) (negative : Bool) :
    flags.sign negative = ['-'] ↔ negative = true := by
  rw [Flags.sign]
  cases negative with
  | true => simp
  | false => cases flags.forceSign <;> cases flags.spaceSign <;> simp

/-- Only signed conversions show a sign, which is the one of the flags. -/
theorem shownSign_eq (d : Directive) (v : ℤ) :
    d.shownSign v = if d.argKind = .signed then d.flags.sign (v < 0) else [] := by
  simp [shownSign, Flags.sign]

/-- The sign of an integer is one of the four. -/
theorem shownSign_mem_signs (d : Directive) (v : ℤ) : d.shownSign v ∈ signs := by
  rw [shownSign_eq]
  split
  · exact sign_mem_signs _ _
  · decide

/-- Zero is a digit in every base. -/
theorem zero_mem_take_base (d : Directive) (upper : Bool) :
    '0' ∈ (Numeral.alphabet upper).take d.base := by
  rw [base]
  split <;> cases upper <;> decide

/-- A precision adds nothing but zeros, so the numeral keeps to the digits of its base. -/
theorem extendDigits_digits {base : ℕ} {upper : Bool} {numeral : List Char}
    (hzero : '0' ∈ (Numeral.alphabet upper).take base)
    (h : ∀ c ∈ numeral, c ∈ (Numeral.alphabet upper).take base) (precision : Option ℕ) :
    ∀ c ∈ extendDigits numeral precision, c ∈ (Numeral.alphabet upper).take base := by
  intro c hc
  rw [extendDigits_eq] at hc
  split at hc
  · cases hc
  · obtain hc | hc := List.mem_append.mp hc
    · rwa [List.eq_of_mem_replicate hc]
    · exact h c hc

/-- The mark that zeros stay behind. -/
theorem mark_mem_marks (d : Directive) (v : ℤ) (digits : List Char) :
    (if d.conversion = .octal then [] else d.shownMark v digits) ∈ marks := by
  split
  · decide
  · rename_i hoctal
    rw [shownMark]
    split
    · exact absurd ‹_› hoctal
    · rename_i upper _
      split <;> cases upper <;> decide
    · decide
    · decide

/-- The mark that counts among the digits is a zero. -/
theorem eq_zero_of_mem_octalMark {v : ℤ} {digits : List Char} {c : Char}
    (hc : c ∈ if d.conversion = .octal then d.shownMark v digits else []) : c = '0' := by
  split at hc
  · rename_i hoctal
    rw [shownMark, hoctal] at hc
    dsimp only at hc
    split at hc
    · exact List.mem_singleton.mp hc
    · cases hc
  · cases hc

/-- **Integers** become fields of numbers. -/
theorem numeric_integerField (d : Directive) (v : ℤ) : (d.integerField v).Numeric d.base := by
  have hnumeral := d.spells_numeral v
  have hzero := d.zero_mem_take_base (d.conversion = .hex true)
  have hbody : ∀ c ∈ (d.integerField v).body,
      c ∈ (Numeral.alphabet (d.conversion = .hex true)).take d.base := by
    intro c hc
    obtain hc | hc := List.mem_append.mp hc
    · rwa [eq_zero_of_mem_octalMark hc]
    · exact extendDigits_digits hzero hnumeral.digits d.precision c hc
  refine ⟨⟨_, d.shownSign_mem_signs v, _, d.mark_mem_marks v _, rfl⟩, Bare.of_digits hbody,
    fun htakes => ?_⟩
  -- a field that takes zeros shows its whole numeral
  have hne : (d.integerField v).body ≠ [] := by
    rw [integerField, Option.isNone_iff_eq_none.mp htakes]
    exact List.append_ne_nil_of_right_ne_nil _ hnumeral.nonempty
  obtain ⟨digit, rest, hcons⟩ := List.exists_cons_of_ne_nil hne
  exact ⟨digit, rest, hcons, Numeral.digitValue_lt (hbody digit (hcons ▸ List.mem_cons_self))⟩

/-- Finite magnitudes are written in a decimal notation. -/
theorem exists_floatBody_eq (d : Directive) (x : Binary64) :
    ∃ f : Decimal.Form, d.floatBody x = f.toList 'e' := by
  rw [floatBody]
  split
  · exact ⟨_, d.exponentialBody_eq x _⟩
  · exact ⟨_, d.generalBody_eq x _⟩
  · exact ⟨_, d.fixedBody_eq x _⟩

/-- **Floating point numbers** become fields of numbers. -/
theorem numeric_floatField (d : Directive) (x : Binary64) : (d.floatField x).Numeric 10 := by
  have hlead : ∃ sign ∈ signs, ∃ mark ∈ marks, (d.floatField x).lead = sign ++ mark :=
    ⟨_, sign_mem_signs d.flags x.negative, [], by decide, (List.append_nil _).symm⟩
  by_cases hfinite : x.isFinite = true
  · obtain ⟨f, hf⟩ := d.exists_floatBody_eq x
    have hbody := body_floatField hfinite hf
    refine ⟨hlead, hbody ▸ Bare.of_form f (isMark_powerMark _), fun _ => ?_⟩
    obtain ⟨digit, rest, hcons, hdigit⟩ := f.exists_cons_toList (powerMark d.isUpper)
    exact ⟨digit, rest, hbody.trans hcons, Decimal.digitValue_lt_of_mem hdigit⟩
  · refine ⟨hlead, ?_, fun htakes => absurd htakes hfinite⟩
    -- the names of infinities and NaN have none of these letters
    have hname : (d.floatField x).body ∈
        ["nan".toList, "NAN".toList, "inf".toList, "INF".toList] := by
      rw [floatField]
      cases hnan : x.isNaN with
      | true => cases d.isUpper <;> simp only [if_true, if_false, Bool.false_eq_true] <;> decide
      | false =>
        cases hinfinite : x.isInfinite with
        | true => cases d.isUpper <;> simp only [if_true, if_false, Bool.false_eq_true] <;> decide
        | false => exact absurd (x.isFinite_iff.mpr ⟨hnan, hinfinite⟩) hfinite
    have hbare : ∀ name ∈ ["nan".toList, "NAN".toList, "inf".toList, "INF".toList],
        name.head?.any isSign = false ∧ ('x' ∉ name ∧ 'X' ∉ name) ∧ ' ' ∉ name := by decide
    obtain ⟨hsign, hmark, hblank⟩ := hbare _ hname
    exact ⟨hsign, hmark, hblank⟩

theorem argKind_ne_float (h : d.conversion ∈ integerConversions) : d.argKind ≠ .float := by
  have hkinds : ∀ conversion ∈ integerConversions, conversion.argKind ≠ .float := by decide
  exact hkinds d.conversion h

/-- A conversion of numbers is one of integers and pointers, or one of floating point numbers, which
    are shown in base ten. -/
theorem numeric_cases (h : d.conversion ∈ numericConversions) :
    d.conversion ∈ integerConversions ∨ d.argKind = .float ∧ d.base = 10 := by
  obtain h | h := List.mem_append.mp h
  · exact .inl h
  · right
    rw [Directive.argKind, base]
    simp only [List.mem_cons, List.not_mem_nil, or_false] at h
    obtain h | h | h | h | h | h := h <;> rw [h] <;> exact ⟨rfl, rfl⟩

theorem field_of_float (h : d.argKind = .float) (a : Argument) :
    d.field a = d.floatField a.toFloat := by
  rw [field, h]

/-- **Numbers and pointers** become fields of numbers. -/
theorem numeric_field (h : d.conversion ∈ numericConversions) (a : Argument) :
    (d.field a).Numeric d.base := by
  obtain hinteger | ⟨hfloat, hbase⟩ := numeric_cases h
  · rw [field_eq_integerField hinteger]
    split
    · have hnil : Bare "(nil)".toList := ⟨by decide, by decide, by decide⟩
      exact ⟨⟨[], by decide, [], by decide, rfl⟩, hnil, nofun⟩
    · exact d.numeric_integerField _
  · rw [field_of_float hfloat, hbase]
    exact d.numeric_floatField _

/-- **Which fields zeros fill.** -/
theorem zeroFills_iff (h : d.conversion ∈ numericConversions) (a : Argument) :
    d.ZeroFills a ↔
      d.flags.leftAlign = false ∧ (d.flags.zeroPad && (d.field a).takesZeros) = true := by
  have htakes : (d.field a).takesZeros = true ↔
      if d.argKind = .float then a.toFloat.isFinite = true
      else d.precision = none ∧ ¬ (d.conversion = .pointer ∧ d.integer a.bits = 0) := by
    obtain hinteger | ⟨hfloat, -⟩ := numeric_cases h
    · rw [if_neg (argKind_ne_float hinteger), field_eq_integerField hinteger]
      split
      · rename_i hnil
        exact ⟨nofun, fun hfills => absurd hnil hfills.2⟩
      · rename_i hnil
        exact Option.isNone_iff_eq_none.trans ⟨fun hnone => ⟨hnone, hnil⟩, And.left⟩
    · rw [if_pos hfloat, field_of_float hfloat]
      rfl
  rw [ZeroFills, Bool.and_eq_true, htakes]

/-! ### What is read -/

/-- The number that the digits behind a sign and a mark denote. -/
def magnitudeOf (d : Directive) (digits : List Char) : ℚ :=
  if d.argKind = .float then Decimal.value digits else Numeral.value d.base digits

/-- The number that a text denotes, with a sign and a mark, and with blanks around it. -/
def reading (d : Directive) (text : List Char) : ℚ :=
  let shown := trimBlanks text
  let lead := leadOf shown
  let magnitude := d.magnitudeOf (shown.drop lead.length)
  if '-' ∈ lead then -magnitude else magnitude

/-- Leading zeros denote nothing, in either way of reading digits. -/
theorem magnitudeOf_zeros_append (d : Directive) (count : ℕ) (digits : List Char) :
    d.magnitudeOf (List.replicate count '0' ++ digits) = d.magnitudeOf digits := by
  rw [magnitudeOf, magnitudeOf, Decimal.value_zeros_append, Numeral.value_zeros_append]

/-- **The number that is read** of a sign, a mark and digits. -/
theorem reading_append {sign mark text : List Char} (hsign : sign ∈ signs) (hmark : mark ∈ marks)
    (h : Bare text) : d.reading (sign ++ mark ++ text) =
      if sign = ['-'] then -d.magnitudeOf text else d.magnitudeOf text := by
  -- a blank that stands for a sign is trimmed with the others, so it is no sign of what is left
  let trimmed := if sign = [' '] then [] else sign
  have htrimmed : trimmed ∈ signs := by
    simp only [trimmed]
    split
    · decide
    · exact hsign
  have hnegative : '-' ∈ trimmed ++ mark ↔ sign = ['-'] := by
    have hall : ∀ sign ∈ signs, ∀ mark ∈ marks,
        '-' ∈ (if sign = [' '] then [] else sign) ++ mark ↔ sign = ['-'] := by decide
    exact hall sign hsign mark hmark
  rw [reading, trimBlanks_append hsign hmark h]
  simp only [leadOf_append htrimmed hmark h, List.drop_left, hnegative, trimmed]

/-- **No fill changes the number** that is read. -/
theorem reading_fill {base : ℕ} {f : Field} (h : f.Numeric base) (d : Directive) (flags : Flags)
    (width : ℕ) : d.reading (f.fill flags width) = d.reading f.text := by
  -- zeros are read as leading digits, blanks are not read at all
  by_cases hzeros : flags.leftAlign = false ∧ (flags.zeroPad && f.takesZeros) = true
  · obtain ⟨sign, hsign, mark, hmark, hlead⟩ := h.lead
    rw [fill_of_zeros hzeros.1 hzeros.2, text, hlead,
      reading_append hsign hmark (h.bare.zeros_append _), reading_append hsign hmark h.bare,
      magnitudeOf_zeros_append]
  · rw [reading, reading, trimBlanks_fill hzeros]

/-- Only signed conversions take a pattern for a negative number. -/
theorem integer_nonneg (h : d.argKind ≠ .signed) (bits : UInt64) : 0 ≤ d.integer bits := by
  rw [integer, if_neg h]
  exact Int.emod_nonneg _ (by positivity)

/-- Only a negative integer has the sign of one. -/
theorem shownSign_eq_minus_iff {v : ℤ} (h : d.argKind ≠ .signed → 0 ≤ v) :
    d.shownSign v = ['-'] ↔ v < 0 := by
  rw [shownSign_eq]
  split
  · rw [sign_eq_minus_iff, decide_eq_true_iff]
  · rename_i hunsigned
    exact ⟨nofun, fun hv => absurd (h hunsigned) (Int.not_le.mpr hv)⟩

/-- **An integer** is what is read of its field. -/
theorem reading_integerField {v : ℤ} (hfloat : d.argKind ≠ .float)
    (hv : d.argKind ≠ .signed → 0 ≤ v) : d.reading (d.integerField v).text = v := by
  let digits := extendDigits (d.numeral v) d.precision
  have hdigits : Numeral.value d.base digits = v.natAbs :=
    (showsDigits_extendDigits (d.spells_numeral v)).value_eq
  have hmagnitude : d.magnitudeOf (d.integerField v).body = v.natAbs := by
    rw [magnitudeOf, if_neg hfloat, ← hdigits]
    show (Numeral.value d.base ((if d.conversion = .octal then d.shownMark v digits else []) ++
      digits) : ℚ) = _
    split
    · rw [value_octalMark ‹_›]
    · rw [List.nil_append]
  have hread := reading_append (d := d) (d.shownSign_mem_signs v) (d.mark_mem_marks v digits)
    (d.numeric_integerField v).bare
  refine hread.trans ?_
  simp only [shownSign_eq_minus_iff hv, hmagnitude]
  split
  · have habs : (v.natAbs : ℤ) = -v := by omega
    rw [← Int.cast_natCast, habs, Int.cast_neg, neg_neg]
  · have habs : (v.natAbs : ℤ) = v := by omega
    rw [← Int.cast_natCast, habs]

end Directive

/-! ### Numbers with a width -/

/-- The text of pieces is that of the first ones and that of the others, if the arguments are shared
    out between them. -/
theorem Piece.writeAll_append {pieces : List Piece} {args : List Argument}
    (h : (pieces.filterMap Piece.directive?).length = args.length) (others : List Piece)
    (more : List Argument) : Piece.writeAll (pieces ++ others) (args ++ more) =
      Piece.writeAll pieces args ++ Piece.writeAll others more := by
  induction pieces generalizing args with
  | nil =>
    obtain rfl := List.length_eq_zero_iff.mp h.symm
    rw [Piece.writeAll, String.empty_append]
    rfl
  | cons piece pieces ih =>
    cases piece with
    | literal text =>
      rw [List.cons_append, Piece.writeAll, Piece.writeAll, ih h, String.append_assoc]
    | directive d =>
      cases args with
      | nil => cases h
      | cons a args =>
        rw [List.cons_append, List.cons_append, Piece.writeAll, Piece.writeAll,
          ih (Nat.succ.inj h), String.append_assoc]

namespace Directive

open BinaryLog.Field

variable {d : Directive}

/-- What a width makes of the text of a number or a pointer: as long a text as it says, by blanks
    behind, by zeros between what leads the text and its first digit, or by blanks in front. Without
    as many it is the same text again. Blanks need not be counted, but then one that stands for a
    sign is trimmed too. -/
structure Fills (d : Directive) (a : Argument) (width : ℕ) (bare filled : List Char) : Prop where
  length_eq : filled.length = max width bare.length
  left : d.flags.leftAlign = true → filled = bare ++ List.replicate (width - bare.length) ' '
  zeros : d.ZeroFills a → ∃ digit rest, Numeral.digitValue digit < d.base ∧
    bare = leadOf bare ++ digit :: rest ∧
    filled = leadOf bare ++ (List.replicate (width - bare.length) '0' ++ digit :: rest)
  right : d.flags.leftAlign = false → ¬ d.ZeroFills a →
    filled = List.replicate (width - bare.length) ' ' ++ bare
  take_eq : d.flags.leftAlign = true → filled.take bare.length = bare
  dropZeros_eq : d.ZeroFills a → dropZeros (width - bare.length) filled = bare
  drop_eq : d.flags.leftAlign = false → ¬ d.ZeroFills a →
    filled.drop (width - bare.length) = bare
  trimBlanks_eq : ¬ d.ZeroFills a → trimBlanks filled = trimBlanks bare
  trimBlanks_bare : bare.head? ≠ some ' ' → trimBlanks bare = bare
  reading_eq : d.reading filled = d.reading bare

/-- **What a width does** to the field of a number or a pointer, all at once. Which fill it takes is
    decided by `zeroFills_iff`; that the fill can be undone is known for every numeric field. -/
theorem fills_field (h : d.conversion ∈ numericConversions) (a : Argument) (width : ℕ) :
    d.Fills a width (d.field a).text ((d.field a).fill d.flags width) := by
  -- the field is numeric, and its own flags say which of the three fills it takes
  have hnumeric := numeric_field h a
  have hzeroFills := zeroFills_iff h a
  have hright (hleft : d.flags.leftAlign = false) (hblanks : ¬ d.ZeroFills a) :=
    fill_of_right hleft (fun htakes => hblanks (hzeroFills.mpr ⟨hleft, htakes⟩)) width
  exact {
    length_eq := length_fill _ _ _
    left := fun hleft => fill_of_left hleft _ _
    zeros := by
      intro hzeros
      obtain ⟨hleft, htakes⟩ := hzeroFills.mp hzeros
      obtain ⟨digit, rest, hbody, hdigit⟩ := hnumeric.digit (Bool.and_eq_true_iff.mp htakes).2
      refine ⟨digit, rest, hdigit, ?_, ?_⟩
      · rw [hnumeric.leadOf_text, ← hbody, text]
      · rw [fill_of_zeros hleft htakes, hnumeric.leadOf_text, hbody]
    right := hright
    take_eq := fun hleft => by rw [fill_of_left hleft, List.take_left]
    dropZeros_eq := by
      intro hzeros
      obtain ⟨hleft, htakes⟩ := hzeroFills.mp hzeros
      rw [fill_of_zeros hleft htakes, hnumeric.dropZeros_zeros]
    drop_eq := fun hleft hblanks => by
      rw [hright hleft hblanks, List.drop_left' List.length_replicate]
    trimBlanks_eq := fun hblanks => trimBlanks_fill (mt hzeroFills.mpr hblanks) _
    trimBlanks_bare := hnumeric.trimBlanks_text
    reading_eq := reading_fill hnumeric d _ _ }

/-- The integer is what is read of its text. -/
theorem reading_field (h : d.conversion ∈ integerConversions) {a : Argument}
    (hnull : ¬ (d.conversion = .pointer ∧ d.integer a.bits = 0)) :
    d.reading (d.field a).text = d.integer a.bits := by
  rw [field_eq_integerField h, if_neg hnull]
  exact reading_integerField (argKind_ne_float h) fun hunsigned => integer_nonneg hunsigned a.bits

/-- **Numbers with a width.** A width only fills the text of a number or a pointer, in a place where
    the number that is read stays the same: for integers, the one that is shown. What was written
    before it stays untouched. -/
theorem write_filled (h : d.conversion ∈ numericConversions) (a : Argument) (width : ℕ) :
    let filling : Directive := { d with width := some width }
    let bare := ({ d with width := none }.write a).toList
    d.Fills a width bare (filling.write a).toList ∧
    (d.conversion ∈ integerConversions → ¬ (d.conversion = .pointer ∧ d.integer a.bits = 0) →
      d.reading bare = d.integer a.bits) ∧
    ∀ pieces args, (pieces.filterMap Piece.directive?).length = args.length →
      Piece.writeAll (pieces ++ [.directive filling]) (args ++ [a]) =
        Piece.writeAll pieces args ++ filling.write a := by
  intro filling bare
  have hbare : bare = (d.field a).text := toList_write (d := { d with width := none }) rfl a
  have hfilled : (filling.write a).toList = (d.field a).fill d.flags width := String.toList_ofList
  refine ⟨?_, fun hinteger hnull => ?_, fun pieces args hargs => ?_⟩
  · rw [hbare, hfilled]
    exact fills_field h a width
  · rw [hbare]
    exact reading_field hinteger hnull
  · rw [Piece.writeAll_append hargs, Piece.writeAll, Piece.writeAll, String.append_empty]

/-- Zeros fill a hexadecimal number behind its mark. -/
theorem write_filled_of_hex :
    let d : Directive :=
      { flags := { alternate := true, zeroPad := true }, conversion := .hex false }
    let wide : Directive := { d with width := some 10 }
    d.conversion ∈ numericConversions ∧ d.write (.uint 255) = "0xff" ∧
      wide.write (.uint 255) = "0x000000ff" ∧ d.reading "0x000000ff".toList = 255 ∧
      Piece.writeAll ([.literal "at "] ++ [.directive wide]) ([] ++ [.uint 255]) =
        "at 0x000000ff" := by
  intro d wide
  have hmem : d.conversion ∈ numericConversions := by decide
  have hbare : d.write (.uint 255) = "0xff" := by decide +kernel
  have hwide : wide.write (.uint 255) = "0x000000ff" := by decide +kernel
  obtain ⟨hfills, hinteger, huntouched⟩ := write_filled hmem (.uint 255) 10
  refine ⟨hmem, hbare, hwide, ?_, ?_⟩
  · rw [← hwide]
    exact hfills.reading_eq.trans (hinteger (by decide) (by decide))
  · rw [huntouched _ _ rfl]
    exact congrArg ("at " ++ ·) hwide

end Directive

end BinaryLog
