import BinaryLog.Template.Parser
import Mathlib.Algebra.Group.Nat.Defs
import Mathlib.Order.WellFounded

namespace BinaryLog

/-!
# The grammar of templates

A template is a sequence of characters, doubled percent signs and directives. Between its percent
sign and its conversion a directive has a preamble: flags, a width, a precision and a length, each
of which may be left out.

* `Preamble`, a preamble as it is spelled, and `Preamble.directive`, the directive that it begins;
* `Preamble.LongestIn`, the longest preamble at the front of a text: every text has one
  (`Preamble.exists_longestIn`), and the next character does not go on it
  (`Preamble.LongestIn.not_goesOn`);
* `Spelled`, the texts of the grammar with the items that they stand for;
* `Faulty`, the texts behind a percent sign that are no directive, with what is wrong with them.
-/

/-! ### Characters -/

/-- The characters of the flags. -/
def flagChars : List Char := ['-', '+', ' ', '#', '0']

theorem isFlag_iff {c : Char} : isFlag c = true ↔ c ∈ flagChars := by
  simp [isFlag, flagChars, or_assoc]

/-- The characters that spell a length. -/
def Length.chars : Length → List Char
  | .char => ['h', 'h']
  | .short => ['h']
  | .int => []
  | .long => ['l']
  | .longLong => ['l', 'l']
  | .intMax => ['j']
  | .size => ['z']
  | .ptrDiff => ['t']
  | .longDouble => ['L']

/-- The characters that a length is spelled with. -/
def lengthChars : List Char := ['h', 'l', 'j', 'z', 't', 'L']

theorem Length.mem_lengthChars (length : Length) : ∀ c ∈ length.chars, c ∈ lengthChars := by
  cases length <;> simp [chars, lengthChars]

/-- The number that decimal digits stand for, or the largest one of 64 bits if that is smaller. -/
def cappedNumber (digits : List Char) : Nat := min (Nat.ofDigitChars 10 digits 0) (2 ^ 64 - 1)

/-! ### Preambles -/

/-- What a directive is spelled with between its percent sign and its conversion. -/
structure Preamble where
  flags : List Char
  width : List Char
  /-- The digits after the point. -/
  precision : Option (List Char)
  length : Length
  flags_mem : ∀ c ∈ flags, c ∈ flagChars
  width_digit : ∀ c ∈ width, c.isDigit = true
  /-- Zeros in front of a width are flags. -/
  width_head : width.head? ≠ some '0'
  precision_digit : ∀ digits ∈ precision, ∀ c ∈ digits, c.isDigit = true

namespace Preamble

variable {p : Preamble} {rest : List Char} {c : Char}

/-- The precision with its point. -/
def point (p : Preamble) : List Char := p.precision.elim [] ('.' :: ·)

def text (p : Preamble) : List Char := p.flags ++ (p.width ++ (p.point ++ p.length.chars))

/-- The directive that a preamble and a conversion make. A point alone is the precision zero, since
    no digits are the number zero. -/
def directive (p : Preamble) (conversion : Conversion) : Directive where
  flags :=
    { leftAlign := '-' ∈ p.flags, forceSign := '+' ∈ p.flags, spaceSign := ' ' ∈ p.flags
      alternate := '#' ∈ p.flags, zeroPad := '0' ∈ p.flags }
  width := if p.width = [] then none else some (cappedNumber p.width)
  precision := p.precision.map cappedNumber
  length := p.length
  conversion := conversion

/-- The preamble is the longest one at the front of a text. -/
def LongestIn (p : Preamble) (cs : List Char) : Prop :=
  p.text <+: cs ∧ ∀ q : Preamble, q.text <+: cs → q.text.length ≤ p.text.length

/-- A number may come next: the preamble ends after its flags or after its point. -/
def AwaitsNumber (p : Preamble) : Prop :=
  p.length = .int ∧ (p.width = [] ∧ p.precision = none ∨ p.precision = some [])

/-- What holds of all characters that a part may have holds of the whole preamble. -/
theorem forall_mem_text {property : Char → Prop} (p : Preamble)
    (hflag : ∀ c ∈ flagChars, property c) (hdigit : ∀ c, c.isDigit = true → property c)
    (hpoint : property '.') (hletter : ∀ c ∈ lengthChars, property c) :
    ∀ c ∈ p.text, property c := by
  intro c hc
  simp only [text, List.mem_append] at hc
  rcases hc with hc | hc | hc | hc
  · exact hflag c (p.flags_mem c hc)
  · exact hdigit c (p.width_digit c hc)
  · rw [point] at hc
    cases hprecision : p.precision with
    | none => simp [hprecision] at hc
    | some digits =>
      rw [hprecision] at hc
      obtain rfl | hc := List.mem_cons.mp hc
      · exact hpoint
      · exact hdigit c (p.precision_digit digits hprecision c hc)
  · exact hletter c (p.length.mem_lengthChars c hc)

/-! ### Longest preambles -/

/-- The preamble goes on with the character. -/
def GoesOn (p : Preamble) (c : Char) : Prop := ∃ q : Preamble, q.text = p.text ++ [c]

/-- In front of a width, one more flag makes a preamble longer. -/
theorem goesOn_of_flag (hwidth : p.width = []) (hprecision : p.precision = none)
    (hint : p.length = .int) (hc : isFlag c = true) : p.GoesOn c := by
  refine ⟨{ p with flags := p.flags ++ [c], flags_mem := ?_ }, ?_⟩
  · simpa [or_imp, forall_and] using ⟨p.flags_mem, isFlag_iff.mp hc⟩
  · simp [text, point, hwidth, hprecision, hint, Length.chars]

/-- A digit goes on the precision if there is one, and else the width, where a zero in front is
    a flag. -/
theorem goesOn_of_digit (hint : p.length = .int) (hc : c.isDigit = true) : p.GoesOn c := by
  cases hprecision : p.precision with
  | some digits =>
    refine ⟨{ p with precision := some (digits ++ [c]), precision_digit := ?_ }, ?_⟩
    · simpa [or_imp, forall_and] using ⟨p.precision_digit digits hprecision, hc⟩
    · simp [text, point, hprecision, hint, Length.chars]
  | none =>
    by_cases hzero : p.width = [] ∧ c = '0'
    · obtain ⟨hwidth, rfl⟩ := hzero
      exact goesOn_of_flag hwidth hprecision hint rfl
    · refine ⟨{ p with width := p.width ++ [c], width_digit := ?_, width_head := ?_ }, ?_⟩
      · simpa [or_imp, forall_and] using ⟨p.width_digit, hc⟩
      · have hhead := p.width_head
        cases hwidth : p.width with
        | nil => simpa [hwidth] using hzero
        | cons w ws => simpa [hwidth] using hhead
      · simp [text, point, hprecision, hint, Length.chars]

/-- A point begins a precision where there is none yet. -/
theorem goesOn_of_point (hprecision : p.precision = none) (hint : p.length = .int) :
    p.GoesOn '.' := by
  refine ⟨{ p with precision := some [], precision_digit := by simp }, ?_⟩
  simp [text, point, hprecision, hint, Length.chars]

/-- One more letter may make a longer length. -/
theorem goesOn_of_longer {longer : Length} (h : longer.chars = p.length.chars ++ [c]) :
    p.GoesOn c :=
  ⟨{ p with length := longer }, by simp [text, point, h]⟩

/-- The longest preamble does not go on. -/
theorem LongestIn.not_goesOn (h : p.LongestIn (p.text ++ rest)) (hc : c ∈ rest.head?) :
    ¬ p.GoesOn c := by
  rintro ⟨q, hq⟩
  obtain ⟨cs, rfl⟩ := List.head?_eq_some_iff.mp hc
  have hle := h.2 q ⟨cs, by rw [hq, List.append_assoc, List.singleton_append]⟩
  rw [hq, List.length_append, List.length_singleton] at hle
  omega

/-- The preamble of which all parts are left out. -/
def empty : Preamble where
  flags := []
  width := []
  precision := none
  length := .int
  flags_mem := by simp
  width_digit := by simp
  width_head := by simp
  precision_digit := by simp

/-- Every text begins with a longest preamble. -/
theorem exists_longestIn (cs : List Char) :
    ∃ (p : Preamble) (rest : List Char), cs = p.text ++ rest ∧ p.LongestIn cs := by
  obtain ⟨p, hp, hlongest⟩ := (measure fun p : Preamble => cs.length - p.text.length).wf.has_min
    {p | p.text <+: cs} ⟨empty, List.nil_prefix⟩
  obtain ⟨rest, hrest⟩ := hp
  refine ⟨p, rest, hrest.symm, ⟨rest, hrest⟩, fun q hq => ?_⟩
  have hle := hq.length_le
  have hmin : ¬ cs.length - q.text.length < cs.length - p.text.length := hlongest q hq
  omega

end Preamble

/-! ### Bytes -/

/-- The bytes of a text in UTF-8. -/
def byteLength (cs : List Char) : Nat := (String.ofList cs).utf8ByteSize

theorem byteLength_append (xs ys : List Char) :
    byteLength (xs ++ ys) = byteLength xs + byteLength ys := by
  simp [byteLength]

theorem byteLength_cons (c : Char) (cs : List Char) :
    byteLength (c :: cs) = c.utf8Size + byteLength cs := by
  simp [byteLength]

/-- Texts of ASCII have as many bytes as characters. -/
theorem byteLength_of_ascii {cs : List Char} (h : ∀ c ∈ cs, c.utf8Size = 1) :
    byteLength cs = cs.length := by
  induction cs with
  | nil => rfl
  | cons c cs ih =>
    obtain ⟨hc, hcs⟩ := List.forall_mem_cons.mp h
    rw [byteLength_cons, hc, ih hcs, List.length_cons, Nat.add_comm]

theorem utf8Size_of_digit {c : Char} (h : c.isDigit = true) : c.utf8Size = 1 := by
  rw [Char.utf8Size_eq_one_iff]
  simp only [Char.isDigit, Bool.and_eq_true, decide_eq_true_eq] at h
  exact UInt32.le_trans h.2 (by decide)

/-- A preamble has as many bytes as characters. -/
theorem Preamble.byteLength_text (p : Preamble) : byteLength p.text = p.text.length :=
  byteLength_of_ascii (p.forall_mem_text (by simp [flagChars, Char.utf8Size])
    (fun _ => utf8Size_of_digit) rfl (by simp [lengthChars, Char.utf8Size]))

/-! ### Templates -/

/-- The texts of templates, with the items that they stand for. -/
inductive Spelled : List Char → List Item → Prop
  | nil : Spelled [] []
  | char {c : Char} {cs : List Char} {items : List Item} (plain : c ≠ '%')
      (rest : Spelled cs items) : Spelled (c :: cs) (.char c :: items)
  | percent {cs : List Char} {items : List Item} (rest : Spelled cs items) :
      Spelled ('%' :: '%' :: cs) (.char '%' :: items)
  | directive (p : Preamble) (conversion : Conversion) {cs : List Char} {items : List Item}
      (rest : Spelled cs items) :
      Spelled ('%' :: (p.text ++ conversion.toChar :: cs))
        (.directive (p.directive conversion) :: items)

/-- The text behind a percent sign is no directive. The percent sign stands behind `before`.

    * An asterisk stands for a number, directly after the flags or directly after the point.
    * The text ends before the conversion.
    * Behind the longest preamble stands no conversion. (If the preamble is empty and a percent sign
      follows, that is no directive but a percent sign that stands for itself.) -/
inductive Faulty (before : List Char) : List Char → TemplateError → Prop
  | dynamicWidth (p : Preamble) (rest : List Char) (awaits : p.AwaitsNumber) :
      Faulty before (p.text ++ '*' :: rest) (.dynamicWidth (byteLength (before ++ '%' :: p.text)))
  | incomplete (p : Preamble) : Faulty before p.text (.incomplete (byteLength before))
  | unsupported (p : Preamble) (c : Char) (rest : List Char)
      (longest : p.LongestIn (p.text ++ c :: rest)) (unknown : ∀ k : Conversion, k.toChar ≠ c)
      (number : c = '*' → ¬ p.AwaitsNumber) (escape : p.text = [] → c ≠ '%') :
      Faulty before (p.text ++ c :: rest) (.unsupported c (byteLength before))

end BinaryLog
