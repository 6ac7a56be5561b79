import BinaryLog.Proofs.Template.Grammar
import BinaryLog.Proofs.Text.Scanning

namespace BinaryLog

/-!
# Directives, read by their grammar

What is read of a directive is decided by the longest preamble at its front.

* `foldl_pushDigit`, a number that stops growing digit by digit is the capped one;
* `Preamble.Ends`, the text behind a preamble does not make it longer, which holds behind the
  longest one (`Preamble.LongestIn.ends`);
* `Preamble.readDirective_text`, a preamble that ends is taken apart into its parts;
* `readDirective_eq_ok_iff` and `readDirective_eq_error_iff`, a directive is read exactly where a
  preamble stands in front of a conversion, and refused exactly where it is faulty.
-/

/-! ### Numbers -/

/-- One more digit behind a capped number gives the capped longer one. -/
theorem pushDigit_min (n : Nat) (digit : Char) :
    pushDigit (min n maxCount) digit =
      min (10 * n + (digit.toNat - '0'.toNat)) maxCount := by
  rw [pushDigit]
  generalize digit.toNat - '0'.toNat = value
  omega

/-- **Numbers stop growing** at the largest one: capped at each digit, a number becomes what it
    becomes by being capped once, at its end. -/
theorem foldl_pushDigit (digits : List Char) : digits.foldl pushDigit 0 = cappedNumber digits := by
  have hfrom (n : Nat) : digits.foldl pushDigit (min n maxCount) =
      min (Nat.ofDigitChars 10 digits n) maxCount := by
    induction digits generalizing n with
    | nil => rfl
    | cons digit digits ih =>
      rw [List.foldl_cons, pushDigit_min, ih, Nat.ofDigitChars_cons]
  exact hfrom 0

/-! ### Where a preamble ends -/

namespace Preamble

variable {p : Preamble} {rest : List Char} {c : Char}

/-- The text behind the preamble begins with nothing that makes it longer. -/
structure Ends (p : Preamble) (rest : List Char) : Prop where
  flag : p.width = [] → p.precision = none → p.length = .int → Stops isFlag rest
  digit : p.length = .int → Stops Char.isDigit rest
  point : p.precision = none → p.length = .int → Stops (· == '.') rest
  length : ∀ c ∈ rest.head?, ∀ longer : Length, longer.chars ≠ p.length.chars ++ [c]

/-- **Behind the longest preamble** stands nothing that makes it longer. -/
theorem LongestIn.ends (h : p.LongestIn (p.text ++ rest)) : p.Ends rest where
  flag hwidth hprecision hint c hc :=
    Bool.eq_false_iff.mpr fun hflag => h.not_goesOn hc (goesOn_of_flag hwidth hprecision hint hflag)
  digit hint c hc :=
    Bool.eq_false_iff.mpr fun hdigit => h.not_goesOn hc (goesOn_of_digit hint hdigit)
  point hprecision hint c hc := by
    refine Bool.eq_false_iff.mpr fun hpoint => ?_
    obtain rfl : c = '.' := by simpa using hpoint
    exact h.not_goesOn hc (goesOn_of_point hprecision hint)
  length c hc longer hlonger := h.not_goesOn hc (goesOn_of_longer hlonger)

/-! ### Reading a preamble that ends -/

/-- Flags end before the width, which does not begin with a zero. -/
theorem stops_width (p : Preamble) : Stops isFlag p.width := by
  intro c hc
  by_contra hflag
  -- the only digit among the flags is the zero
  have hdigit := p.width_digit c (List.mem_of_mem_head? hc)
  have hmem := isFlag_iff.mp (by simpa using hflag)
  simp only [flagChars, List.mem_cons, List.not_mem_nil, or_false] at hmem
  rcases hmem with rfl | rfl | rfl | rfl | rfl
  · cases hdigit
  · cases hdigit
  · cases hdigit
  · cases hdigit
  · exact p.width_head hc

/-- What does not accept a point stops where the precision begins. -/
theorem stops_point {accepts : Char → Bool} (p : Preamble) (h : accepts '.' = false) :
    Stops accepts p.point := by
  intro c hc
  rw [point] at hc
  cases hprecision : p.precision with
  | none => simp [hprecision] at hc
  | some digits =>
    rw [hprecision] at hc
    cases hc
    exact h

/-- A precision shows by its point, even if no digit follows. -/
theorem point_eq_nil_iff : p.point = [] ↔ p.precision = none := by
  rw [point]
  cases p.precision <;> simp

theorem chars_eq_nil_iff {length : Length} : length.chars = [] ↔ length = .int := by
  cases length <;> decide

/-- A length is spelled with letters of its own. -/
theorem stops_chars {accepts : Char → Bool} (length : Length)
    (h : lengthChars.any accepts = false) : Stops accepts length.chars :=
  stops_of_forall fun c hc => by
    simpa using List.any_eq_false.mp h c (length.mem_lengthChars c hc)

namespace Ends

/-- The flags go on to the width, and no further: where all parts behind them are empty, the text
    behind the preamble does not begin with one either. -/
theorem stops_flag (h : p.Ends rest) :
    Stops isFlag (p.width ++ (p.point ++ (p.length.chars ++ rest))) := by
  refine p.stops_width.append fun hwidth => ?_
  refine (p.stops_point rfl).append fun hpoint => ?_
  refine (stops_chars _ (by decide)).append fun hchars => ?_
  exact h.flag hwidth (point_eq_nil_iff.mp hpoint) (chars_eq_nil_iff.mp hchars)

/-- Digits go on to the length, and no further. -/
theorem stops_digit (h : p.Ends rest) : Stops Char.isDigit (p.length.chars ++ rest) := by
  refine (stops_chars _ (by decide)).append fun hchars => ?_
  exact h.digit (chars_eq_nil_iff.mp hchars)

/-- Without a precision no point stands behind the width. -/
theorem stops_point (h : p.Ends rest) (hprecision : p.precision = none) :
    Stops (· == '.') (p.length.chars ++ rest) := by
  refine (stops_chars _ (by decide)).append fun hchars => ?_
  exact h.point hprecision (chars_eq_nil_iff.mp hchars)

/-- A number is read as a whole, and capped. -/
theorem readCount_eq {digits : List Char} (hdigits : ∀ c ∈ digits, c.isDigit = true)
    (hrest : Stops Char.isDigit rest) :
    readCount (digits ++ rest) =
      (if digits = [] then none else some (cappedNumber digits), rest) := by
  simp only [readCount, hrest.takeWhile hdigits, hrest.dropWhile hdigits, List.isEmpty_iff,
    foldl_pushDigit]

/-- The precision is read as a whole. A point without digits is a precision without a number. -/
theorem readPrecision_eq (h : p.Ends rest) :
    readPrecision (p.point ++ (p.length.chars ++ rest)) =
      (p.precision.map cappedNumber, p.length.chars ++ rest) := by
  rw [Preamble.point]
  cases hprecision : p.precision with
  | none =>
    show readPrecision (p.length.chars ++ rest) = _
    rw [readPrecision.eq_def]
    split
    · rename_i hdot
      exact absurd hdot ((h.stops_point hprecision).ne_cons rfl _)
    · rfl
  | some digits =>
    have hdigits := p.precision_digit digits hprecision
    show readPrecision ('.' :: (digits ++ _)) = _
    rw [readPrecision, readCount_eq hdigits h.stops_digit]
    cases digits <;> rfl

/-- The length is read as a whole: what would make it longer does not follow. -/
theorem readLength_eq (h : p.Ends rest) :
    readLength (p.length.chars ++ rest) = (p.length, rest) := by
  have hlength := h.length
  cases rest with
  | nil => cases p.length <;> rfl
  | cons c cs =>
    have hlonger := hlength c rfl
    -- only a modifier that a longer one begins with hangs on the character behind it
    cases hp : p.length with
    | char | longLong | intMax | size | ptrDiff | longDouble => rfl
    | short =>
      have hc : c ≠ 'h' := by
        rintro rfl
        exact hlonger .char (by rw [hp]; rfl)
      show readLength ('h' :: c :: cs) = _
      rw [readLength.eq_def]
      split <;> simp_all
    | long =>
      have hc : c ≠ 'l' := by
        rintro rfl
        exact hlonger .longLong (by rw [hp]; rfl)
      show readLength ('l' :: c :: cs) = _
      rw [readLength.eq_def]
      split <;> simp_all
    | int =>
      have hc : c ∉ lengthChars := by
        rw [hp] at hlonger
        simp only [lengthChars, List.mem_cons, List.not_mem_nil, or_false]
        rintro (rfl | rfl | rfl | rfl | rfl | rfl)
        · exact hlonger .short rfl
        · exact hlonger .long rfl
        · exact hlonger .intMax rfl
        · exact hlonger .size rfl
        · exact hlonger .ptrDiff rfl
        · exact hlonger .longDouble rfl
      show readLength (c :: cs) = _
      rw [readLength.eq_def]
      split <;> simp_all [lengthChars]

end Ends

/-! ### Reading directives -/

theorem stops_star_of_digits {digits : List Char} (h : ∀ c ∈ digits, c.isDigit = true) :
    Stops (· == '*') digits := by
  refine stops_of_forall fun c hc => ?_
  by_contra hstar
  obtain rfl : c = '*' := by simpa using hstar
  cases h _ hc

section Asterisks

variable (hrest : '*' ∈ rest.head? → ¬ p.AwaitsNumber)
include hrest

/-- No asterisk stands behind the length, if one there would stand for a number. -/
theorem stops_star_chars (h : p.length = .int → p.AwaitsNumber) :
    Stops (· == '*') (p.length.chars ++ rest) := by
  refine (stops_chars _ (by decide)).append fun hchars c hc => ?_
  by_contra hstar
  obtain rfl : c = '*' := by simpa using hstar
  exact hrest hc (h (chars_eq_nil_iff.mp hchars))

/-- No asterisk stands for the width. -/
theorem stops_star_width : Stops (· == '*') (p.width ++ (p.point ++ (p.length.chars ++ rest))) := by
  refine (stops_star_of_digits p.width_digit).append fun hwidth => ?_
  refine (p.stops_point (by decide)).append fun hpoint => ?_
  exact stops_star_chars hrest fun hint =>
    ⟨hint, .inl ⟨hwidth, point_eq_nil_iff.mp hpoint⟩⟩

/-- No asterisk stands for the precision. -/
theorem stops_star_precision {digits : List Char} (h : p.precision = some digits) :
    Stops (· == '*') (digits ++ (p.length.chars ++ rest)) := by
  refine (stops_star_of_digits (p.precision_digit digits h)).append fun hdigits => ?_
  exact stops_star_chars hrest fun hint => ⟨hint, .inr (hdigits ▸ h)⟩

end Asterisks

/-- The outcome where the conversion is read next. -/
def complete (p : Preamble) (start : Nat) :
    List Char → Except TemplateError (Directive × List Char)
  | [] => .error (.incomplete start)
  | c :: cs =>
    match Conversion.ofChar? c with
    | none => .error (.unsupported c start)
    | some conversion => .ok (p.directive conversion, cs)

/-- A preamble that ends is taken apart into its parts. -/
theorem readDirective_text (h : p.Ends rest) (start : Nat) :
    readDirective start (p.text ++ rest) =
      match p.width ++ (p.point ++ (p.length.chars ++ rest)) with
      | '*' :: _ => .error (.dynamicWidth (start + 1 + p.flags.length))
      | _ =>
        match p.point ++ (p.length.chars ++ rest) with
        | '.' :: '*' :: _ =>
          .error (.dynamicWidth (start + 2 + (p.flags.length + p.width.length)))
        | _ => p.complete start rest := by
  have htext : p.text ++ rest =
      p.flags ++ (p.width ++ (p.point ++ (p.length.chars ++ rest))) := by
    simp only [text, List.append_assoc]
  -- each part is read up to where the next one begins
  have hflags : ∀ c ∈ p.flags, isFlag c = true := fun c hc => isFlag_iff.mpr (p.flags_mem c hc)
  have hwidth : Stops Char.isDigit (p.point ++ (p.length.chars ++ rest)) :=
    (p.stops_point rfl).append fun _ => h.stops_digit
  have hlength : (p.flags ++ (p.width ++ (p.point ++ (p.length.chars ++ rest)))).length
      - (p.point ++ (p.length.chars ++ rest)).length = p.flags.length + p.width.length := by
    simp only [List.length_append]
    omega
  rw [htext]
  simp only [readDirective, h.stops_flag.takeWhile hflags, h.stops_flag.dropWhile hflags,
    Ends.readCount_eq p.width_digit hwidth, h.readPrecision_eq, h.readLength_eq, hlength,
    Flags.ofChars, List.contains_eq_mem]
  rfl

/-- **What is read behind a preamble** that ends, where no asterisk stands for a number. -/
theorem readDirective_eq (h : p.Ends rest) (hrest : '*' ∈ rest.head? → ¬ p.AwaitsNumber)
    (start : Nat) : readDirective start (p.text ++ rest) = p.complete start rest := by
  rw [readDirective_text h]
  split
  · rename_i hstar
    exact absurd hstar ((stops_star_width hrest).ne_cons rfl _)
  split
  · rename_i hstar
    rw [point] at hstar
    cases hprecision : p.precision with
    | none =>
      rw [hprecision] at hstar
      exact absurd hstar ((h.stops_point hprecision).ne_cons rfl _)
    | some digits =>
      rw [hprecision] at hstar
      exact absurd (List.cons.inj hstar).2 ((stops_star_precision hrest hprecision).ne_cons rfl _)
  rfl

/-- No part of a preamble goes on with the character. -/
structure Foreign (c : Char) : Prop where
  flag : isFlag c = false
  digit : c.isDigit = false
  point : c ≠ '.'
  letter : c ∉ lengthChars

/-- In front of a foreign character every preamble ends. -/
theorem ends_of_foreign (p : Preamble) (h : ∀ c ∈ rest.head?, Foreign c) : p.Ends rest where
  flag _ _ _ c hc := (h c hc).flag
  digit _ c hc := (h c hc).digit
  point _ _ c hc := by simpa using (h c hc).point
  length c hc longer hlonger := (h c hc).letter (longer.mem_lengthChars c (by simp [hlonger]))

theorem foreign_star : Foreign '*' := ⟨by decide, by decide, by decide, by decide⟩

theorem foreign_toChar (conversion : Conversion) : Foreign conversion.toChar := by
  rcases conversion with _ | _ | _ | _ | ⟨_ | _⟩ | _ | _ | ⟨_ | _⟩ | ⟨_ | _⟩ | ⟨_ | _⟩ | _ <;>
    exact ⟨by decide, by decide, by decide, by decide⟩

/-- An asterisk that stands for a number ends the reading. -/
theorem readDirective_star (h : p.AwaitsNumber) (start : Nat) (rest : List Char) :
    readDirective start (p.text ++ '*' :: rest) =
      .error (.dynamicWidth (start + 1 + p.text.length)) := by
  -- as an asterisk is foreign, the preamble in front of it is taken apart into its parts
  have hends : p.Ends ('*' :: rest) := p.ends_of_foreign fun c hc => by
    cases hc
    exact foreign_star
  obtain ⟨hint, hparts⟩ := h
  rw [readDirective_text hends, text, point, hint]
  obtain ⟨hwidth, hprecision⟩ | hprecision := hparts
  · rw [hwidth, hprecision]
    simp [Length.chars]
  · have hstar : Stops (· == '*') (p.width ++ '.' :: '*' :: rest) :=
      (stops_star_of_digits p.width_digit).append fun _ c hc => by cases hc; rfl
    rw [hprecision]
    show (match p.width ++ '.' :: '*' :: rest with
      | '*' :: _ => _
      | _ => _) = _
    split
    · rename_i hcons
      exact absurd hcons (hstar.ne_cons rfl _)
    · simp [Length.chars]
      omega

end Preamble

/-! ### What is a directive, and what is none -/

/-- Each conversion has a letter of its own. -/
theorem Conversion.ofChar?_eq_some_iff {c : Char} {conversion : Conversion} :
    ofChar? c = some conversion ↔ conversion.toChar = c := by
  constructor
  · intro h
    unfold ofChar? at h
    split at h <;> cases h <;> rfl
  · rintro rfl
    exact ofChar?_toChar conversion

theorem Conversion.toChar_ne_star (conversion : Conversion) : conversion.toChar ≠ '*' := by
  rw [ne_eq, ← ofChar?_eq_some_iff]
  exact nofun

/-- Any text begins with a longest preamble. Reading it ends at an asterisk that stands for a
    number, or comes to the conversion. -/
theorem readDirective_cases (start : Nat) (cs : List Char) :
    ∃ (p : Preamble) (rest : List Char), cs = p.text ++ rest ∧ p.LongestIn (p.text ++ rest) ∧
      ((∃ tail, rest = '*' :: tail ∧ p.AwaitsNumber ∧
          readDirective start cs = .error (.dynamicWidth (start + 1 + p.text.length))) ∨
        (('*' ∈ rest.head? → ¬ p.AwaitsNumber) ∧
          readDirective start cs = p.complete start rest)) := by
  obtain ⟨p, rest, rfl, hlongest⟩ := Preamble.exists_longestIn cs
  refine ⟨p, rest, rfl, hlongest, ?_⟩
  by_cases hstar : '*' ∈ rest.head? ∧ p.AwaitsNumber
  · obtain ⟨hhead, hawaits⟩ := hstar
    obtain ⟨tail, rfl⟩ := List.head?_eq_some_iff.mp hhead
    exact .inl ⟨tail, rfl, hawaits, Preamble.readDirective_star hawaits start tail⟩
  · have hrest : '*' ∈ rest.head? → ¬ p.AwaitsNumber := fun hhead hawaits =>
      hstar ⟨hhead, hawaits⟩
    exact .inr ⟨hrest, Preamble.readDirective_eq hlongest.ends hrest start⟩

/-- **A directive is read** exactly where a preamble stands in front of a conversion. -/
theorem readDirective_eq_ok_iff {start : Nat} {cs rest : List Char} {d : Directive} :
    readDirective start cs = .ok (d, rest) ↔ ∃ (p : Preamble) (conversion : Conversion),
      cs = p.text ++ conversion.toChar :: rest ∧ d = p.directive conversion := by
  constructor
  · intro h
    obtain ⟨p, behind, rfl, -, ⟨-, -, -, hread⟩ | ⟨-, hread⟩⟩ := readDirective_cases start cs
    · rw [hread] at h
      cases h
    · rw [hread] at h
      -- behind its preamble, a directive is completed by its conversion and by nothing else
      cases behind with
      | nil => cases h
      | cons c behind =>
        rw [Preamble.complete] at h
        cases hconversion : Conversion.ofChar? c with
        | none => simp [hconversion] at h
        | some conversion =>
          rw [hconversion] at h
          cases h
          rw [← Conversion.ofChar?_eq_some_iff.mp hconversion]
          exact ⟨p, conversion, rfl, rfl⟩
  · rintro ⟨p, conversion, rfl, rfl⟩
    have hends : p.Ends (conversion.toChar :: rest) := p.ends_of_foreign fun c hc => by
      cases hc
      exact Preamble.foreign_toChar conversion
    rw [Preamble.readDirective_eq hends, Preamble.complete, Conversion.ofChar?_toChar]
    intro hstar
    exact absurd (by simpa using hstar) conversion.toChar_ne_star

/-- **A directive is refused** exactly where it is faulty, unless it is a percent sign. -/
theorem readDirective_eq_error_iff {before cs : List Char} {error : TemplateError}
    (h : cs.head? ≠ some '%') :
    readDirective (byteLength before) cs = .error error ↔ Faulty before cs error := by
  have hstart (p : Preamble) : byteLength (before ++ '%' :: p.text) =
      byteLength before + 1 + p.text.length := by
    rw [byteLength_append, byteLength_cons, p.byteLength_text, Nat.add_assoc]
    rfl
  constructor
  · intro herror
    -- the text begins with a longest preamble, and what stands behind it is the fault
    obtain ⟨p, rest, rfl, hlongest, ⟨tail, rfl, hawaits, hread⟩ | ⟨hstar, hread⟩⟩ :=
      readDirective_cases (byteLength before) cs
    · rw [hread] at herror
      cases herror
      rw [← hstart]
      exact .dynamicWidth p tail hawaits
    · rw [hread] at herror
      cases rest with
      | nil =>
        cases herror
        rw [List.append_nil]
        exact .incomplete p
      | cons c rest =>
        rw [Preamble.complete] at herror
        cases hconversion : Conversion.ofChar? c with
        | some conversion => simp [hconversion] at herror
        | none =>
          rw [hconversion] at herror
          cases herror
          refine .unsupported p c rest hlongest (fun k hk => ?_) (fun hc => hstar (by rw [hc]; rfl))
            fun hempty hc => h (by rw [hempty, hc]; rfl)
          rw [Conversion.ofChar?_eq_some_iff.mpr hk] at hconversion
          cases hconversion
  · intro hfaulty
    cases hfaulty with
    | dynamicWidth p rest hawaits => rw [Preamble.readDirective_star hawaits, hstart]
    | incomplete p =>
      have hends : p.Ends [] := p.ends_of_foreign (by simp)
      have hread := Preamble.readDirective_eq hends (by simp) (byteLength before)
      rwa [List.append_nil] at hread
    | unsupported p c rest hlongest hunknown hnumber _ =>
      have hconversion : Conversion.ofChar? c = none := by
        rw [Option.eq_none_iff_forall_ne_some]
        exact fun k hk => hunknown k (Conversion.ofChar?_eq_some_iff.mp hk)
      rw [Preamble.readDirective_eq hlongest.ends fun hstar => hnumber (by simpa using hstar),
        Preamble.complete, hconversion]

end BinaryLog
