import BinaryLog.Proofs.Template.Recognition
import BinaryLog.Proofs.Text.Numeral
import Mathlib.Data.List.Forall2

namespace BinaryLog

/-!
# Templates, written back

* `Piece.Written`, the texts of a piece: percent signs of a literal are doubled, and the flags of a
  directive stand in any order;
* `Piece.Printable`, the pieces that a text can stand for;
* `Spelled.of_written` and `Spelled.inRange`, such pieces are spelled by what is written for them,
  and directives that are read are in range;
* `Template.parse_written`, parsing undoes writing.
-/

/-! ### Writing pieces -/

/-- The characters of the flags that are set. -/
def Flags.chars (f : Flags) : List Char :=
  (if f.leftAlign then ['-'] else []) ++ (if f.forceSign then ['+'] else []) ++
    (if f.spaceSign then [' '] else []) ++ (if f.alternate then ['#'] else []) ++
    (if f.zeroPad then ['0'] else [])

/-- A text with every percent sign doubled. -/
def escaped (cs : List Char) : List Char := cs.flatMap fun c => if c = '%' then ['%', '%'] else [c]

/-- What a directive is written with behind its flags. -/
def Directive.behindFlags (d : Directive) : List Char :=
  d.width.elim [] (Numeral.chars 10) ++ (d.precision.elim [] ('.' :: Numeral.chars 10 ·) ++
    (d.length.chars ++ [d.conversion.toChar]))

/-- The texts of a piece. -/
inductive Piece.Written : Piece → List Char → Prop
  | literal (text : String) : Written (.literal text) (escaped text.toList)
  | directive (d : Directive) {flags : List Char} (order : flags.Perm d.flags.chars) :
      Written (.directive d) ('%' :: (flags ++ d.behindFlags))

/-- The width and the precision are numbers that can be read. The width zero cannot: its digit would
    be a flag. -/
structure Directive.InRange (d : Directive) : Prop where
  width : ∀ w ∈ d.width, 1 ≤ w ∧ w ≤ 2 ^ 64 - 1
  precision : ∀ n ∈ d.precision, n ≤ 2 ^ 64 - 1

/-- The pieces that a text can stand for. -/
structure Piece.Printable (pieces : List Piece) : Prop where
  separated : Separated pieces
  inRange : ∀ d, .directive d ∈ pieces → d.InRange

/-- Every piece can be written. -/
theorem Piece.exists_written (pieces : List Piece) :
    ∃ parts, List.Forall₂ Written pieces parts := by
  induction pieces with
  | nil => exact ⟨[], .nil⟩
  | cons piece pieces ih =>
    obtain ⟨parts, hparts⟩ := ih
    cases piece with
    | literal text => exact ⟨_, .cons (.literal text) hparts⟩
    | directive d => exact ⟨_, .cons (.directive d (.refl _)) hparts⟩

/-! ### Numbers -/

/-- A number that is not too large is read back from its numeral. -/
theorem cappedNumber_chars {n : Nat} (h : n ≤ 2 ^ 64 - 1) :
    cappedNumber (Numeral.chars 10 n) = n := by
  rw [cappedNumber, Numeral.chars, Nat.ofDigitChars_toDigits (by decide) (by decide)]
  exact Nat.min_eq_left h

/-- More digits never make a number smaller. -/
theorem le_ofDigitChars (digits : List Char) (n : Nat) : n ≤ Nat.ofDigitChars 10 digits n := by
  rw [Nat.ofDigitChars_eq_ofDigitChars_zero]
  have hshifted : n ≤ 10 ^ digits.length * n :=
    Nat.le_mul_of_pos_left n (Nat.pow_pos (by decide))
  omega

/-- Digits that do not begin with a zero stand for a number above zero. -/
theorem one_le_cappedNumber {digits : List Char} (hdigit : ∀ c ∈ digits, c.isDigit = true)
    (hhead : digits.head? ≠ some '0') (hne : digits ≠ []) : 1 ≤ cappedNumber digits := by
  cases digits with
  | nil => exact absurd rfl hne
  | cons c cs =>
    have hle : '0'.toNat ≤ c.toNat := by
      have hc := hdigit c (by simp)
      simp only [Char.isDigit, Bool.and_eq_true, decide_eq_true_eq] at hc
      exact UInt32.le_iff_toNat_le.mp hc.1
    have hne' : c.toNat ≠ '0'.toNat := by
      rw [ne_eq, Char.toNat_inj]
      simpa using hhead
    have hnumber := le_ofDigitChars cs (10 * 0 + (c.toNat - '0'.toNat))
    rw [cappedNumber, Nat.ofDigitChars_cons]
    omega

/-! ### Directives -/

/-- The flags that a run of flags sets do not depend on their order. -/
theorem Flags.ofChars_perm_chars {f : Flags} {flags : List Char} (h : flags.Perm f.chars) :
    ({ leftAlign := '-' ∈ flags, forceSign := '+' ∈ flags, spaceSign := ' ' ∈ flags
       alternate := '#' ∈ flags, zeroPad := '0' ∈ flags } : Flags) = f := by
  simp only [h.mem_iff]
  rcases f with ⟨_ | _, _ | _, _ | _, _ | _, _ | _⟩ <;> rfl

theorem Flags.mem_flagChars (f : Flags) : ∀ c ∈ f.chars, c ∈ flagChars := by
  rcases f with ⟨_ | _, _ | _, _ | _, _ | _, _ | _⟩ <;> simp [chars, flagChars]

/-- **A directive in range** is the one that its text stands for. -/
theorem Directive.InRange.exists_preamble {d : Directive} (h : d.InRange) {flags : List Char}
    (horder : flags.Perm d.flags.chars) : ∃ p : Preamble,
      flags ++ d.behindFlags = p.text ++ [d.conversion.toChar] ∧ p.directive d.conversion = d := by
  obtain ⟨hwidth, hprecision⟩ := h
  -- the preamble has the numerals of the two numbers, which are in range
  let p : Preamble :=
    { flags
      width := d.width.elim [] (Numeral.chars 10)
      precision := d.precision.map (Numeral.chars 10)
      length := d.length
      flags_mem := fun c hc => d.flags.mem_flagChars c (horder.mem_iff.mp hc)
      width_digit := by
        cases d.width with
        | none => simp
        | some w => exact fun c => Numeral.isDigit_of_mem_chars
      width_head := by
        cases hw : d.width with
        | none => simp
        | some w =>
          exact (Numeral.spells_chars (by decide) (by decide) w).head?_ne_zero
            (Nat.ne_of_gt (hwidth w hw).1)
      precision_digit := by
        cases d.precision with
        | none => simp
        | some n =>
          rintro _ ⟨⟩ c
          exact Numeral.isDigit_of_mem_chars }
  refine ⟨p, ?_, ?_⟩
  · cases hprecision' : d.precision <;>
      simp [Directive.behindFlags, Preamble.text, Preamble.point, p, hprecision']
  -- reading it back, an absent width and a width without digits are the same
  · have hw : (if p.width = [] then none else some (cappedNumber p.width)) = d.width := by
      show (if d.width.elim [] (Numeral.chars 10) = [] then none
        else some (cappedNumber (d.width.elim [] (Numeral.chars 10)))) = d.width
      cases hw : d.width with
      | none => rfl
      | some w =>
        rw [Option.elim_some, cappedNumber_chars (hwidth w hw).2, if_neg]
        exact (Numeral.spells_chars (by decide) (by decide) w).nonempty
    have hp : p.precision.map cappedNumber = d.precision := by
      show (d.precision.map (Numeral.chars 10)).map cappedNumber = d.precision
      cases hn : d.precision with
      | none => rfl
      | some n => simp [cappedNumber_chars (hprecision n hn)]
    rw [Preamble.directive, hw, hp, Flags.ofChars_perm_chars horder]

/-- **A directive that is read** is in range. -/
theorem Preamble.inRange_directive (p : Preamble) (conversion : Conversion) :
    (p.directive conversion).InRange where
  width w hw := by
    rw [directive, Option.mem_def, Option.ite_none_left_eq_some] at hw
    obtain ⟨hne, hw⟩ := hw
    cases hw
    exact ⟨one_le_cappedNumber p.width_digit p.width_head hne, Nat.min_le_right _ _⟩
  precision n hn := by
    obtain ⟨digits, -, rfl⟩ := Option.map_eq_some_iff.mp hn
    exact Nat.min_le_right _ _

/-! ### Templates -/

/-- An escaped text spells its own characters. -/
theorem spelled_escaped (cs : List Char) : Spelled (escaped cs) (cs.map .char) := by
  induction cs with
  | nil => exact .nil
  | cons c cs ih =>
    rw [escaped, List.flatMap_cons]
    by_cases hc : c = '%'
    · subst hc
      exact .percent ih
    · rw [if_neg hc]
      exact .char hc ih

/-- **A piece in range** is spelled by what is written for it. -/
theorem Piece.Written.spelled {piece : Piece} {part : List Char} (h : piece.Written part)
    (hrange : ∀ d, piece = .directive d → d.InRange) : Spelled part piece.items := by
  cases h with
  | literal text => exact spelled_escaped text.toList
  | directive d horder =>
    obtain ⟨p, htext, hd⟩ := (hrange d rfl).exists_preamble horder
    rw [htext, items, ← hd]
    exact .directive p d.conversion .nil

/-- **What is written for pieces** spells their items. -/
theorem Spelled.of_written {pieces : List Piece} {parts : List (List Char)}
    (h : List.Forall₂ Piece.Written pieces parts)
    (hrange : ∀ d, .directive d ∈ pieces → d.InRange) :
    Spelled parts.flatten (pieces.flatMap Piece.items) := by
  induction h with
  | nil => exact .nil
  | cons hpart _ ih =>
    rw [List.flatten_cons, List.flatMap_cons]
    refine (hpart.spelled fun d hd => hrange d (hd ▸ List.mem_cons_self)).append ?_
    exact ih fun d hd => hrange d (List.mem_cons_of_mem _ hd)

/-- **Directives that are spelled** are in range. -/
theorem Spelled.inRange {cs : List Char} {items : List Item} (h : Spelled cs items) (d : Directive)
    (hd : .directive d ∈ items) : d.InRange := by
  induction h with
  | nil => cases hd
  | char _ _ ih | percent _ ih => exact ih (by simpa using hd)
  | directive p conversion _ ih =>
    obtain heq | hd := List.mem_cons.mp hd
    · cases heq
      exact p.inRange_directive conversion
    · exact ih hd

namespace Template

/-- **Parsing undoes writing.** Printable pieces are read from every text that is written for them.
    The pieces of a template are printable, so they are read again from what is written for them,
    with the same kinds of arguments. -/
theorem parse_written :
    (∀ pieces parts, Piece.Printable pieces → List.Forall₂ Piece.Written pieces parts →
      parse (String.ofList parts.flatten) =
        .ok { source := String.ofList parts.flatten, pieces }) ∧
    ∀ source t, parse source = .ok t →
      Piece.Printable t.pieces ∧ (∃ parts, List.Forall₂ Piece.Written t.pieces parts) ∧
        ∀ parts, List.Forall₂ Piece.Written t.pieces parts →
          ∃ again, parse (String.ofList parts.flatten) = .ok again ∧
            again.pieces = t.pieces ∧ again.argKinds = t.argKinds := by
  have hread : ∀ pieces parts, Piece.Printable pieces → List.Forall₂ Piece.Written pieces parts →
      parse (String.ofList parts.flatten) =
        .ok { source := String.ofList parts.flatten, pieces } := by
    intro pieces parts hprintable hparts
    refine parse_eq_ok_iff.mpr ⟨rfl, ?_, hprintable.separated⟩
    rw [String.toList_ofList]
    exact .of_written hparts hprintable.inRange
  refine ⟨hread, fun source t ht => ?_⟩
  obtain ⟨-, hspelled, hseparated⟩ := parse_eq_ok_iff.mp ht
  have hprintable : Piece.Printable t.pieces := by
    refine ⟨hseparated, fun d hd => hspelled.inRange d ?_⟩
    exact List.mem_flatMap.mpr ⟨_, hd, List.mem_singleton.mpr rfl⟩
  refine ⟨hprintable, Piece.exists_written t.pieces, fun parts hparts => ?_⟩
  exact ⟨_, hread _ _ hprintable hparts, rfl, t.argKinds_eq.symm⟩

/-- No piece takes a character of its neighbour: a percent sign stands before a directive, a zero
    before a width and a digit behind a conversion. -/
theorem parse_written_of_touching_pieces :
    let d : Directive :=
      { flags := { leftAlign := true, zeroPad := true }
        width := some 10, precision := some 0, length := .short, conversion := .hex false }
    let pieces : List Piece := [.literal "5%", .directive d, .literal "7%"]
    let parts := ["5%%".toList, "%0-10.0hx".toList, "7%%".toList]
    Piece.Printable pieces ∧ List.Forall₂ Piece.Written pieces parts ∧
      parse "5%%%0-10.0hx7%%" = .ok { source := "5%%%0-10.0hx7%%", pieces } ∧
      parse "5%%%00--010.hx7%%" = .ok { source := "5%%%00--010.hx7%%", pieces } ∧
      ∃ again, parse "5%%%0-10.0hx7%%" = .ok again ∧ again.pieces = pieces ∧
        again.argKinds = [.unsigned] := by
  intro d pieces parts
  have hother : parse "5%%%00--010.hx7%%" = .ok { source := "5%%%00--010.hx7%%", pieces } := by
    decide +kernel
  have horder : List.Perm ['0', '-'] d.flags.chars := by decide
  have hparts : List.Forall₂ Piece.Written pieces parts :=
    .cons (.literal "5%") (.cons (.directive d horder) (.cons (.literal "7%") .nil))
  have hsource : String.ofList parts.flatten = "5%%%0-10.0hx7%%" := by decide +kernel
  obtain ⟨hprintable, -, hagain⟩ := parse_written.2 _ _ hother
  have hfirst := parse_written.1 pieces parts hprintable hparts
  have hsecond := hagain parts hparts
  rw [hsource] at hfirst hsecond
  exact ⟨hprintable, hparts, hfirst, hother, hsecond⟩

end Template

end BinaryLog
