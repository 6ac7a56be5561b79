import BinaryLog.Proofs.Argument.Filling
import BinaryLog.Proofs.Template.Grammar
import BinaryLog.Proofs.Text.Boundary

namespace BinaryLog

/-!
# Texts as arguments

A precision counts the bytes of a text and a width counts its characters.

* `Directive.write_precise`, under a precision a text is cut down to its longest beginning that
  fits, which a short search finds;
* `padBlanks`, a text with blanks in front or behind, and `padBlanks_inj`, which tells their number;
* `Directive.write_wide`, a width adds the blanks that are missing in characters. These are as many
  as are missing in bytes only if the text fills the width anyway or is in ASCII.
-/

/-! ### Characters and bytes -/

/-- A text has no more characters than bytes, and as many only in ASCII. -/
theorem length_le_utf8ByteSize (text : String) :
    text.length ≤ text.utf8ByteSize ∧
      (text.length = text.utf8ByteSize ↔ ∀ c ∈ text.toList, c.toNat < 128) := by
  -- over lists, whose bytes are counted character by character
  suffices h : ∀ cs : List Char, cs.length ≤ byteLength cs ∧
      (cs.length = byteLength cs ↔ ∀ c ∈ cs, c.toNat < 128) by
    simpa [byteLength, String.length_toList] using h text.toList
  intro cs
  induction cs with
  | nil => simp [byteLength]
  | cons c cs ih =>
    have hpos := c.utf8Size_pos
    have hascii : c.utf8Size = 1 ↔ c.toNat < 128 := by
      rw [Char.utf8Size_eq_one_iff, UInt32.le_iff_toNat_le]
      exact Nat.lt_succ_iff.symm
    rw [List.length_cons, byteLength_cons, List.forall_mem_cons, ← hascii, ← ih.2]
    omega

/-- A text with blanks in front of it, or behind it if it is aligned to the left. -/
def padBlanks (left : Bool) (count : ℕ) (text : String) : String :=
  if left then text ++ String.ofList (List.replicate count ' ')
  else String.ofList (List.replicate count ' ') ++ text

section Blanks

variable {left : Bool} {count more : ℕ} {text : String}

theorem length_padBlanks (left : Bool) (count : ℕ) (text : String) :
    (padBlanks left count text).length = count + text.length := by
  unfold padBlanks
  split <;> simp [Nat.add_comm]

theorem utf8ByteSize_padBlanks (left : Bool) (count : ℕ) (text : String) :
    (padBlanks left count text).utf8ByteSize = count + text.utf8ByteSize := by
  have hblanks : (String.ofList (List.replicate count ' ')).utf8ByteSize = count := by
    have hascii : ∀ c ∈ List.replicate count ' ', c.utf8Size = 1 := fun c hc => by
      rw [List.eq_of_mem_replicate hc]
      rfl
    exact (byteLength_of_ascii hascii).trans List.length_replicate
  unfold padBlanks
  split
  · rw [String.utf8ByteSize_append, hblanks, Nat.add_comm]
  · rw [String.utf8ByteSize_append, hblanks]

/-- The number of blanks can be told from the text. -/
theorem padBlanks_inj : padBlanks left count text = padBlanks left more text ↔ count = more := by
  refine ⟨fun h => ?_, fun h => by rw [h]⟩
  have hlength := congrArg String.length h
  rw [length_padBlanks, length_padBlanks] at hlength
  exact Nat.add_right_cancel hlength

/-- A field that takes no zeros is filled with blanks. -/
theorem Field.ofList_fill {f : Field} (h : f.takesZeros = false) (flags : Flags) (width : ℕ) :
    String.ofList (f.fill flags width) =
      padBlanks flags.leftAlign (width - f.text.length) (String.ofList f.text) := by
  unfold fill padBlanks
  rw [h, Bool.and_false]
  split
  · exact String.ofList_append
  · exact String.ofList_append

end Blanks

namespace Directive

/-! ### Precisions -/

/-- With a precision, a text is cut to as many bytes. -/
theorem write_eq_takeBytes (d : Directive) (limit : ℕ) (text : String) :
    { d with width := none, precision := some limit, conversion := .text }.write (.text text) =
      takeBytes limit text :=
  String.toList_injective (toList_write rfl (.text text))

/-- **Texts with a precision.** What is shown is the longest beginning of the text that takes no
    more bytes than the precision says, in whole characters. The search that goes backwards from
    there stops within three steps and within the text. So a greater precision shows no less, a text
    that fits is shown as it is, and what is shown fits. -/
theorem write_precise (d : Directive) (limit : ℕ) (text : String) :
    let shown (limit : ℕ) (text : String) : String :=
      { d with width := none, precision := some limit, conversion := .text }.write (.text text)
    LongestWithin limit text (shown limit text) ∧
    (limit < text.utf8ByteSize → ∃ steps ≤ 3, SearchStops text limit steps ∧
      (boundaryBefore text limit).offset.byteIdx = limit - steps ∧
      (shown limit text).utf8ByteSize = limit - steps) ∧
    (∀ more, limit ≤ more → (shown limit text).toList <+: (shown more text).toList) ∧
    (text.utf8ByteSize ≤ limit → shown limit text = text) ∧
    shown limit (shown limit text) = shown limit text := by
  intro shown
  have hshown (limit : ℕ) (text : String) : LongestWithin limit text (shown limit text) := by
    rw [show shown limit text = takeBytes limit text from d.write_eq_takeBytes limit text]
    exact longestWithin_takeBytes limit text
  refine ⟨hshown limit text, fun hlt => ?_, fun more hle => ?_, fun hfits => ?_, ?_⟩
  -- the search goes back over the bytes of one character at most
  · obtain ⟨steps, hstops, hoffset⟩ := exists_searchStops text limit
    obtain ⟨rest, -, hsize⟩ := takeBytes_splits hlt
    refine ⟨steps, hstops.steps_le_three hlt, hstops, hoffset, ?_⟩
    rw [← hoffset, ← hsize]
    exact congrArg String.utf8ByteSize (d.write_eq_takeBytes limit text)
  · exact (hshown limit text).mono (hshown more text) hle
  · exact (hshown limit text).unique (.self hfits)
  · exact (hshown limit (shown limit text)).unique (.self (hshown limit text).size_le)

/-- Two bytes are not enough for the second character. -/
example : takeBytes 2 "aéb" = "a" := by decide +kernel

/-! ### Widths -/

/-- With a width, a text is padded to as many characters. -/
theorem write_eq_padBlanks (d : Directive) (width : ℕ) (text : String) :
    { d with width := some width, conversion := .text }.write (.text text) =
      padBlanks d.flags.leftAlign
        (width - ({ d with width := none, conversion := .text }.write (.text text)).length)
        ({ d with width := none, conversion := .text }.write (.text text)) := by
  have hbare : { d with width := none, conversion := .text }.write (.text text) =
      String.ofList (d.textField text).text := by
    apply String.toList_injective
    rw [toList_write rfl, String.toList_ofList]
    rfl
  have hblanks : (d.textField text).takesZeros = false := by
    unfold textField
    split <;> rfl
  rw [hbare, String.length_ofList]
  exact Field.ofList_fill hblanks d.flags width

/-- **Texts with a width.** A text is filled up with blanks to as many characters as the width says.
    It comes to as many bytes only if nothing is missing or the text is in ASCII. -/
theorem write_wide (d : Directive) (width : ℕ) (text : String) :
    let bare := { d with width := none, conversion := .text }.write (.text text)
    let filled := { d with width := some width, conversion := .text }.write (.text text)
    filled = padBlanks d.flags.leftAlign (width - bare.length) bare ∧
    filled.length = max width bare.length ∧
    filled.utf8ByteSize = max width bare.length + (bare.utf8ByteSize - bare.length) ∧
    (filled = padBlanks d.flags.leftAlign (width - bare.utf8ByteSize) bare ↔
      width ≤ bare.length ∨ ∀ c ∈ bare.toList, c.toNat < 128) ∧
    (filled.utf8ByteSize = max width bare.utf8ByteSize ↔
      width ≤ bare.length ∨ ∀ c ∈ bare.toList, c.toNat < 128) := by
  intro bare filled
  have hfilled : filled = padBlanks d.flags.leftAlign (width - bare.length) bare :=
    d.write_eq_padBlanks width text
  -- blanks are added by characters, so only ASCII has as many of them in bytes
  obtain ⟨hle, hascii⟩ := length_le_utf8ByteSize bare
  have hbytes : filled.utf8ByteSize = width - bare.length + bare.utf8ByteSize := by
    rw [hfilled, utf8ByteSize_padBlanks]
  rw [← hascii]
  refine ⟨hfilled, ?_, ?_, ?_, ?_⟩
  · rw [hfilled, length_padBlanks]
    omega
  · omega
  · rw [hfilled, padBlanks_inj]
    omega
  · omega

/-- A text of one character and two bytes is filled up to six characters, which are seven bytes. -/
theorem write_wide_of_two_bytes :
    let narrow : Directive := { conversion := .text }
    let wide : Directive := { width := some 6, conversion := .text }
    (narrow.write (.text "é")).utf8ByteSize = 2 ∧ wide.write (.text "é") = "     é" ∧
      wide.write (.text "é") ≠ padBlanks false (6 - 2) (narrow.write (.text "é")) ∧
      (wide.write (.text "é")).utf8ByteSize ≠ max 6 (narrow.write (.text "é")).utf8ByteSize := by
  decide +kernel

end Directive

end BinaryLog
