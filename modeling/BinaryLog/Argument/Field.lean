import BinaryLog.Template.Basic
import BinaryLog.Text.Numeral

namespace BinaryLog

/-!
# Fields

What a directive makes of an argument is a field: a text that may be filled up to a least width.
Blanks go in front or behind. Zeros go after the sign and the mark of the base, where they do not
change the number, and only some fields take them.
-/

/-- A text to be filled up to a least width. -/
structure Field where
  /-- The sign and the mark of the base, which stay in front of zeros. -/
  lead : List Char := []
  body : List Char
  /-- May it be filled with zeros? -/
  takesZeros : Bool := false
deriving DecidableEq

namespace Field

/-- The text of a field that is not filled. -/
def text (f : Field) : List Char := f.lead ++ f.body

/-- The text of a field filled to a least width: with blanks behind if it is aligned to the left,
    which overrides zeros, else with zeros where they are asked for and taken, else with blanks in
    front. -/
def fill (f : Field) (flags : Flags) (width : Nat) : List Char :=
  let missing := width - f.text.length
  if flags.leftAlign then f.text ++ List.replicate missing ' '
  else if flags.zeroPad && f.takesZeros then f.lead ++ List.replicate missing '0' ++ f.body
  else List.replicate missing ' ' ++ f.text

end Field

end BinaryLog
