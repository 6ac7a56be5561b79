import BinaryLog.Text.Numeral

namespace BinaryLog.JsonText

/-!
# Writing JSON

Records are written without blanks. In text only the quote, the backslash and the control characters
are escaped.
-/

/-- A character as it stands in a text. -/
def char (c : Char) : String :=
  match c with
  | '"' => "\\\""
  | '\\' => "\\\\"
  | '\x08' => "\\b"
  | '\x0c' => "\\f"
  | '\n' => "\\n"
  | '\r' => "\\r"
  | '\t' => "\\t"
  | c => if c < ' ' then "\\u00" ++ Numeral.hexByte (UInt8.ofNat c.toNat) else String.singleton c

/-- A text in quotes. -/
def text (s : String) : String := "\"" ++ String.join (s.toList.map char) ++ "\""

/-- Values in brackets. -/
def array (items : List String) : String := "[" ++ ",".intercalate items ++ "]"

/-- Named values in braces. -/
def object (members : List (String × String)) : String :=
  "\x7b" ++ ",".intercalate (members.map fun (name, value) => text name ++ ":" ++ value) ++ "\x7d"

end BinaryLog.JsonText
