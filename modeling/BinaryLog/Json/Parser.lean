import BinaryLog.Json.Value

namespace BinaryLog.JsonValue

/-!
# Reading JSON

Each reader takes the characters that are left and yields what it has read with the characters after
it, or nothing if they do not begin with it. The main definitions are

* `readUnits` and `assemble`, the characters of a text in two steps;
* `readNumber`, a number;
* `readValue`, any value, and `parse?`, a whole document.
-/

/-- A reader of an `α`. -/
abbrev Reader (α : Type) := List Char → Option (α × List Char)

/-- The characters that may stand between tokens. -/
def isBlank (c : Char) : Bool := c == ' ' || c == '\n' || c == '\t' || c == '\r'

/-- The characters after the blanks in front. -/
def skipBlanks (cs : List Char) : List Char := cs.dropWhile isBlank

/-! ### Text -/

/-- A character of a text as written, or a code that an escape gives. -/
inductive CodeUnit where
  | char (c : Char)
  | code (n : Nat)

/-- The value of a hexadecimal digit. -/
def hexValue? (c : Char) : Option Nat :=
  if c.isDigit then some (c.toNat - '0'.toNat)
  else if 'a' ≤ c && c ≤ 'f' then some (c.toNat - 'a'.toNat + 10)
  else if 'A' ≤ c && c ≤ 'F' then some (c.toNat - 'A'.toNat + 10)
  else none

/-- The value of four hexadecimal digits. -/
def hexValues? (a b c d : Char) : Option Nat := do
  return (((← hexValue? a) * 16 + (← hexValue? b)) * 16 + (← hexValue? c)) * 16 + (← hexValue? d)

/-- The character that a backslash and one further character stand for. -/
def escaped? : Char → Option Char
  | '"' => some '"'
  | '\\' => some '\\'
  | '/' => some '/'
  | 'b' => some '\x08'
  | 'f' => some '\x0c'
  | 'n' => some '\n'
  | 'r' => some '\r'
  | 't' => some '\t'
  | _ => none

/-- The units of a text up to its closing quote, which is read too. Control characters have to be
    escaped. -/
def readUnits : Reader (List CodeUnit)
  | [] => none
  | '"' :: cs => some ([], cs)
  | '\\' :: 'u' :: a :: b :: c :: d :: cs => do
    let n ← hexValues? a b c d
    let (units, rest) ← readUnits cs
    return (.code n :: units, rest)
  | '\\' :: e :: cs => do
    let c ← escaped? e
    let (units, rest) ← readUnits cs
    return (.char c :: units, rest)
  | c :: cs => do
    if c < ' ' || c == '\\' then none
    let (units, rest) ← readUnits cs
    return (.char c :: units, rest)

/-- Does a code begin a surrogate pair? -/
def isHighSurrogate (n : Nat) : Bool := 0xD800 ≤ n && n < 0xDC00

/-- Does a code end a surrogate pair? -/
def isLowSurrogate (n : Nat) : Bool := 0xDC00 ≤ n && n < 0xE000

/-- The characters that units stand for. The codes of a surrogate pair stand next to each other and
    are one character. -/
def assemble : List CodeUnit → Option (List Char)
  | [] => some []
  | .char c :: units => (assemble units).map (c :: ·)
  | .code high :: .code low :: units =>
    if isHighSurrogate high then
      if isLowSurrogate low then
        (assemble units).map (Char.ofNat (0x10000 + (high - 0xD800) * 0x400 + (low - 0xDC00)) :: ·)
      else none
    else if isLowSurrogate high then none
    else (assemble (.code low :: units)).map (Char.ofNat high :: ·)
  | .code n :: units =>
    if isHighSurrogate n || isLowSurrogate n then none
    else (assemble units).map (Char.ofNat n :: ·)

/-- A text after its opening quote. -/
def readText : Reader (Option String) := fun cs => do
  let (units, rest) ← readUnits cs
  return ((assemble units).map String.ofList, rest)

/-! ### Numbers -/

/-- Digits, one at least. -/
def readDigits : Reader (List Char) := fun cs =>
  let digits := cs.takeWhile Char.isDigit
  if digits.isEmpty then none else some (digits, cs.dropWhile Char.isDigit)

/-- The fraction of a number, if it has one. -/
def readFraction : Reader Bool
  | '.' :: cs => do
    let (_, rest) ← readDigits cs
    return (true, rest)
  | cs => some (false, cs)

/-- The exponent of a number, if it has one. -/
def readExponent : Reader Bool
  | mark :: cs =>
    if mark == 'e' || mark == 'E' then do
      let digits :=
        match cs with
        | '+' :: rest | '-' :: rest => rest
        | _ => cs
      let (_, rest) ← readDigits digits
      return (true, rest)
    else some (false, mark :: cs)
  | [] => some (false, [])

/-- A number after its sign. Its whole part has no leading zero. -/
def readMagnitude (negative : Bool) : Reader JsonValue := fun cs => do
  let (whole, rest) ← readDigits cs
  if whole.head? == some '0' && whole != ['0'] then none
  let (fraction, rest) ← readFraction rest
  let (exponent, rest) ← readExponent rest
  let value := if negative || fraction || exponent then none else some (Nat.ofDigitChars 10 whole 0)
  return (.number value, rest)

/-- A number. -/
def readNumber : Reader JsonValue
  | '-' :: cs => readMagnitude true cs
  | cs => readMagnitude false cs

/-! ### Values -/

mutual

/-- A value after the blanks in front of it. Each step into a value or on to the next spends some of
    the `fuel`. -/
def readValue (fuel : Nat) : Reader JsonValue := fun cs =>
  match fuel with
  | 0 => none
  | fuel + 1 =>
    match skipBlanks cs with
    | 'n' :: 'u' :: 'l' :: 'l' :: rest => some (.null, rest)
    | 't' :: 'r' :: 'u' :: 'e' :: rest => some (.bool true, rest)
    | 'f' :: 'a' :: 'l' :: 's' :: 'e' :: rest => some (.bool false, rest)
    | '"' :: rest => (readText rest).map fun (value, rest) => (.text value, rest)
    | '[' :: rest =>
      match skipBlanks rest with
      | ']' :: rest => some (.array [], rest)
      | rest => (readItems fuel rest).map fun (items, rest) => (.array items, rest)
    | '{' :: rest =>
      match skipBlanks rest with
      | '}' :: rest => some (.object [], rest)
      | rest => (readMembers fuel rest).map fun (members, rest) => (.object members, rest)
    | rest => readNumber rest

/-- The items of an array up to its closing bracket, which is read too. There is one at least. -/
def readItems (fuel : Nat) : Reader (List JsonValue) := fun cs =>
  match fuel with
  | 0 => none
  | fuel + 1 => do
    let (item, rest) ← readValue fuel cs
    match skipBlanks rest with
    | ']' :: rest => return ([item], rest)
    | ',' :: rest =>
      let (items, rest) ← readItems fuel rest
      return (item :: items, rest)
    | _ => none

/-- The members of an object up to its closing brace, which is read too. There is one at least. -/
def readMembers (fuel : Nat) : Reader (List (Option String × JsonValue)) := fun cs =>
  match fuel with
  | 0 => none
  | fuel + 1 =>
    match skipBlanks cs with
    | '"' :: rest => do
      let (name, rest) ← readText rest
      match skipBlanks rest with
      | ':' :: rest =>
        let (value, rest) ← readValue fuel rest
        match skipBlanks rest with
        | '}' :: rest => return ([(name, value)], rest)
        | ',' :: rest =>
          let (members, rest) ← readMembers fuel rest
          return ((name, value) :: members, rest)
        | _ => none
      | _ => none
    | _ => none

end

/-- The value that a document holds. Of two steps one at least reads a character, so the fuel
    suffices. -/
def parse? (document : String) : Option JsonValue := do
  let cs := document.toList
  let (value, rest) ← readValue (2 * cs.length + 2) cs
  if (skipBlanks rest).isEmpty then some value else none

end BinaryLog.JsonValue
