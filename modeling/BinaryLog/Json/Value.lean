namespace BinaryLog

/-!
# JSON values

A value as written: the members of an object keep their order and may repeat a name. Text that holds
half of a surrogate pair is well formed but stands for no characters, so it is kept without them.
-/

/-- A JSON value. -/
inductive JsonValue where
  | null
  | bool (value : Bool)
  /-- A number, with its value if it is written as a natural number, without sign, fraction and
      exponent. -/
  | number (value : Option Nat)
  /-- A text, with its characters if it stands for any. -/
  | text (value : Option String)
  | array (items : List JsonValue)
  | object (members : List (Option String × JsonValue))

namespace JsonValue

/-- The natural number that a value is. -/
def toNat? : JsonValue → Option Nat
  | .number value => value
  | _ => none

/-- The text that a value is. -/
def toText? : JsonValue → Option String
  | .text value => value
  | _ => none

/-- The items that a value lists. -/
def toList? : JsonValue → Option (List JsonValue)
  | .array items => some items
  | _ => none

/-- The fields of a record with the given names, in this order; a field may be missing. A record is
    written as an object, in which names that are not asked for are skipped and those asked for are
    not repeated, or as an array of its fields, of which the last may be left out. -/
def fields? (names : List String) : JsonValue → Option (List (Option JsonValue))
  | .object members =>
    if members.all (·.1.isSome) then
      names.mapM fun name =>
        match members.filter (·.1 == some name) with
        | [] => some none
        | [(_, value)] => some (some value)
        | _ => none
    else none
  | .array items =>
    if items.length ≤ names.length then some (names.zipIdx.map fun (_, i) => items[i]?) else none
  | _ => none

/-- A field that may be missing or null. -/
def optional? {α : Type} (read : JsonValue → Option α) : Option JsonValue → Option (Option α)
  | none | some .null => some none
  | some value => (read value).map some

end JsonValue

end BinaryLog
