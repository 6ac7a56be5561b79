import BinaryLog.FormatId
import BinaryLog.Json.Parser
import BinaryLog.Json.Printer

namespace BinaryLog

/-!
# Catalog entries

An entry tells the format of the messages under one id, and may tell where in the program they come
from. The main definitions are

* `CatalogEntry`, with `CatalogEntry.origin`, the origin as shown before a message;
* `CatalogEntry.listOfJson?` and `CatalogEntry.listToJson`, the entries of a catalog document.
-/

/-- The format of the messages under an id, and their origin as far as it is known. -/
structure CatalogEntry where
  id : FormatId
  format : String
  file : Option String := none
  line : Option UInt32 := none
  level : Option String := none
deriving DecidableEq

namespace CatalogEntry

/-- The origin of a message: file and line, then the level. A line means nothing without a file. -/
def origin (e : CatalogEntry) : String :=
  let place :=
    match e.file, e.line with
    | some file, some line => file ++ ":" ++ toString line.toNat
    | some file, none => file
    | none, _ => ""
  let whole :=
    match e.level with
    | some level => if place.isEmpty then level else place ++ " " ++ level
    | none => place
  if whole.isEmpty then "" else whole ++ ": "

/-! ### Documents -/

/-- The number of 32 bits that a value is. -/
def word? (v : JsonValue) : Option UInt32 := do
  let n ← v.toNat?
  if n < UInt32.size then some (UInt32.ofNat n) else none

/-- The entry that a value is. Id and format have to be there. -/
def ofJson? (v : JsonValue) : Option CatalogEntry := do
  match ← v.fields? ["id", "format", "file", "line", "level"] with
  | [some id, some format, file, line, level] =>
    return {
      id := ⟨← word? id⟩
      format := ← format.toText?
      file := ← JsonValue.optional? JsonValue.toText? file
      line := ← JsonValue.optional? word? line
      level := ← JsonValue.optional? JsonValue.toText? level }
  | _ => none

/-- The entries that a catalog document lists. -/
def listOfJson? (v : JsonValue) : Option (List CatalogEntry) := do
  match ← v.fields? ["formats"] with
  | [some formats] => (← formats.toList?).mapM ofJson?
  | _ => none

/-- The members of an entry. What is not known is left out. -/
def members (e : CatalogEntry) : List (String × String) :=
  [("id", toString e.id.val.toNat), ("format", JsonText.text e.format)]
    ++ (e.file.map fun file => ("file", JsonText.text file)).toList
    ++ (e.line.map fun line => ("line", toString line.toNat)).toList
    ++ (e.level.map fun level => ("level", JsonText.text level)).toList

/-- A catalog document that lists the entries. -/
def listToJson (entries : List CatalogEntry) : String :=
  JsonText.object [("formats", JsonText.array (entries.map fun e => JsonText.object e.members))]

end CatalogEntry

end BinaryLog
