import BinaryLog.Argument.Packing
import BinaryLog.Argument.Rendering
import BinaryLog.Catalog.Entry
import BinaryLog.Registry
import BinaryLog.Template.Parser

namespace BinaryLog

/-!
# Catalogs

A catalog knows the template of each format id. It is loaded as a whole or refused at the first
entry that repeats an id or has no valid format. The main definitions are

* `Catalog.ofEntries`, `Catalog.ofText` and `Catalog.ofFile`, with `CatalogError`;
* `Template.routine`, the routine that reads and shows the messages of a template;
* `Catalog.registry`, the routines of a whole catalog.
-/

/-! ### Files -/

/-- Why a file cannot be read. -/
inductive FileFault where
  | notFound
  /-- Part of the path is a file where a directory has to be. -/
  | notDirectory
  /-- The path leads to a directory, which can be opened but has no bytes. -/
  | isDirectory
  /-- The path, or a name in it, is longer than the file system allows. -/
  | nameTooLong
  | other (cause : String)
deriving DecidableEq

/-- The wording of a fault. -/
def FileFault.message : FileFault → String
  | .notFound => "No such file or directory (os error 2)"
  | .notDirectory => "Not a directory (os error 20)"
  | .isDirectory => "Is a directory (os error 21)"
  | .nameTooLong => "File name too long (os error 36)"
  | .other cause => cause

/-- What is found under a path. -/
abbrev FileContent := Except FileFault Bytes

/-! ### Loading -/

/-- Why a catalog is refused. -/
inductive CatalogError where
  /-- The file at `path` cannot be read. -/
  | unreadable (path cause : String)
  /-- The document is not JSON, or not that of a catalog. -/
  | malformed
  | duplicateId (id : FormatId)
  | badFormat (id : FormatId) (error : TemplateError)
deriving DecidableEq

namespace CatalogError

/-- The wording of an error. -/
def message : CatalogError → String
  | .unreadable path _ => s!"failed to read catalog {path}"
  | .malformed => "invalid catalog JSON"
  | .duplicateId id => s!"duplicate format id {id}"
  | .badFormat id _ => s!"format id {id} has an unsupported format string"

/-- The wording of what lies behind an error, where something does. -/
def cause? : CatalogError → Option String
  | .unreadable _ cause => some cause
  | .badFormat _ error => some error.message
  | _ => none

end CatalogError

/-- The entries of a catalog with their templates, by id. -/
abbrev Catalog := FormatTable (CatalogEntry × Template)

namespace Catalog

/-- Adds an entry to a catalog. A repeated id is found before its format is looked at. -/
def add (catalog : Catalog) (entry : CatalogEntry) : Except CatalogError Catalog :=
  if catalog.contains entry.id then .error (.duplicateId entry.id)
  else
    match Template.parse entry.format with
    | .ok template => .ok (catalog.insert entry.id (entry, template))
    | .error error => .error (.badFormat entry.id error)

/-- The catalog of a list of entries. -/
def ofEntries (entries : List CatalogEntry) : Except CatalogError Catalog :=
  entries.foldlM add {}

/-- The catalog that a document describes. -/
def ofText (document : String) : Except CatalogError Catalog :=
  match (JsonValue.parse? document).bind CatalogEntry.listOfJson? with
  | some entries => ofEntries entries
  | none => .error .malformed

/-- The catalog in a file, whose content was found at `path`. -/
def ofFile (path : String) (content : FileContent) : Except CatalogError Catalog :=
  match content with
  | .error fault => .error (.unreadable path fault.message)
  | .ok bytes =>
    match Utf8.decode bytes with
    | .error _ => .error (.unreadable path "stream did not contain valid UTF-8")
    | .ok document => ofText document

/-- The entries, in order. -/
def entryList (catalog : Catalog) : List CatalogEntry := catalog.entries.map fun entry => entry.2.1

end Catalog

/-! ### Reading messages -/

/-- Reads the arguments of a message and shows its text after an origin. -/
def Template.routine (t : Template) (origin : String) : Routine := fun id => do
  let args ← t.unpack id
  match t.write args with
  | .ok text => return origin ++ text
  | .error error => Decoder.fail (.malformedPayload id (.unprintable error))

/-- The routines of a catalog, which show the origin of each message if asked to. -/
def Catalog.registry (catalog : Catalog) (showOrigin : Bool) : Registry :=
  catalog.map fun _ (entry, template) => template.routine (if showOrigin then entry.origin else "")

end BinaryLog
