import BinaryLog.Decoder
import BinaryLog.FormatTable

namespace BinaryLog

/-!
# Registries

A registry says how the payload of each known format is read and what text it stands for.
-/

/-- A way to read a payload, which may depend on the format id it stands under, and to put it into
    words. -/
abbrev Routine := FormatId → Decoder String

/-- A routine for each known format. -/
abbrev Registry := FormatTable Routine

namespace Registry

/-- The routine of a format, which is an error to ask for if there is none. -/
def find (r : Registry) (id : FormatId) : Except DecodeError Routine :=
  match r.get? id with
  | some routine => .ok routine
  | none => .error (.unknownFormat id)

/-- Reads the payload of a message of the given format. -/
def decode (r : Registry) (id : FormatId) : Decoder String := do
  let routine ← Decoder.ofExcept (r.find id)
  routine id

/-- The known ids, for diagnostics. -/
def description (r : Registry) : String :=
  let ids := r.ids.map fun id => s!"FormatId({id})"
  "DecoderRegistry \x7b ids: [" ++ ", ".intercalate ids ++ "] \x7d"

end Registry

end BinaryLog
