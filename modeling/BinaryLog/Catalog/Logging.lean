import BinaryLog.Catalog.Basic
import BinaryLog.Writer

namespace BinaryLog

/-!
# Logging by arguments

A message is logged by its format id and arguments; the catalog says how they are packed.
-/

/-- One thing that is logged. -/
inductive LogCommand where
  | message (id : FormatId) (timestamp : UInt64) (args : List Argument)
  | checkpoint (c : Checkpoint)
  | padding (length : Nat)
deriving DecidableEq

/-- Why something is not logged. -/
inductive LogError where
  /-- The arguments do not fit the format. -/
  | arguments (error : ArgumentError)
  | write (error : WriteError)
deriving DecidableEq

namespace Catalog

/-- The payload of a message. A message whose format is not known has none. -/
def payload (catalog : Catalog) (id : FormatId) (args : List Argument) :
    Except ArgumentError Bytes :=
  match catalog.get? id with
  | some (_, template) => template.pack args
  | none => .ok []

/-- Logs what a command says. Arguments that do not fit leave the writer as it was. -/
def log (catalog : Catalog) (w : Writer) : LogCommand → Except LogError Unit × Writer
  | .message id timestamp args =>
    match catalog.payload id args with
    | .error error => (.error (.arguments error), w)
    | .ok payload =>
      let (result, w) := w.message id timestamp payload
      (result.mapError .write, w)
  | .checkpoint c =>
    let (result, w) := w.checkpoint c
    (result.mapError .write, w)
  | .padding length =>
    let (result, w) := w.padding length
    (result.mapError .write, w)

end Catalog

end BinaryLog
