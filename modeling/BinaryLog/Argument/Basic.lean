import BinaryLog.Argument.Error
import BinaryLog.Binary64.Rounding
import BinaryLog.Template.Basic

namespace BinaryLog

/-!
# Arguments

An argument is an integer of 64 bits of either sign, a floating point number or a text. Which
arguments a template takes is a matter of their kinds alone: an integer of either sign does for
every conversion of integers. The main definitions are

* `Argument`, with `bits`, the integer it stands for, and `toFloat`;
* `Argument.fits`, whether a kind of conversion takes it;
* `Template.check`, what is wrong with a list of arguments.
-/

/-- An argument of a message. -/
inductive Argument where
  | int (value : Int64)
  | uint (value : UInt64)
  | float (value : Binary64)
  | text (value : String)
deriving DecidableEq

namespace Argument

/-- Does a conversion of the given kind take the argument? -/
def fits (a : Argument) (kind : ArgKind) : Bool :=
  match kind, a with
  | .float, .float _ => true
  | .text, .text _ => true
  | .signed, .int _ | .signed, .uint _ => true
  | .unsigned, .int _ | .unsigned, .uint _ => true
  | .char, .int _ | .char, .uint _ => true
  | .pointer, .int _ | .pointer, .uint _ => true
  | _, _ => false

/-- The 64 bits of an argument; a text has none. -/
def bits : Argument → UInt64
  | .int value => value.toUInt64
  | .uint value => value
  | .float value => value.bits
  | .text _ => 0

/-- The argument as a floating point number; a text counts as zero. -/
def toFloat : Argument → Binary64
  | .int value => Binary64.ofInt value.toInt
  | .uint value => Binary64.ofNat value.toNat
  | .float value => value
  | .text _ => Binary64.zero

/-- The argument as a text; a number counts as the empty one. -/
def toText : Argument → String
  | .text value => value
  | _ => ""

end Argument

/-- What is wrong with a list of arguments: their number, or the first that its directive does not
    take. -/
def Template.check (t : Template) (args : List Argument) : Except ArgumentError Unit :=
  if t.argKinds.length ≠ args.length then .error (.count t.argKinds.length args.length)
  else
    match (t.directives.zip args).zipIdx.find? fun ((d, a), _) => !a.fits d.argKind with
    | some ((d, _), index) => .error (.kind index d.conversion.toChar)
    | none => .ok ()

end BinaryLog
