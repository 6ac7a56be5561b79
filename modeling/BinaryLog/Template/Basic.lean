namespace BinaryLog

/-!
# Templates

The text of a message is described by a template: literal text in which directives stand for the
arguments. A directive is a percent sign, flags, a least width, a precision, the length of an
integer, and the conversion itself. The main definitions are

* `Directive` with its parts `Flags`, `Length` and `Conversion`;
* `ArgKind`, the kind of argument that a conversion takes;
* `Piece` and `Template`, which keeps the kinds of its arguments, with `Template.directives`.
-/

/-- The kinds of arguments. -/
inductive ArgKind where
  | signed
  | unsigned
  | char
  | pointer
  | float
  | text
deriving DecidableEq

/-! ### The parts of a directive -/

/-- How an argument is converted to text. -/
inductive Conversion where
  | decimal
  /-- The other name of `decimal`. -/
  | integer
  | unsigned
  | octal
  | hex (upper : Bool)
  | char
  | pointer
  | fixed (upper : Bool)
  | exponential (upper : Bool)
  | general (upper : Bool)
  | text
deriving DecidableEq

namespace Conversion

/-- The character that names a conversion. -/
def toChar : Conversion → Char
  | .decimal => 'd'
  | .integer => 'i'
  | .unsigned => 'u'
  | .octal => 'o'
  | .hex upper => if upper then 'X' else 'x'
  | .char => 'c'
  | .pointer => 'p'
  | .fixed upper => if upper then 'F' else 'f'
  | .exponential upper => if upper then 'E' else 'e'
  | .general upper => if upper then 'G' else 'g'
  | .text => 's'

/-- The conversion that a character names. -/
def ofChar? : Char → Option Conversion
  | 'd' => some .decimal
  | 'i' => some .integer
  | 'u' => some .unsigned
  | 'o' => some .octal
  | 'x' => some (.hex false)
  | 'X' => some (.hex true)
  | 'c' => some .char
  | 'p' => some .pointer
  | 'f' => some (.fixed false)
  | 'F' => some (.fixed true)
  | 'e' => some (.exponential false)
  | 'E' => some (.exponential true)
  | 'g' => some (.general false)
  | 'G' => some (.general true)
  | 's' => some .text
  | _ => none

/-- The kind of argument that a conversion takes. -/
def argKind : Conversion → ArgKind
  | .decimal | .integer => .signed
  | .unsigned | .octal | .hex _ => .unsigned
  | .char => .char
  | .pointer => .pointer
  | .fixed _ | .exponential _ | .general _ => .float
  | .text => .text

/-- Every conversion is read back from its letter. -/
@[simp] theorem ofChar?_toChar (c : Conversion) : ofChar? c.toChar = some c := by
  rcases c with _ | _ | _ | _ | ⟨_ | _⟩ | _ | _ | ⟨_ | _⟩ | ⟨_ | _⟩ | ⟨_ | _⟩ | _ <;> rfl

end Conversion

/-- The flags of a directive. -/
structure Flags where
  leftAlign : Bool := false
  forceSign : Bool := false
  spaceSign : Bool := false
  alternate : Bool := false
  zeroPad : Bool := false
deriving DecidableEq

/-- The length of an integer argument. -/
inductive Length where
  | char
  | short
  | int
  | long
  | longLong
  | intMax
  | size
  | ptrDiff
  | longDouble
deriving DecidableEq

/-- The bits of an integer of this length that count. -/
def Length.bits : Length → Nat
  | .char => 8
  | .short => 16
  | .int => 32
  | _ => 64

/-- What stands for an argument. -/
structure Directive where
  flags : Flags := {}
  /-- The least width of the text. -/
  width : Option Nat := none
  precision : Option Nat := none
  length : Length := .int
  conversion : Conversion
deriving DecidableEq

/-- The kind of argument that a directive takes. -/
def Directive.argKind (d : Directive) : ArgKind := d.conversion.argKind

/-! ### Templates -/

/-- A part of a template. -/
inductive Piece where
  | literal (text : String)
  | directive (d : Directive)
deriving DecidableEq

/-- The directive that a piece is. -/
def Piece.directive? : Piece → Option Directive
  | .literal _ => none
  | .directive d => some d

/-- The kinds of arguments that pieces take, in order. -/
def Piece.argKinds (pieces : List Piece) : List ArgKind :=
  (pieces.filterMap Piece.directive?).map Directive.argKind

/-- A template: its text, the pieces that the text stands for, and the kinds of arguments that these
    take. The kinds are kept beside the pieces, so that they are collected once. -/
structure Template where
  source : String
  pieces : List Piece
  argKinds : List ArgKind := Piece.argKinds pieces
  /-- The kinds are those of the pieces. -/
  argKinds_eq : argKinds = Piece.argKinds pieces := by rfl
deriving DecidableEq

namespace Template

/-- The directives, in order. -/
def directives (t : Template) : List Directive := t.pieces.filterMap Piece.directive?

/-- The kinds kept beside the pieces are those of the directives, one for each and in order. -/
theorem argKinds_eq_map (t : Template) : t.argKinds = t.directives.map Directive.argKind :=
  t.argKinds_eq

/-- A template is told by its text and its pieces. -/
theorem ext_iff {t u : Template} : t = u ↔ t.source = u.source ∧ t.pieces = u.pieces := by
  refine ⟨fun h => h ▸ ⟨rfl, rfl⟩, ?_⟩
  obtain ⟨source, pieces, kinds, hkinds⟩ := t
  obtain ⟨_, _, others, hothers⟩ := u
  rintro ⟨rfl, rfl⟩
  obtain rfl : kinds = others := hkinds.trans hothers.symm
  rfl

/-- The number of arguments that are not text. -/
def nonTextCount (t : Template) : Nat := t.argKinds.countP (· != .text)

end Template

end BinaryLog
