import BinaryLog.Template.Basic

namespace BinaryLog

/-!
# Reading templates

A template is read from left to right. A percent sign that another one follows directly stands for
itself; any other begins a directive, whose parts are each as long as they can be. The main
definitions are

* `TemplateError`, the first directive that is not complete and supported, by byte offsets;
* `readDirective`, one directive after its percent sign;
* `readItems`, the single items of a template, and `Piece.ofItems` and `ArgKind.ofItems`, the pieces
  and the kinds of arguments that they make;
* `Template.parse`.
-/

/-- Why a text is no template. Offsets count bytes. -/
inductive TemplateError where
  /-- The text ends inside the directive that begins at `offset`. -/
  | incomplete (offset : Nat)
  /-- The directive that begins at `offset` has a conversion that is not supported. -/
  | unsupported (conversion : Char) (offset : Nat)
  /-- The asterisk at `offset` asks for a width or precision among the arguments. -/
  | dynamicWidth (offset : Nat)
deriving DecidableEq

/-- The wording of a template error. -/
def TemplateError.message : TemplateError → String
  | .incomplete offset => s!"incomplete conversion starting at byte {offset}"
  | .unsupported conversion offset => s!"unsupported conversion '%{conversion}' at byte {offset}"
  | .dynamicWidth offset => s!"dynamic width or precision ('*') at byte {offset} is not supported"

/-! ### The parts of a directive -/

/-- Is it one of the flags? -/
def isFlag (c : Char) : Bool := c == '-' || c == '+' || c == ' ' || c == '#' || c == '0'

/-- The flags that occur in a run of flags. -/
def Flags.ofChars (cs : List Char) : Flags :=
  { leftAlign := cs.contains '-', forceSign := cs.contains '+', spaceSign := cs.contains ' '
    alternate := cs.contains '#', zeroPad := cs.contains '0' }

/-- The largest width and precision. A larger number stands for this one. -/
def maxCount : Nat := UInt64.size - 1

/-- One more digit behind a number. Both the product and the sum stop at the largest number. -/
def pushDigit (n : Nat) (digit : Char) : Nat :=
  min (min (n * 10) maxCount + (digit.toNat - '0'.toNat)) maxCount

/-- The number that a text begins with, if it does with a digit, and what follows. -/
def readCount (cs : List Char) : Option Nat × List Char :=
  let digits := cs.takeWhile Char.isDigit
  (if digits.isEmpty then none else some (digits.foldl pushDigit 0), cs.dropWhile Char.isDigit)

/-- The precision that a text begins with, if it does with a point, and what follows. A point alone
    means zero. -/
def readPrecision : List Char → Option Nat × List Char
  | '.' :: cs => (some ((readCount cs).1.getD 0), (readCount cs).2)
  | cs => (none, cs)

/-- The length that a text begins with, and what follows. -/
def readLength : List Char → Length × List Char
  | 'h' :: 'h' :: cs => (.char, cs)
  | 'h' :: cs => (.short, cs)
  | 'l' :: 'l' :: cs => (.longLong, cs)
  | 'l' :: cs => (.long, cs)
  | 'j' :: cs => (.intMax, cs)
  | 'z' :: cs => (.size, cs)
  | 't' :: cs => (.ptrDiff, cs)
  | 'L' :: cs => (.longDouble, cs)
  | cs => (.int, cs)

/-- Reading a number leaves no more text than there was. -/
theorem length_readCount_le (cs : List Char) : (readCount cs).2.length ≤ cs.length :=
  (List.dropWhile_suffix _).length_le

/-- So does reading a precision. -/
theorem length_readPrecision_le (cs : List Char) : (readPrecision cs).2.length ≤ cs.length := by
  rw [readPrecision.eq_def]
  split
  · exact Nat.le_succ_of_le (length_readCount_le _)
  · exact Nat.le_refl _

/-- So does reading a length. -/
theorem length_readLength_le (cs : List Char) : (readLength cs).2.length ≤ cs.length := by
  rw [readLength.eq_def]
  split <;> simp <;> omega

/-- Reads a directive after its percent sign, which stands at the byte offset `start`. All of it
    before the conversion is ASCII, so its bytes are counted by its characters. -/
def readDirective (start : Nat) (cs : List Char) : Except TemplateError (Directive × List Char) :=
  let flags := cs.takeWhile isFlag
  let afterFlags := cs.dropWhile isFlag
  match afterFlags with
  | '*' :: _ => .error (.dynamicWidth (start + 1 + flags.length))
  | _ =>
    let (width, afterWidth) := readCount afterFlags
    match afterWidth with
    | '.' :: '*' :: _ => .error (.dynamicWidth (start + 2 + (cs.length - afterWidth.length)))
    | _ =>
      let (precision, afterPrecision) := readPrecision afterWidth
      let (length, afterLength) := readLength afterPrecision
      match afterLength with
      | [] => .error (.incomplete start)
      | c :: rest =>
        match Conversion.ofChar? c with
        | none => .error (.unsupported c start)
        | some conversion =>
          .ok ({ flags := Flags.ofChars flags, width, precision, length, conversion }, rest)

/-- A directive takes at least one character. -/
theorem length_readDirective_lt {start : Nat} {cs rest : List Char} {d : Directive}
    (h : readDirective start cs = .ok (d, rest)) : rest.length < cs.length := by
  have hflags : (cs.dropWhile isFlag).length ≤ cs.length := (List.dropWhile_suffix _).length_le
  have hwidth := length_readCount_le (cs.dropWhile isFlag)
  have hprecision := length_readPrecision_le (readCount (cs.dropWhile isFlag)).2
  have hlength := length_readLength_le (readPrecision (readCount (cs.dropWhile isFlag)).2).2
  simp only [readDirective] at h
  split at h
  · cases h
  · split at h
    · cases h
    · split at h
      · cases h
      · rename_i hlast
        split at h
        · cases h
        · cases h
          rw [hlast, List.length_cons] at hlength
          omega

/-! ### Whole templates -/

/-- A character of literal text or a directive. -/
inductive Item where
  | char (c : Char)
  | directive (d : Directive)
deriving DecidableEq

/-- The items of a text that begins at the byte offset `start`. -/
def readItems (start : Nat) : List Char → Except TemplateError (List Item)
  | [] => .ok []
  | '%' :: '%' :: cs => (readItems (start + 2) cs).map (.char '%' :: ·)
  | '%' :: cs =>
    match _h : readDirective start cs with
    | .error error => .error error
    | .ok (d, rest) =>
      (readItems (start + 1 + (cs.length - rest.length)) rest).map (.directive d :: ·)
  | c :: cs => (readItems (start + c.utf8Size) cs).map (.char c :: ·)
termination_by cs => cs.length
decreasing_by
  · simp only [List.length_cons]; omega
  · exact Nat.lt_succ_of_lt (length_readDirective_lt _h)
  · simp only [List.length_cons]; omega

/-- Puts a character in front of pieces, into the literal that they begin with if they do. -/
def Piece.cons (c : Char) : List Piece → List Piece
  | .literal text :: pieces => .literal (String.ofList (c :: text.toList)) :: pieces
  | pieces => .literal (String.ofList [c]) :: pieces

/-- The pieces that items make: neighbouring characters are one literal. -/
def Piece.ofItems : List Item → List Piece
  | [] => []
  | .char c :: items => Piece.cons c (ofItems items)
  | .directive d :: items => .directive d :: ofItems items

/-- The directive that an item is. -/
def Item.directive? : Item → Option Directive
  | .char _ => none
  | .directive d => some d

/-- The kinds of arguments that items take, one for each directive as it is read. -/
def ArgKind.ofItems (items : List Item) : List ArgKind :=
  items.filterMap fun item => item.directive?.map Directive.argKind

/-- A character adds no argument. -/
theorem Piece.argKinds_cons (c : Char) (pieces : List Piece) :
    argKinds (cons c pieces) = argKinds pieces := by
  unfold cons
  split <;> rfl

/-- The kinds that are collected while items are read are those of the pieces that they make. -/
theorem ArgKind.ofItems_eq (items : List Item) :
    ofItems items = Piece.argKinds (Piece.ofItems items) := by
  induction items with
  | nil => rfl
  | cons item items ih =>
    cases item with
    | char c => rw [Piece.ofItems, Piece.argKinds_cons, ← ih]; rfl
    | directive d => exact congrArg (d.argKind :: ·) ih

/-- The template that a text stands for. -/
def Template.parse (source : String) : Except TemplateError Template :=
  (readItems 0 source.toList).map fun items =>
    { source, pieces := Piece.ofItems items, argKinds := ArgKind.ofItems items
      argKinds_eq := ArgKind.ofItems_eq items }

end BinaryLog
