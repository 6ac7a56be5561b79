import BinaryLog.Word

namespace BinaryLog.Utf8

/-!
# UTF-8

Bytes as text and text as bytes. Reading classifies how the remaining bytes begin (`Head`): with a
whole character, with a part that no character begins with, or in the middle of a character at the
very end. The main definitions are

* `encode`, the bytes of a text;
* `decode`, the text of bytes that are valid, or the first `Fault`;
* `decodeLossy`, which puts the replacement character in place of each maximal invalid part.
-/

/-- The bytes of a text. -/
def encode (text : String) : Bytes :=
  text.toList.flatMap String.utf8EncodeChar

/-! ### How bytes begin -/

/-- How a non-empty byte sequence begins. The counts leave out the first byte. -/
inductive Head where
  /-- A whole character, which takes this many further bytes. -/
  | scalar (c : Char) (further : Nat)
  /-- A longest part that no character begins with, of this many further bytes. -/
  | invalid (further : Nat)
  /-- The bytes end before the character they begin does. -/
  | unfinished

/-- A byte that continues a character. -/
def isContinuation (b : UInt8) : Bool := 0x80 ≤ b && b ≤ 0xBF

/-- The six bits that a continuation byte carries. -/
def payload (b : UInt8) : Nat := b.toNat % 64

/-- The bytes that may come second after a first byte of a character of three or four bytes. The
    ranges leave out overlong forms, surrogates and what lies above the last code point. -/
def secondRange (first : UInt8) : UInt8 × UInt8 :=
  if first = 0xE0 then (0xA0, 0xBF)
  else if first = 0xED then (0x80, 0x9F)
  else if first = 0xF0 then (0x90, 0xBF)
  else if first = 0xF4 then (0x80, 0x8F)
  else (0x80, 0xBF)

/-- Is `second` allowed after `first`? -/
def allowsSecond (first second : UInt8) : Bool :=
  (secondRange first).1 ≤ second && second ≤ (secondRange first).2

/-- How a byte sequence that starts with `first` begins. -/
def head (first : UInt8) (rest : Bytes) : Head :=
  if first < 0x80 then
    .scalar (Char.ofNat first.toNat) 0
  else if first < 0xC2 || 0xF4 < first then
    .invalid 0
  else if first < 0xE0 then
    match rest with
    | [] => .unfinished
    | b :: _ =>
      if isContinuation b then .scalar (Char.ofNat (first.toNat % 32 * 64 + payload b)) 1
      else .invalid 0
  else if first < 0xF0 then
    match rest with
    | [] => .unfinished
    | b :: rest =>
      if allowsSecond first b then
        match rest with
        | [] => .unfinished
        | c :: _ =>
          if isContinuation c then
            .scalar (Char.ofNat ((first.toNat % 16 * 64 + payload b) * 64 + payload c)) 2
          else .invalid 1
      else .invalid 0
  else
    match rest with
    | [] => .unfinished
    | b :: rest =>
      if allowsSecond first b then
        match rest with
        | [] => .unfinished
        | c :: rest =>
          if isContinuation c then
            match rest with
            | [] => .unfinished
            | d :: _ =>
              if isContinuation d then
                let leading := (first.toNat % 8 * 64 + payload b) * 64 + payload c
                .scalar (Char.ofNat (leading * 64 + payload d)) 3
              else .invalid 2
          else .invalid 1
      else .invalid 0

/-! ### Reading text -/

/-- Why bytes are not text. -/
inductive Fault where
  /-- A part of `length` bytes at `index` begins no character. -/
  | invalid (length index : Nat)
  /-- The character that begins at `index` is not finished. -/
  | incomplete (index : Nat)
deriving DecidableEq

/-- The wording of a fault. -/
def Fault.message : Fault → String
  | .invalid length index => s!"invalid utf-8 sequence of {length} bytes from index {index}"
  | .incomplete index => s!"incomplete utf-8 byte sequence from index {index}"

/-- The characters of bytes that begin at `index`, or the first fault. -/
def decodeFrom (index : Nat) : Bytes → Except Fault (List Char)
  | [] => .ok []
  | b :: bs =>
    match head b bs with
    | .scalar c further =>
      match decodeFrom (index + further + 1) (bs.drop further) with
      | .ok cs => .ok (c :: cs)
      | .error fault => .error fault
    | .invalid further => .error (.invalid (further + 1) index)
    | .unfinished => .error (.incomplete index)
termination_by bs => bs.length
decreasing_by simp only [List.length_drop, List.length_cons]; omega

/-- The text of valid bytes, or the first fault. -/
def decode (bytes : Bytes) : Except Fault String :=
  (decodeFrom 0 bytes).map String.ofList

/-- The character that stands for an invalid part. -/
def replacement : Char := '\uFFFD'

/-- The characters of any bytes, with one replacement character for each maximal invalid part. -/
def lossyChars : Bytes → List Char
  | [] => []
  | b :: bs =>
    match head b bs with
    | .scalar c further => c :: lossyChars (bs.drop further)
    | .invalid further => replacement :: lossyChars (bs.drop further)
    | .unfinished => [replacement]
termination_by bs => bs.length
decreasing_by all_goals simp only [List.length_drop, List.length_cons]; omega

/-- The text of any bytes, with one replacement character for each maximal invalid part. -/
def decodeLossy (bytes : Bytes) : String := String.ofList (lossyChars bytes)

end BinaryLog.Utf8
