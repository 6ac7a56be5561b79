import BinaryLog.Decoder
import BinaryLog.Entry.Chain

namespace BinaryLog

/-!
# Message headers

A message starts with a byte that says how wide its two deltas are, followed by the deltas. From the
lowest bit up the byte holds the message tag 1 (two bits), the code of the id delta's width (two
bits) and the width of the timestamp delta (four bits). The main definitions are

* `Header.ofByte` and `Header.toByte`, the first byte read and written;
* `Header.pieces` and `Header.encode`, the shortest header for two deltas;
* `Metadata.decode`, which reads a header and continues the chain.
-/

/-- The widths that a message's first byte announces. -/
structure Header where
  /-- The code of the id delta's width, at most 3. -/
  idCode : Nat
  /-- The bytes of the timestamp delta. -/
  timeWidth : Nat
deriving DecidableEq

namespace Header

/-- The bytes of an id delta under each code. -/
def idWidth (code : Nat) : Nat :=
  match code with
  | 0 => 0
  | 1 => 1
  | 2 => 2
  | _ => 4

/-- The code of the narrowest field that holds an id delta. -/
def idCodeFor (delta : UInt32) : Nat :=
  if delta = 0 then 0
  else if delta ≤ 0xFF then 1
  else if delta ≤ 0xFFFF then 2
  else 3

/-- The bytes of the narrowest field that holds a timestamp delta. -/
def timeWidthFor (delta : UInt64) : Nat := Word.width delta.toNat

/-- The widest timestamp delta. -/
def maxTimeWidth : Nat := 8

/-- The bytes of a header, the first one included. -/
def length (header : Header) : Nat := 1 + idWidth header.idCode + header.timeWidth

/-- The first byte of a message with these widths. -/
def toByte (header : Header) : UInt8 := UInt8.ofNat (1 + 4 * header.idCode + 16 * header.timeWidth)

/-- The widths that a first byte announces. -/
def ofByte (b : UInt8) : Except HeaderFault Header :=
  if b.toNat % 4 ≠ 1 then .error (.notMessage b)
  else if maxTimeWidth < b.toNat / 16 then .error (.wideTimestamp (b.toNat / 16))
  else .ok { idCode := b.toNat / 4 % 4, timeWidth := b.toNat / 16 }

/-- The narrowest header for two deltas. -/
def minimal (idDelta : UInt32) (timeDelta : UInt64) : Header :=
  { idCode := idCodeFor idDelta, timeWidth := timeWidthFor timeDelta }

/-- The pieces of the shortest header for two deltas: its first byte and the deltas. -/
def pieces (idDelta : UInt32) (timeDelta : UInt64) : List Bytes :=
  let header := Header.minimal idDelta timeDelta
  [[header.toByte], Word.toBytes (idWidth header.idCode) idDelta.toNat,
    Word.toBytes header.timeWidth timeDelta.toNat]

/-- The shortest header for two deltas, with the deltas. -/
def encode (idDelta : UInt32) (timeDelta : UInt64) : Bytes := (pieces idDelta timeDelta).flatten

/-- The bytes of a header behind its first byte. -/
theorem encode_eq_cons (idDelta : UInt32) (timeDelta : UInt64) :
    encode idDelta timeDelta =
      (minimal idDelta timeDelta).toByte ::
        (Word.toBytes (idWidth (minimal idDelta timeDelta).idCode) idDelta.toNat ++
          Word.toBytes (minimal idDelta timeDelta).timeWidth timeDelta.toNat) := by
  simp [encode, pieces]

end Header

/-- What a message's header says about it. -/
structure Metadata where
  formatId : FormatId
  timestamp : UInt64
  /-- The bytes that the header takes in the stream. -/
  headerLength : Nat
deriving DecidableEq

namespace Metadata

/-- Reads a header and continues the chain with its deltas. -/
def decode (chain : Chain) : Decoder Metadata := do
  let first ← Decoder.byte
  match Header.ofByte first with
  | .error fault => Decoder.fail (.malformedHeader fault)
  | .ok header =>
    let idDelta ← Decoder.word (Header.idWidth header.idCode)
    let timeDelta ← Decoder.word header.timeWidth
    let next ← Decoder.ofExcept (chain.step? idDelta.toUInt32 timeDelta)
    return { formatId := next.formatId, timestamp := next.timestamp, headerLength := header.length }

/-- The chain that the message after this one continues from. -/
def chain (metadata : Metadata) : Chain :=
  { formatId := metadata.formatId, timestamp := metadata.timestamp }

end Metadata

end BinaryLog
