import BinaryLog.Decoder

namespace BinaryLog

/-!
# Buffered feeds

A device hands its bytes over in pieces of its own choosing, and an attempt to get the next piece
may be interrupted and has to be repeated. A feed answers the same requests as a source by
collecting pieces until a request is met. The main definitions are

* `Delivery` and `Feed`, the pieces still to come;
* `Feed.source`, the source that a feed presents;
* `Request`, the requests as data, answered by a source with `Request.decoder` and by a feed with
  `Feed.answer`.
-/

/-- What one attempt to get more bytes yields. -/
inductive Delivery where
  /-- Nothing yet; the attempt is to be repeated. -/
  | interrupted
  /-- A piece, which is never empty. -/
  | chunk (first : UInt8) (rest : Bytes)
deriving DecidableEq

/-- The bytes that a delivery brings. -/
def Delivery.bytes : Delivery → Bytes
  | .interrupted => []
  | .chunk first rest => first :: rest

/-- A device that is read piece by piece. The first delivery is the one that reading stands in. -/
structure Feed where
  deliveries : List Delivery
  offset : Nat := 0
  ending : Ending := .endOfStream
deriving DecidableEq

namespace Feed

/-- The source that the feed presents: the bytes of all pieces, one after the other. -/
def source (f : Feed) : Source :=
  { ahead := f.deliveries.flatMap Delivery.bytes, offset := f.offset, ending := f.ending }

/-- A feed of the bytes of a source in pieces of `size` bytes, one at least, each announced by an
    interruption if `interrupted` says so. -/
def ofSource (s : Source) (size : Nat) (interrupted : Bool) : Feed :=
  { deliveries := pieces s.ahead, offset := s.offset, ending := s.ending }
where
  /-- The deliveries of the given bytes. -/
  pieces : Bytes → List Delivery
    | [] => if interrupted then [.interrupted] else []
    | b :: bs =>
      let piece := Delivery.chunk b (bs.take (size - 1)) :: pieces (bs.drop (size - 1))
      if interrupted then .interrupted :: piece else piece
  termination_by bytes => bytes.length
  decreasing_by simp only [List.length_drop, List.length_cons]; omega

/-! ### Requests -/

/-- Repeats interrupted attempts until a piece is there or none is left. -/
def arrived : List Delivery → List Delivery
  | .interrupted :: rest => arrived rest
  | deliveries => deliveries

/-- Up to `n` bytes from the front, and the deliveries that are left. -/
def collect : Nat → List Delivery → Bytes × List Delivery
  | 0, deliveries => ([], deliveries)
  | _ + 1, [] => ([], [])
  | n + 1, .interrupted :: rest => collect (n + 1) rest
  | n + 1, .chunk first more :: rest =>
    match more.drop n with
    | next :: later => (first :: more.take n, .chunk next later :: rest)
    | [] =>
      let (bytes, left) := collect (n - more.length) rest
      (first :: more ++ bytes, left)

/-- The next byte, which stays ahead, or nothing at the end of the stream. -/
def peek (f : Feed) : Except DecodeError (Option UInt8) × Feed :=
  let deliveries := arrived f.deliveries
  match deliveries, f.ending with
  | .chunk first _ :: _, _ => (.ok (some first), { f with deliveries })
  | _, .endOfStream => (.ok none, { f with deliveries })
  | _, .fault cause => (.error (.device cause), { f with deliveries })

/-- The next `n` bytes. When fewer can be had, all of them are read and the request fails. -/
def bytes (f : Feed) (n : Nat) : Except DecodeError Bytes × Feed :=
  let (collected, deliveries) := collect n f.deliveries
  let g := { f with deliveries, offset := f.offset + collected.length }
  if collected.length = n then (.ok collected, g)
  else
    match f.ending with
    | .endOfStream => (.error (.truncated f.offset n collected.length), g)
    | .fault cause => (.error (.device cause), g)

end Feed

/-! ### Requests as data -/

/-- One thing that is asked of a source. -/
inductive Request where
  | peek
  | bytes (n : Nat)
  | byte
  | word (width : Nat)
  | atEnd
deriving DecidableEq

/-- The answer to a request. -/
inductive Reply where
  | peeked (next : Option UInt8)
  | bytes (read : Bytes)
  | byte (read : UInt8)
  | word (read : UInt64)
  | atEnd (answer : Bool)
deriving DecidableEq

/-- How a source answers a request. -/
def Request.decoder : Request → Decoder Reply
  | .peek => Reply.peeked <$> Decoder.peek
  | .bytes n => Reply.bytes <$> Decoder.bytes n
  | .byte => Reply.byte <$> Decoder.byte
  | .word width => Reply.word <$> Decoder.word width
  | .atEnd => Reply.atEnd <$> Decoder.atEnd

/-- How a feed answers a request. A single byte and a word are read as bytes are. -/
def Feed.answer (f : Feed) : Request → Except DecodeError Reply × Feed
  | .peek => (f.peek.1.map .peeked, f.peek.2)
  | .bytes n => ((f.bytes n).1.map .bytes, (f.bytes n).2)
  | .byte => ((f.bytes 1).1.map fun read => .byte (UInt8.ofNat (Word.ofBytes read)), (f.bytes 1).2)
  | .word width => ((f.bytes width).1.map fun read => .word (UInt64.ofNat (Word.ofBytes read)),
      (f.bytes width).2)
  | .atEnd => (f.peek.1.map fun next => .atEnd next.isNone, f.peek.2)

end BinaryLog
