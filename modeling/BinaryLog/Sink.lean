import BinaryLog.Word

namespace BinaryLog

/-!
# Sinks

A sink stores the bytes that are written to it, up to a capacity if it has one. A write that does
not fit is stored as far as there is room and fails; writing nothing always succeeds. What comes in
pieces is written piece by piece (`Sink.writeEach`).
-/

/-- Where a log is written. -/
structure Sink where
  stored : Bytes := []
  /-- The most bytes that are stored. -/
  capacity : Option Nat := none
deriving DecidableEq

namespace Sink

/-- The room that is left, if it is bounded. -/
def room (s : Sink) : Option Nat := s.capacity.map (· - s.stored.length)

/-- Do all of the bytes fit? -/
def fits (s : Sink) (bytes : Bytes) : Bool :=
  match s.room with
  | none => true
  | some room => bytes.length ≤ room

/-- The sink after a write, stored as far as there is room. -/
def write (s : Sink) (bytes : Bytes) : Sink :=
  match s.room with
  | none => { s with stored := s.stored ++ bytes }
  | some room => { s with stored := s.stored ++ bytes.take room }

/-- Writes pieces one after the other, until one of them fails. Do all of them succeed, and what is
    the sink then? -/
def writeEach (s : Sink) : List Bytes → Bool × Sink
  | [] => (true, s)
  | piece :: pieces =>
    if s.fits piece then (s.write piece).writeEach pieces else (false, s.write piece)

end Sink

end BinaryLog
