import BinaryLog.DecodeError

namespace BinaryLog

/-!
# Byte sources

A source is read once, from front to back. What counts is which bytes lie ahead, how many were read,
and what happens when the bytes ahead are used up. The main definitions are

* `Source`, the state of a source, and `Ending`, what its last byte is followed by;
* `Source.advance`, the source after some bytes are read;
* `Source.shortfall`, the error that a request for too many bytes ends in;
* `Source.Reaches`, the order of states: one arises from the other by reading.
-/

/-- What follows the last byte of a source. -/
inductive Ending where
  /-- The end of the stream. -/
  | endOfStream
  /-- A failure of the device, with what it reports. -/
  | fault (cause : String)
deriving DecidableEq

/-- A byte source: the bytes ahead, the number of bytes read so far, and what follows the last
    byte. -/
structure Source where
  ahead : Bytes
  offset : Nat := 0
  ending : Ending := .endOfStream
deriving DecidableEq

namespace Source

/-- A source that holds `bytes` and then ends. -/
def ofBytes (bytes : Bytes) : Source := { ahead := bytes }

/-- A source whose device fails once the first `limit` of the `bytes` are read. A limit past the end
    is never met. -/
def failingAfter (bytes : Bytes) (limit : Nat) (cause : String) : Source :=
  if limit ≤ bytes.length then { ahead := bytes.take limit, ending := .fault cause }
  else ofBytes bytes

/-- The source after `n` bytes are read. -/
def advance (s : Source) (n : Nat) : Source :=
  { s with ahead := s.ahead.drop n, offset := s.offset + n }

/-- The source after all bytes ahead are read. -/
def exhaust (s : Source) : Source := s.advance s.ahead.length

/-- What a request for `needed` bytes fails with when fewer are ahead. -/
def shortfall (s : Source) (needed : Nat) : DecodeError :=
  match s.ending with
  | .endOfStream => .truncated s.offset needed s.ahead.length
  | .fault cause => .device cause

/-- The bytes that can still be read, if the source then ends without a failure. -/
def remaining? (s : Source) : Option Bytes :=
  match s.ending with
  | .endOfStream => some s.ahead
  | .fault _ => none

/-! ### Moving forward -/

/-- The source `t` arises from `s` by reading some of the bytes ahead. -/
def Reaches (s t : Source) : Prop := ∃ n, n ≤ s.ahead.length ∧ t = s.advance n

theorem advance_zero (s : Source) : s.advance 0 = s := by
  simp [advance]

/-- Steps add up. -/
theorem advance_advance (s : Source) (m n : Nat) : (s.advance m).advance n = s.advance (m + n) := by
  simp [advance, Nat.add_assoc]

theorem Reaches.refl (s : Source) : s.Reaches s := ⟨0, Nat.zero_le _, s.advance_zero.symm⟩

theorem Reaches.trans {s t u : Source} (h : s.Reaches t) (h' : t.Reaches u) : s.Reaches u := by
  obtain ⟨m, hm, rfl⟩ := h
  obtain ⟨n, hn, rfl⟩ := h'
  refine ⟨m + n, ?_, s.advance_advance m n⟩
  simp only [advance, List.length_drop] at hn
  omega

/-- As many bytes as are ahead can be skipped. -/
theorem reaches_advance {s : Source} {n : Nat} (h : n ≤ s.ahead.length) :
    s.Reaches (s.advance n) :=
  ⟨n, h, rfl⟩

/-- The end of the stream is always reached. -/
theorem reaches_exhaust (s : Source) : s.Reaches s.exhaust := reaches_advance (Nat.le_refl _)

/-- Reading never adds bytes. -/
theorem Reaches.length_le {s t : Source} (h : s.Reaches t) : t.ahead.length ≤ s.ahead.length := by
  obtain ⟨n, _, rfl⟩ := h
  simp [advance]

end Source

end BinaryLog
