import BinaryLog.DecodeError

namespace BinaryLog

/-!
# The chain of messages

A message's format id and timestamp are stored relative to those of the message before it. A chain
is the pair that the next message continues from. Ids wrap around; timestamps only grow, and a delta
that would wrap is refused.
-/

/-- What the next message's deltas are relative to: both are zero before the first message. -/
structure Chain where
  formatId : FormatId := ⟨0⟩
  timestamp : UInt64 := 0
deriving DecidableEq

namespace Chain

/-- The chain after a message with the given deltas; the timestamp wraps around. -/
def step (chain : Chain) (idDelta : UInt32) (timeDelta : UInt64) : Chain :=
  { formatId := chain.formatId.shift idDelta, timestamp := chain.timestamp + timeDelta }

/-- The chain after a message with the given deltas, unless the timestamp does not fit in 64 bits:
    the sum has wrapped around exactly if it is below what was added to. -/
def step? (chain : Chain) (idDelta : UInt32) (timeDelta : UInt64) : Except DecodeError Chain :=
  let next := chain.step idDelta timeDelta
  if next.timestamp < chain.timestamp then .error (.timeReversed chain.timestamp timeDelta)
  else .ok next

end Chain

end BinaryLog
