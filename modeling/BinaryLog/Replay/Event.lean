import BinaryLog.Binary64.Decimal
import BinaryLog.DecodeError
import BinaryLog.Entry.Chain
import BinaryLog.Entry.Checkpoint

namespace BinaryLog

/-!
# What a replay tells

The main definitions are

* `Event`, one thing found in the log, with `Message.line` and `Checkpoint.line`, the lines shown
  for it;
* `Phase` and `Summary`, how far a replay has come;
* `ReplayError`, why it ended early and what it had done by then.
-/

/-! ### Events -/

/-- A message as replayed. -/
structure Message where
  /-- The number of messages before it. -/
  index : Nat
  formatId : FormatId
  timestamp : UInt64
  /-- Cycles since the message before, or since zero. -/
  elapsedCycles : UInt64
  /-- The same in nanoseconds, at the rate in effect before the message. -/
  elapsedNanos : Binary64
  text : String
deriving DecidableEq

/-- One thing found in the log. -/
inductive Event where
  | message (m : Message)
  | checkpoint (c : Checkpoint)
  | padding (offset length : Nat)
deriving DecidableEq

/-- Nanoseconds in a second. -/
def nanosPerSecond : Binary64 := Binary64.ofNat 1000000000

/-- Cycles as nanoseconds: the nearest number to the cycles, times the nanoseconds in a second,
    divided by the cycles in a second, each step rounded. -/
def elapsedNanos (cycles : UInt64) (rate : Binary64) : Binary64 :=
  Binary64.ofNat cycles.toNat * nanosPerSecond / rate

/-! ### Lines -/

/-- A text with blanks in front up to a least width. -/
def alignRight (width : Nat) (text : String) : String :=
  String.ofList (text.toList.leftpad width ' ')

/-- The line shown for a message. -/
def Message.line (m : Message) : String :=
  alignRight 4 (toString m.index) ++ ") +" ++ alignRight 10 (m.elapsedNanos.toFixed 2)
    ++ " ns: " ++ m.text

/-- The line shown for a checkpoint. -/
def Checkpoint.line (c : Checkpoint) : String :=
  "Found a checkpoint. CyclesPerSec=" ++ c.rate.toFixed 6

/-! ### Progress -/

/-- Where a replay stands. -/
inductive Phase where
  /-- Between two entries. -/
  | scanning
  | readingMessage
  | readingCheckpoint
  | skippingPadding
  /-- At the end of the stream or the message limit. -/
  | done
  /-- An entry could not be read. -/
  | failed
deriving DecidableEq

/-- Is there nothing more to come? -/
def Phase.isTerminal : Phase → Bool
  | .done | .failed => true
  | _ => false

/-- Totals of a replay. -/
structure Summary where
  messages : Nat
  checkpoints : Nat
  padBytes : Nat
  bytesConsumed : Nat
  stoppedByLimit : Bool
deriving DecidableEq

/-- Why a replay ended early: what went wrong, where the entry began, and what had been replayed
    before it. -/
structure ReplayError where
  cause : DecodeError
  entryOffset : Nat
  chain : Chain
  messages : Nat
deriving DecidableEq

/-- The wording of a replay error, which leaves out its cause. -/
def ReplayError.message (e : ReplayError) : String :=
  s!"entry at byte {e.entryOffset}, after {e.messages} messages, " ++
    s!"last format id {e.chain.formatId}, last timestamp {e.chain.timestamp.toNat}"

end BinaryLog
