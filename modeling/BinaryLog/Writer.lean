import BinaryLog.Entry.Checkpoint
import BinaryLog.Entry.Header
import BinaryLog.Sink

namespace BinaryLog

/-!
# Writing a log

A writer appends entries to a sink and keeps the chain that the next message continues from.
Whatever fails leaves the chain and the counters as they were. The main definitions are

* `Writer`, with `message`, `checkpoint`, `padding` and `flush`;
* `WriteCommand` and `Writer.perform`, the same four as data;
* `WriteError`, why a command is refused.
-/

/-- Why an entry is not written. -/
inductive WriteError where
  /-- The message is older than the one before it. -/
  | timeReversed (previous timestamp : UInt64)
  /-- The sink failed. -/
  | device (cause : String)
deriving DecidableEq

namespace WriteError

/-- The wording of an error. -/
def message : WriteError → String
  | .timeReversed previous timestamp =>
    s!"timestamp {timestamp.toNat} precedes previous timestamp {previous.toNat}"
  | .device _ => "failed to write stream"

/-- The wording of what lies behind an error, where something does. -/
def cause? : WriteError → Option String
  | .device cause => some cause
  | _ => none

/-- What a sink without room reports. -/
def sinkFull : WriteError := .device "sink full"

end WriteError

/-- A log being written. -/
structure Writer where
  sink : Sink := {}
  chain : Chain := {}
  /-- The messages that were written whole. -/
  messages : Nat := 0
  /-- The bytes of the entries that were written whole. -/
  bytes : Nat := 0
deriving DecidableEq

namespace Writer

/-- Writes an entry, piece by piece. The counter moves only if all of them are stored. -/
def append (w : Writer) (pieces : List Bytes) : Except WriteError Unit × Writer :=
  match w.sink.writeEach pieces with
  | (true, sink) => (.ok (), { w with sink, bytes := w.bytes + pieces.flatten.length })
  | (false, sink) => (.error .sinkFull, { w with sink })

/-- Writes a message, which must not be older than the one before it. -/
def message (w : Writer) (id : FormatId) (timestamp : UInt64) (payload : Bytes) :
    Except WriteError Unit × Writer :=
  if timestamp < w.chain.timestamp then (.error (.timeReversed w.chain.timestamp timestamp), w)
  else
    let header := Header.pieces (w.chain.formatId.deltaTo id) (timestamp - w.chain.timestamp)
    match w.append (header ++ [payload]) with
    | (.ok (), w) =>
      (.ok (), { w with chain := { formatId := id, timestamp }, messages := w.messages + 1 })
    | failed => failed

/-- Writes a checkpoint. -/
def checkpoint (w : Writer) (c : Checkpoint) : Except WriteError Unit × Writer := w.append c.pieces

/-- Writes zero bytes. -/
def padding (w : Writer) (length : Nat) : Except WriteError Unit × Writer :=
  w.append [List.replicate length 0]

/-- Asks the sink to settle what it holds. A sink stores at once, so there is nothing left to
    fail. -/
def flush (w : Writer) : Except WriteError Unit × Writer := (.ok (), w)

end Writer

/-! ### Commands as data -/

/-- One thing that a writer is asked to do. -/
inductive WriteCommand where
  | message (id : FormatId) (timestamp : UInt64) (payload : Bytes)
  | checkpoint (c : Checkpoint)
  | padding (length : Nat)
  | flush
deriving DecidableEq

/-- Does what a command asks for. -/
def Writer.perform (w : Writer) : WriteCommand → Except WriteError Unit × Writer
  | .message id timestamp payload => w.message id timestamp payload
  | .checkpoint c => w.checkpoint c
  | .padding length => w.padding length
  | .flush => w.flush

/-- The writer after a list of commands, of which some may have failed. -/
def Writer.performAll (w : Writer) (commands : List WriteCommand) : Writer :=
  commands.foldl (fun w command => (w.perform command).2) w

end BinaryLog
