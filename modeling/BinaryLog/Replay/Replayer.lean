import BinaryLog.Entry.Basic
import BinaryLog.Replay.Config
import BinaryLog.Replay.Event

namespace BinaryLog

/-!
# Replaying a log, entry by entry

Each call of `Replayer.next` reads one entry. Reading may fail but changes nothing except the
source; only an entry that was read whole is accounted for, which cannot fail. The main definitions
are

* `Replayer`, the state of a replay, and `Replayer.start?`;
* `Replayer.next`, the next event, nothing at the end, or why there is none;
* `Replayer.account`, what an entry changes.
-/

/-- A replay: what it reads, how, and what it has found so far. -/
structure Replayer where
  source : Source
  registry : Registry
  config : ReplayConfig
  /-- What the next message continues from. -/
  chain : Chain := {}
  /-- The messages so far. -/
  messages : Nat := 0
  phase : Phase := .scanning
  /-- The cycles per second in effect. -/
  rate : Binary64
  /-- The checkpoints so far. -/
  checkpoints : Nat := 0
  /-- The bytes of padding so far. -/
  padBytes : Nat := 0
  stoppedByLimit : Bool := false

namespace Replayer

/-- A replay that has not begun, with any settings. -/
def start (source : Source) (registry : Registry) (config : ReplayConfig) : Replayer :=
  { source, registry, config, rate := config.conversion.initialRate }

/-- A replay that has not begun, with settings that pass the check. -/
def start? (source : Source) (registry : Registry) (config : ReplayConfig) :
    Except ConfigError Replayer :=
  config.check.map fun _ => start source registry config

/-- Totals so far. -/
def summary (r : Replayer) : Summary :=
  { messages := r.messages, checkpoints := r.checkpoints, padBytes := r.padBytes
    bytesConsumed := r.source.offset, stoppedByLimit := r.stoppedByLimit }

/-! ### Accounting for an entry -/

/-- The rate after a checkpoint. -/
def rateAfter (r : Replayer) (c : Checkpoint) : Binary64 :=
  if r.config.conversion.followsCheckpoints && c.hasUsableRate then c.rate else r.rate

/-- The event that an entry at `offset` is told as, and the replay that has accounted for it. -/
def account (r : Replayer) (offset : Nat) : Entry → Event × Replayer
  | .message metadata text =>
    let elapsed := metadata.timestamp - r.chain.timestamp
    (.message
      { index := r.messages, formatId := metadata.formatId, timestamp := metadata.timestamp
        elapsedCycles := elapsed, elapsedNanos := elapsedNanos elapsed r.rate, text },
      { r with chain := metadata.chain, messages := r.messages + 1 })
  | .checkpoint c =>
    (.checkpoint c, { r with checkpoints := r.checkpoints + 1, rate := r.rateAfter c })
  | .padding length => (.padding offset length, { r with padBytes := r.padBytes + length })

/-- Have as many messages been replayed as were asked for? -/
def limitReached (r : Replayer) : Bool :=
  match r.config.limit with
  | some limit => limit ≤ r.messages
  | none => false

/-- The replay after an entry: done if the limit is reached, else between two entries. -/
def settle (r : Replayer) : Replayer :=
  if r.limitReached then { r with phase := .done, stoppedByLimit := true }
  else { r with phase := .scanning }

/-- The error for an entry at `offset`. -/
def errorAt (r : Replayer) (offset : Nat) (cause : DecodeError) : ReplayError :=
  { cause, entryOffset := offset, chain := r.chain, messages := r.messages }

/-! ### Reading an entry -/

/-- The phase in which an entry is read. A byte that starts nothing is not read at all. -/
def phaseFor : EntryKind → Phase
  | .message => .readingMessage
  | .checkpoint => .readingCheckpoint
  | .invalid b => if b = 0 then .skippingPadding else .scanning

/-- The replay that is about to read an entry of the given kind. -/
def enter (r : Replayer) (kind : EntryKind) : Replayer := { r with phase := phaseFor kind }

/-- Reads the entry that was entered, which begins at the current offset. -/
def finish (r : Replayer) (kind : EntryKind) : Except ReplayError (Option Event) × Replayer :=
  let offset := r.source.offset
  match (Entry.decode r.registry r.chain kind).run r.source with
  | (.ok entry, source) =>
    let (event, accounted) := { r with source }.account offset entry
    (.ok (some event), accounted.settle)
  | (.error cause, source) =>
    (.error (r.errorAt offset cause), { r with source, phase := .failed })

/-- The next event, or nothing if the replay is over. The first error ends it. -/
def next (r : Replayer) : Except ReplayError (Option Event) × Replayer :=
  if r.phase.isTerminal then (.ok none, r)
  else
    match EntryKind.upcoming.run r.source with
    | (.ok (some kind), source) => ({ r with source }.enter kind).finish kind
    | (.ok none, source) => (.ok none, { r with source, phase := .done })
    | (.error cause, source) =>
      (.error (r.errorAt r.source.offset cause), { r with source, phase := .failed })

end Replayer

end BinaryLog
