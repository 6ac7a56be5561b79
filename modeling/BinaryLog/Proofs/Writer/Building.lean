import BinaryLog.Builder
import BinaryLog.Proofs.Writer.Capacity

namespace BinaryLog

/-!
# Builders and writers

A builder continues its chain by the deltas that it writes, a writer by the messages themselves. On
entries in order they make the same stream.

* `BuildCommand`, what both can be asked for, and `BuildCommand.toWrites`, the same for a writer;
* `Builder.Mirrors`, a builder and a writer that agree, which `Builder.Mirrors.perform` keeps for
  one command and `Builder.Mirrors.performAll` for all;
* `Builder.performMixed_eq`, a message can also be given by its deltas from the last one;
* `Builder.performAll_mirrors`, the streams are the same after each command.
-/

/-! ### Commands -/

/-- One entry that a builder is asked for. -/
inductive BuildCommand where
  | message (id : FormatId) (timestamp : UInt64) (payload : Bytes)
  | checkpoint (rate : Binary64)
  | padding (length : ℕ)
deriving DecidableEq

namespace BuildCommand

/-- The timestamp of a message. -/
def timestamp? : BuildCommand → Option UInt64
  | .message _ timestamp _ => some timestamp
  | _ => none

/-- The id and the timestamp of the last message up to a command, if `last` has those of the last
    one before it. -/
def lastAfter (last : Chain) : BuildCommand → Chain
  | .message id timestamp _ => { formatId := id, timestamp }
  | _ => last

/-- The command for a writer that makes the same entry, where `last` has the id and the timestamp of
    the last message. A builder takes its checkpoints at that time, and always at the same time of
    the wall clock. -/
def toWrite (last : Chain) : BuildCommand → WriteCommand
  | .message id timestamp payload => .message id timestamp payload
  | .checkpoint rate => .checkpoint { cycleCounter := last.timestamp, unixTime := 1700000000, rate }
  | .padding length => .padding length

/-- The commands for a writer, one after the other. -/
def toWrites : Chain → List BuildCommand → List WriteCommand
  | _, [] => []
  | last, command :: commands => command.toWrite last :: toWrites (command.lastAfter last) commands

end BuildCommand

namespace Builder

open BuildCommand

/-- Does what a command asks for. -/
def perform (b : Builder) : BuildCommand → Builder
  | .message id timestamp payload => b.message id timestamp payload
  | .checkpoint rate => b.checkpoint rate
  | .padding length => b.padding length

/-- The builder after a list of commands. -/
def performAll (b : Builder) (commands : List BuildCommand) : Builder :=
  commands.foldl Builder.perform b

/-- Does what a command asks for, but appends a message by its deltas from the last one, where ids
    wrap around. -/
def performRaw (b : Builder) (last : Chain) : BuildCommand → Builder
  | .message id timestamp payload =>
    b.rawMessage (id.val - last.formatId.val) (timestamp - last.timestamp) payload
  | command => b.perform command

/-- The builder after a list of commands, of which the marked ones append messages by their deltas.
    -/
def performMixed : Builder → Chain → List (BuildCommand × Bool) → Builder
  | b, _, [] => b
  | b, last, (command, isRaw) :: commands =>
    performMixed (if isRaw then b.performRaw last command else b.perform command)
      (command.lastAfter last) commands

variable {b : Builder} {w : Writer} {command : BuildCommand} {commands : List BuildCommand}

/-! ### One command -/

/-- **Deltas lead to the message**: the chain that a builder continues by deltas is that of the
    message itself. -/
theorem message_eq (b : Builder) (id : FormatId) (timestamp : UInt64) (payload : Bytes) :
    b.message id timestamp payload =
      { bytes := b.bytes ++ (b.chain.headerTo { formatId := id, timestamp } ++ payload)
        chain := { formatId := id, timestamp } } := by
  have hchain : b.chain.step (b.chain.formatId.deltaTo id) (timestamp - b.chain.timestamp) =
      { formatId := id, timestamp } := by
    rw [Chain.step, FormatId.shift_deltaTo, UInt64.add_comm, UInt64.sub_add_cancel]
  rw [message, rawMessage, hchain, List.append_assoc]
  rfl

/-- A command appends the bytes that a writer would write in its place. -/
theorem perform_eq (b : Builder) (command : BuildCommand) :
    b.perform command =
      { bytes := b.bytes ++ (command.toWrite b.chain).encode b.chain
        chain := command.lastAfter b.chain } := by
  cases command with
  | message id timestamp payload => exact b.message_eq id timestamp payload
  | checkpoint rate => rfl
  | padding length => rfl

/-- A builder and a writer that agree: on the stream, on the chain that the next message continues,
    and on the number of bytes. -/
structure Mirrors (b : Builder) (w : Writer) : Prop where
  bytes_eq : b.bytes = w.sink.stored
  chain_eq : b.chain = w.chain
  length_eq : b.length = w.bytes
  unbounded : w.sink.capacity = none

/-- **One command** in order succeeds, and builder and writer agree again. -/
theorem Mirrors.perform (h : b.Mirrors w) (hcommand : (command.toWrite b.chain).Continues b.chain) :
    (w.perform (command.toWrite b.chain)).1 = .ok () ∧
      (b.perform command).Mirrors (w.perform (command.toWrite b.chain)).2 := by
  -- the sink of the writer has no bound, so the command can only fail for its time
  have hfits : w.sink.fits ((command.toWrite b.chain).encode w.chain) = true :=
    Sink.fits_of_unbounded h.unbounded
  have hperform := Writer.perform_of_fits (h.chain_eq ▸ hcommand) hfits
  rw [hperform, b.perform_eq]
  refine ⟨rfl, ?_, ?_, ?_, ?_⟩
  · rw [Writer.after, Sink.write_of_fits hfits, ← h.bytes_eq, ← h.chain_eq]
  · rw [Writer.after, ← h.chain_eq]
    cases command <;> rfl
  · rw [Writer.after, ← h.length_eq, ← h.chain_eq]
    exact List.length_append
  · rw [Writer.after, Sink.write_of_fits hfits]
    exact h.unbounded

/-! ### All commands -/

/-- The first of commands in order continues the chain, and the others continue from there. -/
theorem continues_of_pairwise {last : Chain}
    (h : (last.timestamp :: (command :: commands).filterMap timestamp?).Pairwise (· ≤ ·)) :
    (command.toWrite last).Continues last ∧
      ((command.lastAfter last).timestamp :: commands.filterMap timestamp?).Pairwise (· ≤ ·) := by
  cases command with
  | message id timestamp payload =>
    obtain ⟨hlast, hrest⟩ := List.pairwise_cons.mp h
    exact ⟨hlast timestamp List.mem_cons_self, hrest⟩
  | checkpoint rate => exact ⟨trivial, h⟩
  | padding length => exact ⟨trivial, h⟩

/-- **All commands** in order succeed, and builder and writer agree after each of them. -/
theorem Mirrors.performAll (h : b.Mirrors w)
    (horder : (b.chain.timestamp :: commands.filterMap timestamp?).Pairwise (· ≤ ·)) :
    w.acknowledged (toWrites b.chain commands) = toWrites b.chain commands ∧
      ∀ n, (b.performAll (commands.take n)).Mirrors
        (w.performAll ((toWrites b.chain commands).take n)) := by
  induction commands generalizing b w with
  | nil =>
    refine ⟨rfl, fun n => ?_⟩
    rw [List.take_nil, toWrites, List.take_nil]
    exact h
  | cons command commands ih =>
    obtain ⟨hcommand, hrest⟩ := continues_of_pairwise horder
    obtain ⟨hok, hmirrors⟩ := h.perform hcommand
    have hchain : (b.perform command).chain = command.lastAfter b.chain := by rw [perform_eq]
    -- the others begin from the chain that both have come to
    obtain ⟨hacknowledged, hlater⟩ := ih hmirrors (hchain ▸ hrest)
    rw [hchain] at hacknowledged hlater
    refine ⟨?_, fun n => ?_⟩
    · rw [toWrites, Writer.acknowledged, hacknowledged, hok]
      rfl
    · cases n with
      | zero => exact h
      | succ n => exact hlater n

/-- A message given by its deltas from the last one is the message. -/
theorem performRaw_eq (b : Builder) (command : BuildCommand) :
    b.performRaw b.chain command = b.perform command := by
  cases command with
  | message id timestamp payload => rfl
  | checkpoint rate => rfl
  | padding length => rfl

/-- **Messages given by their deltas** change nothing, whichever they are. -/
theorem performMixed_eq (b : Builder) (commands : List (BuildCommand × Bool)) :
    b.performMixed b.chain commands = b.performAll (commands.map Prod.fst) := by
  induction commands generalizing b with
  | nil => rfl
  | cons first commands ih =>
    obtain ⟨command, isRaw⟩ := first
    have hchain : (b.perform command).chain = command.lastAfter b.chain := by rw [perform_eq]
    rw [performMixed, performRaw_eq, ite_self, ← hchain, ih]
    rfl

/-- **A builder makes what a writer writes.** On entries in order, whose messages never go back in
    time, the writer accepts all commands and the two streams are the same after each of them, and
    so are the numbers of bytes. Any of the messages may also be given to the builder by their
    deltas from the last one: the builder is the same in the end, and with it all that is built
    afterwards. -/
theorem performAll_mirrors (commands : List BuildCommand)
    (horder : (commands.filterMap timestamp?).Pairwise (· ≤ ·)) :
    let writes := toWrites {} commands
    (∀ n,
      let built := ({} : Builder).performAll (commands.take n)
      let written := ({} : Writer).performAll (writes.take n)
      built.bytes = written.sink.stored ∧ built.length = written.bytes) ∧
    ({} : Writer).acknowledged writes = writes ∧
    ∀ isRaw : List Bool, isRaw.length = commands.length →
      ({} : Builder).performMixed {} (commands.zip isRaw) = ({} : Builder).performAll commands := by
  intro writes
  have hempty : ({} : Builder).Mirrors {} := ⟨rfl, rfl, rfl, rfl⟩
  -- an empty builder begins at time zero, before which no message is
  have hzero : (({} : Builder).chain.timestamp :: commands.filterMap timestamp?).Pairwise (· ≤ ·) :=
    List.pairwise_cons.mpr ⟨fun timestamp _ => UInt64.le_iff_toNat_le.mpr (Nat.zero_le _), horder⟩
  obtain ⟨hacknowledged, hmirrors⟩ := hempty.performAll hzero
  refine ⟨fun n => ⟨(hmirrors n).bytes_eq, (hmirrors n).length_eq⟩, hacknowledged, ?_⟩
  intro isRaw hlength
  have hmixed := performMixed_eq {} (commands.zip isRaw)
  rwa [List.map_fst_zip (Nat.le_of_eq hlength.symm)] at hmixed

/-- Five entries. The id of the second message lies below that of the first, and the checkpoint in
    front of it is taken at the time of the first. -/
theorem performAll_mirrors_of_falling_id :
    let commands : List BuildCommand :=
      [.message ⟨5⟩ 100 [1], .padding 2, .checkpoint ⟨0⟩, .message ⟨3⟩ 100 [], .checkpoint ⟨0⟩]
    let writes := toWrites {} commands
    (commands.filterMap timestamp?).Pairwise (· ≤ ·) ∧
      writes[2]? = some (.checkpoint
        { cycleCounter := 100, unixTime := 1700000000, rate := ⟨0⟩ }) ∧
      (({} : Writer).performAll (writes.take 2)).sink.stored = [0x15, 5, 100, 1, 0, 0] ∧
      (({} : Builder).performAll commands).bytes = (({} : Writer).performAll writes).sink.stored ∧
      (({} : Builder).performAll commands).length = 61 ∧
      ({} : Builder).performMixed {} (commands.zip [true, false, false, true, true]) =
        ({} : Builder).performAll commands := by
  intro commands writes
  have horder : (commands.filterMap timestamp?).Pairwise (· ≤ ·) := by decide
  obtain ⟨hmirrors, -, hmixed⟩ := performAll_mirrors commands horder
  obtain ⟨hbytes, hlength⟩ := hmirrors 5
  refine ⟨horder, rfl, ?_, hbytes, hlength.trans ?_, hmixed _ rfl⟩
  · rw [← (hmirrors 2).1]
    decide +kernel
  · decide +kernel

end Builder

end BinaryLog
