import BinaryLog.Proofs.Replay.Telling
import BinaryLog.Proofs.Writer.Layout
import BinaryLog.Routine

namespace BinaryLog

/-!
# A log is told as it was written

Writing and then replaying is the identity on whole logs, whatever is written and however the kinds
of entries are interleaved.

* `Registry.Reads`, a registry reads a payload exactly and makes a text of it;
* `Narrator.narrate`, the events of commands that were written one after the other;
* `Replayer.exists_tells_narrate`, the layout of commands is told as their narration;
* `Replayer.events_performAll`, a written log is told as what was acknowledged, paddings merged.
-/

/-! ### Reading one command -/

/-- The registry has a routine for `id` that reads exactly `payload`, in front of anything, and
    makes `text` of it. -/
def Registry.Reads (registry : Registry) (id : FormatId) (payload : Bytes) (text : String) : Prop :=
  ∃ routine, registry.get? id = some routine ∧ (routine id).Consumes payload text

/-- A routine that takes a single byte reads exactly that byte. -/
theorem Routine.consumes_singleByte (id : FormatId) (b : UInt8) :
    (Routine.singleByte id).Consumes [b] s!"fmt{id}:{b.toNat}" :=
  (Decoder.consumes_byte b).bind_nil (Decoder.consumes_pure _)

/-- A payload with a known text is read in front of anything. -/
theorem Registry.Reads.consumes {registry : Registry} {id : FormatId} {payload : Bytes}
    {text : String} (h : registry.Reads id payload text) :
    (registry.decode id).Consumes payload text := by
  obtain ⟨routine, hroutine, hconsumes⟩ := h
  have hfind : registry.find id = .ok routine := by rw [find, hroutine]
  rw [decode, hfind]
  exact (Decoder.consumes_pure routine).bind hconsumes

namespace Entry

variable {registry : Registry} {chain : Chain} {s : Source} {rest : Bytes}

/-- A message is read as it was written. -/
theorem read_message (next : Chain) {payload : Bytes} {text : String}
    (h : chain.timestamp ≤ next.timestamp) (hreads : registry.Reads next.formatId payload text)
    (hs : s.ahead = (chain.headerTo next ++ payload) ++ rest) :
    Read registry chain s
      (.message { formatId := next.formatId, timestamp := next.timestamp
                  headerLength := (chain.headerTo next).length } text)
      (s.advance (chain.headerTo next ++ payload).length) := by
  rw [List.append_assoc] at hs
  rw [List.length_append, ← Source.advance_advance]
  refine .message (Metadata.consumes_headerTo h s _ hs) ?_
  exact hreads.consumes _ rest (Source.ahead_advance_of_append hs)

/-- A checkpoint is read as it was written. -/
theorem read_checkpoint {c : Checkpoint} (hs : s.ahead = c.encode ++ rest) :
    Read registry chain s (.checkpoint c) (s.advance c.encode.length) :=
  .checkpoint (Checkpoint.consumes_encode c s rest hs)

end Entry

/-! ### Narrations -/

/-- How far a log has been told: the bytes and messages so far, what the next message continues
    from, and the rate in effect. -/
structure Narrator where
  offset : Nat := 0
  chain : Chain := {}
  messages : Nat := 0
  rate : Binary64

namespace Narrator

/-- The narrator after the bytes of a command. -/
def pass (n : Narrator) (command : WriteCommand) : Narrator :=
  { n with
    offset := n.offset + (command.encode n.chain).length
    chain := command.chainAfter n.chain }

/-- What is told of a message, whose payload stands for `text`. -/
def message (n : Narrator) (id : FormatId) (timestamp : UInt64) (text : String) : Message :=
  { index := n.messages, formatId := id, timestamp
    elapsedCycles := timestamp - n.chain.timestamp
    elapsedNanos := elapsedNanos (timestamp - n.chain.timestamp) n.rate
    text }

/-- The rate after a checkpoint. -/
def rateAfter (n : Narrator) (conversion : TimeConversion) (c : Checkpoint) : Binary64 :=
  if conversion.followsCheckpoints && c.hasUsableRate then c.rate else n.rate

/-- The events of commands that were written one after the other, one for each command but a flush.
    The text of a message is given by its format and payload. -/
def narrate (conversion : TimeConversion) (text : FormatId → Bytes → String) :
    Narrator → List WriteCommand → List Event
  | _, [] => []
  | n, .message id timestamp payload :: commands =>
    .message (n.message id timestamp (text id payload)) ::
      narrate conversion text
        { n.pass (.message id timestamp payload) with messages := n.messages + 1 } commands
  | n, .checkpoint c :: commands =>
    .checkpoint c ::
      narrate conversion text
        { n.pass (.checkpoint c) with rate := n.rateAfter conversion c } commands
  | n, .padding length :: commands =>
    .padding n.offset length :: narrate conversion text (n.pass (.padding length)) commands
  | n, .flush :: commands => narrate conversion text n commands

end Narrator

/-! ### Telling a layout -/

namespace Replayer

open WriteCommand

/-- How far the replay has come. -/
def narrator (r : Replayer) : Narrator :=
  { offset := r.source.offset, chain := r.chain, messages := r.messages, rate := r.rate }

/-- Nothing that follows a padding begins with a zero. -/
theorem head?_layout_ne_zero {chain : Chain} {commands : List WriteCommand}
    (hmerged : Merged commands) (h : ∀ more rest, commands ≠ .padding more :: rest) :
    (layout chain commands).head? ≠ some 0 := by
  cases commands with
  | nil => simp [layout]
  | cons command commands =>
    cases command with
    | message id timestamp payload =>
      intro hzero
      -- a zero would have to announce a header, and has not the tag of a message
      have hbyte : (Header.minimal (chain.formatId.deltaTo id)
          (timestamp - chain.timestamp)).toByte = 0 := Option.some.inj hzero
      have hheader := Header.ofByte_toByte_minimal (chain.formatId.deltaTo id)
        (timestamp - chain.timestamp)
      rw [hbyte] at hheader
      cases hheader
    | checkpoint c =>
      intro hzero
      cases hzero
    | padding more => exact absurd rfl (h more commands)
    | flush => exact hmerged.elim

/-- How far the replay has come after an entry. -/
theorem narrator_after (r : Replayer) (entry : Entry) (u : Source) :
    (r.after entry u).narrator = match entry with
      | .message metadata _ =>
        { offset := u.offset, chain := metadata.chain, messages := r.messages + 1, rate := r.rate }
      | .checkpoint c =>
        { offset := u.offset, chain := r.chain, messages := r.messages, rate := r.rateAfter c }
      | .padding _ =>
        { offset := u.offset, chain := r.chain, messages := r.messages, rate := r.rate } := by
  rw [narrator, source_after, chain_after, messages_after, rate_after]
  cases entry <;> rfl

/-- The first of the commands is read and told, and the others are what comes after it. -/
theorem exists_read_command {r : Replayer} {command : WriteCommand} {commands : List WriteCommand}
    {text : FormatId → Bytes → String} (hmerged : Merged (command :: commands))
    (hcontinues : command.Continues r.chain)
    (hreads : ∀ id timestamp payload, command = .message id timestamp payload →
      r.registry.Reads id payload (text id payload))
    (hahead : r.source.ahead = layout r.chain (command :: commands))
    (hending : r.source.ending = .endOfStream) :
    ∃ entry,
      Entry.Read r.registry r.chain r.source entry
        (r.source.advance (command.encode r.chain).length) ∧
      r.narrator.narrate r.config.conversion text (command :: commands) =
        r.told entry ::
          (r.after entry (r.source.advance (command.encode r.chain).length)).narrator.narrate
            r.config.conversion text commands ∧
      (r.after entry (r.source.advance (command.encode r.chain).length)).chain =
        command.chainAfter r.chain := by
  rw [layout] at hahead
  cases command with
  | message id timestamp payload =>
    refine ⟨_, Entry.read_message { formatId := id, timestamp } hcontinues
      (hreads id timestamp payload rfl) hahead, ?_, ?_⟩
    · rw [narrator_after]
      rfl
    · rw [chain_after]
      rfl
  | checkpoint c =>
    refine ⟨_, Entry.read_checkpoint hahead, ?_, ?_⟩
    · rw [narrator_after]
      rfl
    · rw [chain_after]
      rfl
  | padding length =>
    obtain ⟨hpos, hnext, hrest⟩ := hmerged
    -- no other padding follows, so the run of zeros ends where it was written
    have hread : Entry.Read r.registry r.chain r.source (.padding length)
        (r.source.advance length) :=
      .padding hpos hahead (head?_layout_ne_zero hrest hnext) fun _ => hending
    rw [encode, List.length_replicate]
    refine ⟨_, hread, ?_, ?_⟩
    · rw [narrator_after, Narrator.narrate, Narrator.pass, encode, List.length_replicate]
      rfl
    · rw [chain_after]
      rfl
  | flush => exact hmerged.elim

/-- **The layout of commands is told as their narration.** -/
theorem exists_tells_narrate {r : Replayer} {commands : List WriteCommand}
    {text : FormatId → Bytes → String} (hopen : r.Open) (hmerged : Merged commands)
    (hordered : Ordered r.chain commands)
    (hreads : ∀ id timestamp payload, .message id timestamp payload ∈ commands →
      r.registry.Reads id payload (text id payload))
    (hahead : r.source.ahead = layout r.chain commands)
    (hending : r.source.ending = .endOfStream) :
    ∃ s, Tells r (r.narrator.narrate r.config.conversion text commands) s ∧ s.Open ∧
      s.source = r.source.exhaust := by
  induction commands generalizing r with
  | nil =>
    refine ⟨r, .refl r, hopen, ?_⟩
    rw [Source.exhaust, hahead, layout, List.length_nil, Source.advance_zero]
  | cons command commands ih =>
    obtain ⟨entry, hread, hnarrate, hchain⟩ := exists_read_command hmerged hordered.1
      (fun id timestamp payload h => hreads id timestamp payload (h ▸ List.mem_cons_self))
      hahead hending
    have hnext := hopen.next_of_read hread
    -- the replay after the first command stands before the layout of the others
    obtain ⟨s, htells, hs, hsource⟩ := ih (hopen.after entry _) hmerged.tail
      (hchain ▸ hordered.2)
      (fun id timestamp payload h => by
        rw [registry_after]
        exact hreads id timestamp payload (List.mem_cons_of_mem _ h))
      (by rw [source_after, hchain]; exact Source.ahead_advance_of_append hahead)
      (by rw [source_after]; exact hending)
    rw [config_after] at htells
    refine ⟨s, ?_, hs, ?_⟩
    · rw [hnarrate]
      exact .step hnext htells
    · have hle : (command.encode r.chain).length ≤ r.source.ahead.length := by
        rw [hahead, layout, List.length_append]
        omega
      rw [hsource, source_after, Source.exhaust_advance hle]

/-- A replay of the layout of commands tells their narration and is done. -/
theorem events_layout {registry : Registry} {config : ReplayConfig} {commands : List WriteCommand}
    {text : FormatId → Bytes → String} (hlimit : config.limit = none)
    (hordered : Ordered {} commands)
    (hreads : ∀ id timestamp payload, .message id timestamp payload ∈ commands →
      registry.Reads id payload (text id payload)) :
    let replay := start (.ofBytes (layout {} commands)) registry config
    replay.events.1 = ((Narrator.narrate config.conversion text
        { rate := config.conversion.initialRate } (merge commands)).map .ok) ∧
      replay.events.2.phase = .done ∧ replay.events.2.stoppedByLimit = false ∧
      replay.events.2.source.offset = (layout {} commands).length := by
  intro replay
  have hmerged : ∀ id timestamp payload, .message id timestamp payload ∈ merge commands →
      registry.Reads id payload (text id payload) :=
    fun id timestamp payload h => hreads id timestamp payload (message_mem_of_mem_merge h)
  -- the bytes are those of the merged commands, which can be told one by one
  obtain ⟨s, htells, hopen, hsource⟩ := exists_tells_narrate (r := replay) (open_start hlimit)
    (merged_merge commands) (ordered_merge.mpr hordered) hmerged (layout_merge _ _).symm rfl
  have hahead : s.source.ahead = [] := by
    rw [hsource]
    exact List.drop_length
  have hend := next_at_end hopen.isTerminal_eq hahead (by rw [hsource]; rfl)
  rw [htells.events_eq, events_of_none hend]
  refine ⟨List.append_nil _, rfl, hopen.running, ?_⟩
  rw [hsource]
  exact Nat.zero_add _

/-- **A log is told as it was written.** Whatever commands a writer is given, a replay of what it
    has written tells one event for each command that succeeded and took bytes, where paddings next
    to each other are one, and is done at the end of the log. -/
theorem events_performAll (commands : List WriteCommand) (registry : Registry)
    (config : ReplayConfig) (text : FormatId → Bytes → String) (hlimit : config.limit = none)
    (hreads : ∀ id timestamp payload,
      .message id timestamp payload ∈ ({} : Writer).acknowledged commands →
        registry.Reads id payload (text id payload)) :
    let log := (({} : Writer).performAll commands).sink.stored
    let replay := start (.ofBytes log) registry config
    replay.events.1 =
        (Narrator.narrate config.conversion text { rate := config.conversion.initialRate }
          (merge (({} : Writer).acknowledged commands))).map .ok ∧
      replay.events.2.phase = .done ∧ replay.events.2.stoppedByLimit = false ∧
      replay.events.2.source.offset = log.length := by
  obtain ⟨hstored, hordered⟩ := Writer.stored_performAll (w := {}) rfl commands
  have hlog : (({} : Writer).performAll commands).sink.stored =
      layout {} (({} : Writer).acknowledged commands) := by
    rw [hstored]
    rfl
  rw [hlog]
  exact events_layout hlimit hordered hreads

/-- Three messages with paddings and a checkpoint between them; the second message reaches back in
    time and is refused. -/
theorem events_performAll_interleaved :
    let registry : Registry := ({} : FormatTable Routine).insert ⟨7⟩ Routine.singleByte
    let commands : List WriteCommand :=
      [.message ⟨7⟩ 100 [1], .padding 2, .message ⟨7⟩ 50 [2], .flush, .padding 3,
        .checkpoint ⟨5, 6, ⟨0⟩⟩, .message ⟨7⟩ 300 [3]]
    (start (.ofBytes (({} : Writer).performAll commands).sink.stored) registry {}).events.1 =
      [.ok (.message ⟨0, ⟨7⟩, 100, 100, elapsedNanos 100 defaultRate, "fmt7:1"⟩),
        .ok (.padding 4 5), .ok (.checkpoint ⟨5, 6, ⟨0⟩⟩),
        .ok (.message ⟨1, ⟨7⟩, 300, 200, elapsedNanos 200 defaultRate, "fmt7:3"⟩)] := by
  intro registry commands
  have hacknowledged : ({} : Writer).acknowledged commands =
      [.message ⟨7⟩ 100 [1], .padding 2, .flush, .padding 3, .checkpoint ⟨5, 6, ⟨0⟩⟩,
        .message ⟨7⟩ 300 [3]] := by rfl
  have hreads : ∀ id timestamp payload,
      .message id timestamp payload ∈ ({} : Writer).acknowledged commands →
        registry.Reads id payload s!"fmt{id}:{(payload.headD 0).toNat}" := by
    intro id timestamp payload h
    rw [hacknowledged] at h
    simp at h
    rcases h with ⟨rfl, -, rfl⟩ | ⟨rfl, -, rfl⟩
    · exact ⟨_, rfl, Routine.consumes_singleByte _ 1⟩
    · exact ⟨_, rfl, Routine.consumes_singleByte _ 3⟩
  -- what is left is to narrate seven commands
  rw [(events_performAll commands registry {} _ rfl hreads).1, hacknowledged]
  simp [merge, pad, Narrator.narrate, Narrator.pass, Narrator.message, encode, chainAfter,
    Chain.headerTo, Header.length_encode, Word.width]
  exact ⟨⟨rfl, rfl⟩, rfl, rfl, rfl⟩

end Replayer

end BinaryLog
