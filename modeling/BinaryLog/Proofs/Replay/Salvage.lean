import BinaryLog.Proofs.Replay.Accounting
import BinaryLog.Proofs.Replay.Narration
import BinaryLog.Proofs.Writer.Capacity

namespace BinaryLog

/-!
# What a full sink still says

A sink that has become full holds a log whose last entry may be cut off. The bytes that the writer
counts leave that entry out, and are a log in their own right.

* `Narrator.length_messagesOf_narrate`, commands are told with as many messages as they have;
* `Writer.performAll_bound`, a full sink does no harm to what was acknowledged.
-/

/-! ### Counting messages -/

namespace WriteCommand

theorem countP_isMessage_pad (length : Nat) (commands : List WriteCommand) :
    (pad length commands).countP isMessage = commands.countP isMessage := by
  cases commands with
  | nil => rfl
  | cons command commands => cases command <;> rfl

/-- Merging keeps all messages. -/
theorem countP_isMessage_merge (commands : List WriteCommand) :
    (merge commands).countP isMessage = commands.countP isMessage := by
  fun_induction merge commands with
  | case1 => rfl
  | case2 commands ih => exact ih
  | case3 commands ih => exact ih
  | case4 length commands _ ih => exact (countP_isMessage_pad length _).trans ih
  | case5 command commands _ _ ih => rw [List.countP_cons, List.countP_cons, ih]

end WriteCommand

/-- Each message is told as one. -/
theorem Narrator.length_messagesOf_narrate (conversion : TimeConversion)
    (text : FormatId → Bytes → String) (n : Narrator) (commands : List WriteCommand) :
    (messagesOf (n.narrate conversion text commands)).length =
      commands.countP WriteCommand.isMessage := by
  induction commands generalizing n with
  | nil => rfl
  | cons command commands ih =>
    cases command with
    | message id timestamp payload =>
      rw [List.countP_cons_of_pos rfl]
      exact congrArg (· + 1) (ih _)
    | checkpoint c => exact ih _
    | padding length => exact ih _
    | flush => exact ih _

/-! ### Full sinks -/

namespace Writer

open WriteCommand

/-- **A full sink does no harm** to what was acknowledged. It holds the first bytes of what a sink
    without a bound would hold. The writer does as it would there, up to the first command for which
    there is not enough room, in whichever of its pieces; that one fails and changes nothing but the
    sink, and from then on the writer stands still. The bytes that it counts are those of the
    commands that succeeded, and are replayed to their end with as many messages as it counts. -/
theorem performAll_bound (capacity : Nat) (commands : List WriteCommand) :
    let bounded := ({} : Writer).bound capacity
    let w := bounded.performAll commands
    w.sink.stored = (({} : Writer).performAll commands).sink.stored.take capacity ∧
      (Agrees capacity commands ∨
        ∃ before command after, commands = before ++ command :: after ∧
          CutShort capacity before command) ∧
      (∀ command : WriteCommand, command.Continues w.chain →
        ((w.perform command).1.isOk, (w.perform command).2.sink) =
          w.sink.writeEach (command.pieces w.chain)) ∧
      w.sink.stored.take w.bytes = layout {} (bounded.acknowledged commands) ∧
      ∀ (registry : Registry) (config : ReplayConfig) (text : FormatId → Bytes → String),
        config.limit = none →
        (∀ id timestamp payload, .message id timestamp payload ∈ bounded.acknowledged commands →
          registry.Reads id payload (text id payload)) →
        let replay := Replayer.start (.ofBytes (w.sink.stored.take w.bytes)) registry config
        let told := Narrator.narrate config.conversion text
          { rate := config.conversion.initialRate } (merge (bounded.acknowledged commands))
        replay.events.1 = told.map .ok ∧ (messagesOf told).length = w.messages ∧
          replay.events.2.phase = .done := by
  intro bounded w
  obtain ⟨hwritten, hordered, hmessages⟩ :=
    written_performAll (w := bounded) (Sound.of_empty (some capacity)) commands
  -- what is counted is laid out as the commands that succeeded, so it is replayed as they are
  have hlog : w.sink.stored.take w.bytes = layout {} (bounded.acknowledged commands) := hwritten
  refine ⟨stored_performAll_bound capacity commands, agrees_or_cutShort capacity commands,
    fun command => perform_eq_writeEach, hlog, ?_⟩
  intro registry config text hlimit hreads replay told
  obtain ⟨hevents, hdone, -⟩ := Replayer.events_layout hlimit hordered hreads
  have hreplay : replay = Replayer.start (.ofBytes (w.sink.stored.take w.bytes)) registry config :=
    rfl
  rw [hreplay, hlog]
  refine ⟨hevents, ?_, hdone⟩
  rw [Narrator.length_messagesOf_narrate, countP_isMessage_merge]
  exact (hmessages.trans (Nat.zero_add _)).symm

/-- The sink is full within the payload of the second message; of what follows, only what has no
    bytes succeeds. -/
theorem performAll_bound_in_payload :
    let registry : Registry := ({} : FormatTable Routine).insert ⟨7⟩ Routine.singleByte
    let commands : List WriteCommand :=
      [.message ⟨7⟩ 100 [1], .padding 2, .message ⟨7⟩ 1000 [2], .message ⟨7⟩ 50 [3], .padding 0,
        .checkpoint ⟨5, 6, ⟨0⟩⟩, .flush, .message ⟨7⟩ 100 [4]]
    let bounded := ({} : Writer).bound 9
    let w := bounded.performAll commands
    w.sink.stored = [0x15, 7, 100, 1, 0, 0, 0x21, 0x84, 3] ∧ w.messages = 1 ∧ w.bytes = 6 ∧
      bounded.answers commands =
        [.ok (), .ok (), .error .sinkFull, .error (.timeReversed 100 50), .ok (),
          .error .sinkFull, .ok (), .error .sinkFull] ∧
      (Replayer.start (.ofBytes (w.sink.stored.take w.bytes)) registry {}).events.1 =
        [.ok (.message ⟨0, ⟨7⟩, 100, 100, elapsedNanos 100 defaultRate, "fmt7:1"⟩),
          .ok (.padding 4 2)] := by
  intro registry commands bounded w
  have hacknowledged : bounded.acknowledged commands =
      [.message ⟨7⟩ 100 [1], .padding 2, .padding 0, .flush] := by decide +kernel
  have hreads : ∀ id timestamp payload,
      .message id timestamp payload ∈ bounded.acknowledged commands →
        registry.Reads id payload s!"fmt{id}:{(payload.headD 0).toNat}" := by
    intro id timestamp payload h
    rw [hacknowledged] at h
    simp at h
    obtain ⟨rfl, -, rfl⟩ := h
    exact ⟨_, rfl, Routine.consumes_singleByte _ 1⟩
  obtain ⟨-, -, -, -, hreplay⟩ := performAll_bound 9 commands
  refine ⟨by decide +kernel, by decide +kernel, by decide +kernel, by decide +kernel, ?_⟩
  rw [(hreplay registry {} _ rfl hreads).1, hacknowledged]
  decide +kernel

end Writer

end BinaryLog
