import BinaryLog.Proofs.Replay.Narration

namespace BinaryLog

/-!
# What a log says

Two logs say the same if their messages and checkpoints are the same, in the same order. Where the
entries stand, how much padding is between them and how much time passes are no part of that.

* `Content`, with `Event.content?` and `WriteCommand.content?`;
* `Registry.textOf`, the text that a registry makes of a payload;
* `Replayer.contents_layout`, a log says what its commands do.
-/

/-- What an entry says, wherever it stands. -/
inductive Content where
  | message (id : FormatId) (timestamp : UInt64) (text : String)
  | checkpoint (c : Checkpoint)
deriving DecidableEq

/-- What an event says. A padding says nothing. -/
def Event.content? : Event → Option Content
  | .message m => some (.message m.formatId m.timestamp m.text)
  | .checkpoint c => some (.checkpoint c)
  | .padding _ _ => none

namespace WriteCommand

/-- What a command says, where the text of a message is given by its format and payload. -/
def content? (text : FormatId → Bytes → String) : WriteCommand → Option Content
  | .message id timestamp payload => some (.message id timestamp (text id payload))
  | .checkpoint c => some (.checkpoint c)
  | _ => none

variable {text : FormatId → Bytes → String}

theorem contents_pad (length : Nat) (commands : List WriteCommand) :
    (pad length commands).filterMap (content? text) = commands.filterMap (content? text) := by
  cases commands with
  | nil => rfl
  | cons command commands => cases command <;> rfl

/-- Merging does not change what commands say. -/
theorem contents_merge (commands : List WriteCommand) :
    (merge commands).filterMap (content? text) = commands.filterMap (content? text) := by
  fun_induction merge commands with
  | case1 => rfl
  | case2 commands ih => exact ih
  | case3 commands ih => exact ih
  | case4 length commands _ ih => exact (contents_pad length _).trans ih
  | case5 command commands _ _ ih => rw [List.filterMap_cons, List.filterMap_cons, ih]

end WriteCommand

/-- A narration says what its commands do. -/
theorem Narrator.contents_narrate (conversion : TimeConversion)
    (text : FormatId → Bytes → String) (n : Narrator) (commands : List WriteCommand) :
    (n.narrate conversion text commands).filterMap Event.content? =
      commands.filterMap (WriteCommand.content? text) := by
  induction commands generalizing n with
  | nil => rfl
  | cons command commands ih =>
    cases command with
    | message id timestamp payload => exact congrArg (List.cons _) (ih _)
    | checkpoint c => exact congrArg (List.cons _) (ih _)
    | padding length => exact ih _
    | flush => exact ih _

/-! ### Texts of payloads -/

/-- The text that a registry makes of a payload that it reads. -/
def Registry.textOf (registry : Registry) (id : FormatId) (payload : Bytes) : String :=
  match ((registry.decode id).run (.ofBytes payload)).1 with
  | .ok text => text
  | .error _ => ""

/-- The text of a payload is the one that its routine reads. -/
theorem Registry.Reads.textOf_eq {registry : Registry} {id : FormatId} {payload : Bytes}
    {text : String} (h : registry.Reads id payload text) : registry.textOf id payload = text := by
  have hrun := h.consumes (.ofBytes payload) [] (List.append_nil payload).symm
  rw [textOf, hrun]

namespace Replayer

open WriteCommand

/-- **A log says what its commands do**, and is read to its end. -/
theorem contents_layout {registry : Registry} {config : ReplayConfig}
    {commands : List WriteCommand} (hlimit : config.limit = none) (hordered : Ordered {} commands)
    (hreads : ∀ id timestamp payload, .message id timestamp payload ∈ commands →
      ∃ text, registry.Reads id payload text) :
    let replay := start (.ofBytes (layout {} commands)) registry config
    let told := Narrator.narrate config.conversion registry.textOf
      { rate := config.conversion.initialRate } (merge commands)
    replay.events.1 = told.map .ok ∧
      told.filterMap Event.content? = commands.filterMap (content? registry.textOf) ∧
      replay.events.2.phase = .done ∧ replay.events.2.stoppedByLimit = false ∧
      replay.events.2.source.offset = (layout {} commands).length := by
  intro replay told
  have htext : ∀ id timestamp payload, .message id timestamp payload ∈ commands →
      registry.Reads id payload (registry.textOf id payload) := by
    intro id timestamp payload h
    obtain ⟨text, hread⟩ := hreads id timestamp payload h
    rwa [hread.textOf_eq]
  obtain ⟨hevents, hend⟩ := events_layout hlimit hordered htext
  refine ⟨hevents, ?_, hend⟩
  rw [Narrator.contents_narrate, contents_merge]

end Replayer

end BinaryLog
