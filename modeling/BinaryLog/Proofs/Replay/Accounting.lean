import BinaryLog.Proofs.Replay.Running
import BinaryLog.Routine
import Mathlib.Algebra.Ring.Nat

namespace BinaryLog

/-!
# What a replay keeps account of

Whatever the bytes, the device, the routines and the settings are, the state of a replay is an
account of what it has told so far.

* `Replayer.toldBy`, the events that a number of calls tell, and `Replayer.calls_induction`;
* `Replayer.Accounts`, the account that a replay keeps of events;
* `Replayer.Accounts.tell`, one call keeps it, and `Replayer.accounts_calls`, so do all.
-/

/-! ### Events -/

namespace Event

/-- Is it a checkpoint? -/
def isCheckpoint : Event → Bool
  | .checkpoint _ => true
  | _ => false

/-- The bytes of padding that an event tells of. -/
def padBytes : Event → Nat
  | .padding _ length => length
  | _ => 0

end Event

/-- The messages among events. -/
def messagesOf (events : List Event) : List Message := events.filterMap Event.message?

/-- What the next message continues from after these messages. -/
def Chain.ofMessages (messages : List Message) : Chain :=
  match messages.getLast? with
  | some m => { formatId := m.formatId, timestamp := m.timestamp }
  | none => {}

/-- The next message continues from the last one. -/
theorem Chain.ofMessages_concat (messages : List Message) (m : Message) :
    Chain.ofMessages (messages ++ [m]) = { formatId := m.formatId, timestamp := m.timestamp } := by
  rw [Chain.ofMessages, List.getLast?_concat]

/-- A message goes down as the last one. -/
theorem messagesOf_concat_message (events : List Event) (m : Message) :
    messagesOf (events ++ [.message m]) = messagesOf events ++ [m] := by
  rw [messagesOf, List.filterMap_append]
  rfl

/-- Checkpoints and paddings are no messages. -/
theorem messagesOf_concat (events : List Event) {event : Event} (h : event.message? = none) :
    messagesOf (events ++ [event]) = messagesOf events := by
  rw [messagesOf, List.filterMap_append, List.filterMap_cons_none h]
  exact List.append_nil _

/-- Messages that continue each other from the first one on. -/
structure Chronicle (messages : List Message) : Prop where
  indices : messages.map (·.index) = List.range messages.length
  /-- Time does not go back. -/
  ordered : messages.Pairwise fun m m' => m.timestamp ≤ m'.timestamp
  /-- The cycles since the message before, by a subtraction that does not wrap around. -/
  elapsed : ∀ i m, messages[i]? = some m →
    (Chain.ofMessages (messages.take i)).timestamp ≤ m.timestamp ∧
      m.elapsedCycles = m.timestamp - (Chain.ofMessages (messages.take i)).timestamp
  /-- The cycles add up, without wrapping around. -/
  total : (messages.map (·.elapsedCycles.toNat)).sum = (Chain.ofMessages messages).timestamp.toNat

namespace Chronicle

theorem nil : Chronicle [] where
  indices := rfl
  ordered := .nil
  elapsed i m h := by cases h
  total := rfl

/-- No message is later than the last one. -/
theorem timestamp_le {messages : List Message} (h : Chronicle messages) {m : Message}
    (hm : m ∈ messages) : m.timestamp ≤ (Chain.ofMessages messages).timestamp := by
  -- the chronicle is ordered, so its last message is the latest
  obtain rfl | ⟨before, last, rfl⟩ := List.eq_nil_or_concat messages
  · cases hm
  · rw [List.concat_eq_append] at h hm ⊢
    rw [Chain.ofMessages_concat]
    obtain hbefore | hlast := List.mem_append.mp hm
    · exact (List.pairwise_append.mp h.ordered).2.2 m hbefore last (List.mem_singleton_self last)
    · rw [List.mem_singleton.mp hlast]
      exact UInt64.le_refl _

/-- One more message continues the last one. -/
theorem concat {messages : List Message} (h : Chronicle messages) {m : Message}
    (hindex : m.index = messages.length) (hle : (Chain.ofMessages messages).timestamp ≤ m.timestamp)
    (helapsed : m.elapsedCycles = m.timestamp - (Chain.ofMessages messages).timestamp) :
    Chronicle (messages ++ [m]) where
  indices := by
    rw [List.map_append, h.indices, List.length_append, List.length_singleton, List.range_succ,
      List.map_singleton, hindex]
  ordered := by
    refine List.pairwise_append.mpr ⟨h.ordered, List.pairwise_singleton _ m, ?_⟩
    intro earlier hearlier later hlater
    rw [List.mem_singleton.mp hlater]
    exact UInt64.le_trans (h.timestamp_le hearlier) hle
  elapsed i other hother := by
    -- the messages before are followed by the same ones as ever, and the new one by none
    obtain hi | hi := Nat.lt_or_ge i messages.length
    · rw [List.getElem?_append_left hi] at hother
      rw [List.take_append_of_le_length (Nat.le_of_lt hi)]
      exact h.elapsed i other hother
    · rw [List.getElem?_append_right hi, List.getElem?_singleton] at hother
      split at hother
      · cases hother
        rw [show i = messages.length by omega, List.take_left]
        exact ⟨hle, helapsed⟩
      · cases hother
  total := by
    rw [List.map_append, List.sum_append, h.total, List.map_singleton, List.sum_singleton, helapsed,
      UInt64.toNat_sub_of_le _ _ hle, Chain.ofMessages_concat]
    exact Nat.add_sub_of_le (UInt64.le_iff_toNat_le.mp hle)

end Chronicle

namespace Replayer

variable {r s : Replayer} {event : Event} {events : List Event} {n : Nat}

/-! ### Calls -/

/-- The event that the next call tells, if it tells one. -/
def event? (r : Replayer) : Option Event :=
  match r.next.1 with
  | .ok event => event
  | .error _ => none

/-- The events that the first `n` calls tell. -/
def toldBy (n : Nat) (r : Replayer) : List Event :=
  (List.range n).filterMap fun i => (calls i r).event?

/-- A call that tells no event changes at most the source and the phase. -/
theorem next_of_event?_eq_none (h : r.event? = none) :
    ∃ source phase, r.next.2 = { r with source, phase } := by
  rcases hnext : r.next with ⟨answer, s⟩
  cases call_of_next hnext with
  | finished => exact ⟨_, _, rfl⟩
  | ended => exact ⟨_, _, rfl⟩
  | fault => exact ⟨_, _, rfl⟩
  | failure => exact ⟨_, _, rfl⟩
  | told =>
    rw [event?, hnext] at h
    cases h

/-- A call that tells an event is one that does not fail. -/
theorem next_of_event?_eq_some (h : r.event? = some event) :
    r.next = (.ok (some event), r.next.2) := by
  rw [event?] at h
  split at h
  · rename_i told hnext
    rw [← h, ← hnext]
  · cases h

/-- One more call tells at most one more event. -/
theorem toldBy_succ (n : Nat) (r : Replayer) :
    toldBy (n + 1) r = toldBy n r ++ (calls n r).event?.toList := by
  rw [toldBy, List.range_succ, List.filterMap_append, toldBy]
  cases h : (calls n r).event? <;> simp [h]

/-- **Induction over calls.** Whatever an event keeps, and does not hang on where the source and the
    replay stand, holds after any number of calls of the events that they tell. -/
theorem calls_induction {P : List Event → Replayer → Prop} (start : P [] r)
    (tell : ∀ told s event t, P told s → s.next = (.ok (some event), t) → P (told ++ [event]) t)
    (skip : ∀ told (s : Replayer) source phase, P told s → P told { s with source, phase })
    (n : Nat) : P (toldBy n r) (calls n r) := by
  induction n with
  | zero => exact start
  | succ n ih =>
    rw [toldBy_succ, calls_succ]
    cases hevent : (calls n r).event? with
    | none =>
      obtain ⟨source, phase, hnext⟩ := next_of_event?_eq_none hevent
      rw [hnext, Option.toList_none, List.append_nil]
      exact skip _ _ source phase ih
    | some event => exact tell _ _ event _ ih (next_of_event?_eq_some hevent)

theorem registry_calls (n : Nat) (r : Replayer) : (calls n r).registry = r.registry := by
  refine calls_induction (P := fun _ s => s.registry = r.registry) rfl ?_ ?_ n
  · intro told s event t ih hnext
    rw [registry_of_event hnext, ih]
  · exact fun told s source phase ih => ih

theorem config_calls (n : Nat) (r : Replayer) : (calls n r).config = r.config := by
  refine calls_induction (P := fun _ s => s.config = r.config) rfl ?_ ?_ n
  · intro told s event t ih hnext
    rw [config_of_event hnext, ih]
  · exact fun told s source phase ih => ih

/-! ### The account -/

/-- The account that a replay keeps of the events it has told. -/
structure Accounts (events : List Event) (r : Replayer) : Prop where
  chronicle : Chronicle (messagesOf events)
  chain : r.chain = Chain.ofMessages (messagesOf events)
  messages : r.messages = (messagesOf events).length
  checkpoints : r.summary.checkpoints = events.countP Event.isCheckpoint
  padBytes : r.summary.padBytes = (events.map Event.padBytes).sum

theorem accounts_start (source : Source) (registry : Registry) (config : ReplayConfig) :
    Accounts [] (start source registry config) :=
  ⟨.nil, rfl, rfl, rfl, rfl⟩

/-- Only a message goes down in the chronicle, which it continues. -/
theorem Accounts.chronicle_after (h : Accounts events r) {entry : Entry} {u : Source}
    (hread : Entry.Read r.registry r.chain r.source entry u) :
    Chronicle (messagesOf (events ++ [r.told entry])) ∧
      (r.after entry u).chain = Chain.ofMessages (messagesOf (events ++ [r.told entry])) ∧
      (r.after entry u).messages = (messagesOf (events ++ [r.told entry])).length := by
  rw [chain_after, messages_after]
  cases hread with
  | @message metadata text _ _ hheader hpayload =>
    -- a header that is read does not reach back in time
    obtain ⟨-, hle, -⟩ := Metadata.of_run_decode_eq_ok hheader
    rw [h.chain] at hle
    have hmessages : messagesOf (events ++ [r.told (.message metadata text)]) =
        messagesOf events ++ [_] := messagesOf_concat_message events _
    rw [hmessages, Chain.ofMessages_concat, List.length_append, ← h.messages]
    exact ⟨h.chronicle.concat h.messages hle (by rw [← h.chain]), rfl, rfl⟩
  | checkpoint hbody =>
    rw [messagesOf_concat events rfl]
    exact ⟨h.chronicle, h.chain, h.messages⟩
  | padding hpos hahead hlast hending =>
    rw [messagesOf_concat events rfl]
    exact ⟨h.chronicle, h.chain, h.messages⟩

/-- What an event adds to the counts. -/
theorem counts_of_event (h : r.next = (.ok (some event), s)) :
    s.padBytes = r.padBytes + event.padBytes ∧
      s.checkpoints = r.checkpoints + if event.isCheckpoint then 1 else 0 := by
  obtain ⟨-, entry, u, -, rfl, rfl⟩ := next_eq_event_iff.mp h
  rw [padBytes_after, checkpoints_after]
  cases entry <;> exact ⟨rfl, rfl⟩

/-- **A call that tells an event** accounts for it. -/
theorem Accounts.tell (h : Accounts events r) (hnext : r.next = (.ok (some event), s)) :
    Accounts (events ++ [event]) s := by
  obtain ⟨hpad, hcheckpoints⟩ := counts_of_event hnext
  obtain ⟨-, entry, u, hread, rfl, rfl⟩ := next_eq_event_iff.mp hnext
  obtain ⟨hchronicle, hchain, hmessages⟩ := h.chronicle_after hread
  refine ⟨hchronicle, hchain, hmessages, ?_, ?_⟩
  · rw [List.countP_append, ← h.checkpoints, List.countP_singleton]
    exact hcheckpoints
  · rw [List.map_append, List.sum_append, ← h.padBytes, List.map_singleton, List.sum_singleton]
    exact hpad

/-- After any number of calls the account is kept. -/
theorem Accounts.calls (h : Accounts [] r) (n : Nat) : Accounts (r.toldBy n) (r.calls n) := by
  -- the source and the phase are no part of the account
  refine calls_induction h ?_ ?_ n
  · intro told s event t ih hnext
    exact ih.tell hnext
  · intro told s source phase ih
    exact ⟨ih.chronicle, ih.chain, ih.messages, ih.checkpoints, ih.padBytes⟩

/-! ### Texts -/

/-- A message of a known format. Its text is what the routine of that format makes of the bytes
    behind the message's header, which it reads up to `rest`. -/
def Renders (r : Replayer) (m : Message) (rest : Source) : Prop :=
  ∃ metadata payload routine,
    (Metadata.decode r.chain).run r.source = (.ok metadata, payload) ∧
      metadata.chain = { formatId := m.formatId, timestamp := m.timestamp } ∧
      r.registry.get? m.formatId = some routine ∧
      (routine m.formatId).run payload = (.ok m.text, rest)

/-- **The text of a message** is what the routine of its format made of the bytes behind the header.
    -/
theorem renders_of_event {m : Message} (h : r.next = (.ok (some (.message m)), s)) :
    r.Renders m s.source := by
  obtain ⟨-, entry, u, hread, htold, rfl⟩ := next_eq_event_iff.mp h
  rw [source_after]
  cases hread with
  | @message metadata text payload _ hheader hpayload =>
    cases htold
    obtain ⟨routine, hroutine, htext⟩ := Registry.run_decode_eq_ok_iff.mp hpayload
    exact ⟨metadata, payload, routine, hheader, rfl, hroutine, htext⟩
  | checkpoint => cases htold
  | padding => cases htold

/-- **Whatever is replayed**, and however often it is called, a replay keeps account of what it has
    told, and every message it has told is of a known format and has the text that the routine of
    that format made of it. -/
theorem accounts_calls (source : Source) (registry : Registry) (config : ReplayConfig) (n : Nat) :
    let replay := start source registry config
    Accounts (replay.toldBy n) (replay.calls n) ∧
      ∀ i < n, ∀ m, (replay.calls i).event? = some (.message m) →
        (replay.calls i).registry = registry ∧
          (replay.calls i).Renders m (replay.calls (i + 1)).source := by
  intro replay
  refine ⟨(accounts_start source registry config).calls n, fun i _ m hm => ?_⟩
  refine ⟨registry_calls i replay, ?_⟩
  rw [calls_succ]
  exact renders_of_event (next_of_event?_eq_some hm)

/-- Two messages with a padding between them, on a device that then fails. -/
theorem accounts_calls_on_failing_device :
    let registry : Registry := ({} : FormatTable Routine).insert ⟨7⟩ Routine.singleByte
    let source := Source.failingAfter [0x15, 7, 100, 1, 0, 0, 0x11, 5, 2] 9 "device gone"
    let replay := start source registry {}
    let second : Message := ⟨1, ⟨7⟩, 105, 5, elapsedNanos 5 defaultRate, "fmt7:2"⟩
    replay.toldBy 9 =
        [.message ⟨0, ⟨7⟩, 100, 100, elapsedNanos 100 defaultRate, "fmt7:1"⟩, .padding 4 2,
          .message second] ∧
      (replay.calls 9).phase = .failed ∧ Accounts (replay.toldBy 9) (replay.calls 9) ∧
      (replay.calls 2).Renders second (replay.calls 3).source := by
  intro registry source replay second
  obtain ⟨haccounts, hrenders⟩ := accounts_calls source registry {} 9
  have hsecond : (replay.calls 2).event? = some (.message second) := by decide +kernel
  exact ⟨by decide +kernel, by decide +kernel, haccounts,
    (hrenders 2 (by decide) second hsecond).2⟩

end Replayer

end BinaryLog
