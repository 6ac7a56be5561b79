import BinaryLog.Proofs.Replay.Running
import BinaryLog.Routine

namespace BinaryLog

/-!
# Calibration is only shown

Where the cycles per second come from makes a difference to the times that are shown with messages
and to nothing else: not to what is read, nor to what is told, nor to where and how a replay ends.

* `Event.untimed`, an event without its time, and `Replayer.untimed`, what a call answers without
  one;
* `Replayer.recalibrate`, the replay with another conversion of time, and
  `Replayer.next_recalibrate`, its next call;
* `Replayer.calls_recalibrate`, two replays of a source with different conversions of time.
-/

/-- The message without its time. -/
def Message.untimed (m : Message) : Message := { m with elapsedNanos := .zero }

/-- The event without its time, which only a message has. -/
def Event.untimed : Event → Event
  | .message m => .message m.untimed
  | event => event

namespace Replayer

/-- What a call answers, without the time of a message. -/
def untimed (answer : Except ReplayError (Option Event)) : Except ReplayError (Option Event) :=
  answer.map (Option.map Event.untimed)

/-- The replay with another conversion of time, which has come to another rate. -/
def recalibrate (r : Replayer) (conversion : TimeConversion) (rate : Binary64) : Replayer :=
  { r with config := { r.config with conversion }, rate }

variable (conversion : TimeConversion) (rate : Binary64)

/-! ### One call -/

/-- Events differ in their times only. -/
theorem untimed_told_recalibrate (r : Replayer) (entry : Entry) :
    ((r.recalibrate conversion rate).told entry).untimed = (r.told entry).untimed := by
  cases entry <;> simp only [told, account, Event.untimed, Message.untimed, recalibrate]

/-- How the replay goes on does not depend on the rate. -/
theorem settle_recalibrate (r : Replayer) :
    (r.recalibrate conversion rate).settle = r.settle.recalibrate conversion rate := by
  -- the limit is not part of the conversion
  simp only [settle, apply_ite (Replayer.recalibrate · conversion rate)]
  rfl

/-- An entry changes the same, apart from the rate. -/
theorem exists_after_recalibrate (r : Replayer) (entry : Entry) (u : Source) :
    ∃ rate', (r.recalibrate conversion rate).after entry u =
      (r.after entry u).recalibrate conversion rate' := by
  have hsettle (rate' : Binary64) := settle_recalibrate conversion rate'
    ({ r with source := u }.account r.source.offset entry).2
  cases entry with
  | message metadata text => exact ⟨rate, hsettle rate⟩
  | checkpoint c => exact ⟨(r.recalibrate conversion rate).rateAfter c, hsettle _⟩
  | padding length => exact ⟨rate, hsettle rate⟩

/-- **A call** does not look at the conversion of time. It answers the same apart from a time, and
    changes the same apart from the rate. -/
theorem next_recalibrate (r : Replayer) :
    untimed (r.recalibrate conversion rate).next.1 = untimed r.next.1 ∧
      ∃ rate', (r.recalibrate conversion rate).next.2 = r.next.2.recalibrate conversion rate' := by
  let other := r.recalibrate conversion rate
  show untimed other.next.1 = _ ∧ ∃ rate', other.next.2 = _
  rcases h : r.next with ⟨answer, s⟩
  cases call_of_next h with
  | finished hphase =>
    rw [next_of_terminal (r := other) hphase]
    exact ⟨rfl, rate, rfl⟩
  | ended hphase hahead hending =>
    rw [next_at_end (r := other) hphase hahead hending]
    exact ⟨rfl, rate, rfl⟩
  | fault hphase hahead hending =>
    rw [next_at_fault (r := other) hphase hahead hending]
    exact ⟨rfl, rate, rfl⟩
  | failure hphase hahead hrun =>
    rw [next_of_failure (r := other) hphase hahead hrun]
    exact ⟨rfl, rate, rfl⟩
  | @told entry u hphase hread =>
    rw [next_of_read (r := other) hphase hread]
    refine ⟨?_, exists_after_recalibrate conversion rate r entry u⟩
    show (.ok (some (other.told entry).untimed) : Except ReplayError (Option Event)) = _
    rw [untimed_told_recalibrate conversion rate r entry]
    rfl

/-! ### Many calls -/

/-- After any number of calls, the replays differ in nothing but the conversion and the rate. -/
theorem exists_calls_recalibrate (r : Replayer) (n : Nat) :
    ∃ rate', (r.recalibrate conversion rate).calls n =
      (r.calls n).recalibrate conversion rate' := by
  induction n with
  | zero => exact ⟨rate, rfl⟩
  | succ n ih =>
    -- the rates may drift apart with each checkpoint, so the relation leaves them open
    obtain ⟨rate', ih⟩ := ih
    rw [calls_succ, calls_succ, ih]
    exact (next_recalibrate conversion rate' (r.calls n)).2

/-- **Calibration is only shown.** Two replays of a source, whatever it holds and however it fails,
    that turn cycles into time in different ways answer every call with the same event, apart from
    the time of a message, with the same error, or both with nothing. Before and after every call
    they have read as far, stand in the same phase, and have told as much. -/
theorem calls_recalibrate (source : Source) (registry : Registry) (limit : Option Nat)
    (conversion other : TimeConversion) (n : Nat) :
    let r := (start source registry { limit, conversion }).calls n
    let s := (start source registry { limit, conversion := other }).calls n
    untimed s.next.1 = untimed r.next.1 ∧ s.source = r.source ∧ s.phase = r.phase ∧
      s.chain = r.chain ∧ s.messages = r.messages ∧ s.summary = r.summary := by
  intro r s
  obtain ⟨rate, hs⟩ : ∃ rate, s = r.recalibrate other rate :=
    exists_calls_recalibrate other other.initialRate (start source registry { limit, conversion }) n
  rw [hs]
  exact ⟨(next_recalibrate other rate r).1, rfl, rfl, rfl, rfl, rfl⟩

/-- The time of a message does depend on the rate. -/
example :
    let registry : Registry := ({} : FormatTable Routine).insert ⟨7⟩ Routine.singleByte
    let source := Source.ofBytes [0x15, 7, 100, 1]
    let slow := start source registry { conversion := .fixed (Binary64.ofNat 1000) }
    let fast := start source registry { conversion := .checkpoints defaultRate }
    slow.next.1 ≠ fast.next.1 ∧ untimed slow.next.1 = untimed fast.next.1 := by
  decide +kernel

end Replayer

end BinaryLog
