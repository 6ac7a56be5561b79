import BinaryLog.Proofs.Replay.Relocation

namespace BinaryLog

/-!
# What a replay tells of messages

The digest of a replay has its messages and says how it ends. Paddings and checkpoints are left out,
and so are the counters for them.

* `Replayer.digest`, with `Digest.shift`, the digest of a log that stands further back;
* `Replayer.digest_recount`, a digest does not hang on the counters, and follows the log to where it
  stands;
* `Replayer.Running.digest_of_ignored` and `Replayer.Running.digest_skip`, an entry that is no
  message leaves no trace in a digest, and neither do zeros.
-/

/-! ### Digests -/

/-- What a replay tells of messages, why it fails if it does, and how it ends. -/
structure Digest where
  messages : List Message
  errors : List ReplayError
  phase : Phase
  stoppedByLimit : Bool
deriving DecidableEq

/-- The error where everything stands `n` bytes further back. -/
def ReplayError.shift (n : Nat) (error : ReplayError) : ReplayError :=
  { error with cause := error.cause.shift n, entryOffset := error.entryOffset + n }

namespace Digest

/-- The message that an item of a replay is. -/
def message? : Except ReplayError Event → Option Message
  | .ok event => event.message?
  | .error _ => none

/-- The error that an item of a replay is. -/
def error? : Except ReplayError Event → Option ReplayError
  | .error error => some error
  | .ok _ => none

/-- The digest with an event in front. -/
def tell : Event → Digest → Digest
  | .message m, d => { d with messages := m :: d.messages }
  | _, d => d

/-- The digest where everything stands `n` bytes further back. -/
def shift (n : Nat) (d : Digest) : Digest := { d with errors := d.errors.map (.shift n) }

/-- Telling an event and moving everything back are independent. -/
theorem shift_tell (n : Nat) (event : Event) (d : Digest) :
    (d.tell event).shift n = (d.shift n).tell event := by
  cases event <;> rfl

theorem shift_zero (d : Digest) : d.shift 0 = d := by
  have herror : ReplayError.shift 0 = id := by
    funext error
    rcases error with ⟨_ | _ | _ | _ | _ | _ | _, _, _, _⟩ <;> rfl
  rw [shift, herror, List.map_id]

end Digest

namespace Replayer

variable {r s : Replayer} {event : Event} {told : List Event}

/-- What the replay tells of messages, and how it ends. -/
def digest (r : Replayer) : Digest :=
  { messages := r.events.1.filterMap Digest.message?
    errors := r.events.1.filterMap Digest.error?
    phase := r.events.2.phase
    stoppedByLimit := r.events.2.stoppedByLimit }

/-- A message is put down in front of what is told later. -/
theorem digest_of_event (h : r.next = (.ok (some event), s)) : r.digest = s.digest.tell event := by
  rw [digest, digest, events_of_event h]
  cases event <;> rfl

theorem digest_of_none (h : r.next = (.ok none, s)) : r.digest =
    { messages := [], errors := [], phase := s.phase, stoppedByLimit := s.stoppedByLimit } := by
  rw [digest, events_of_none h]
  rfl

/-- An error is the last thing in a digest. -/
theorem digest_of_error {error : ReplayError} (h : r.next = (.error error, s)) : r.digest =
    { messages := [], errors := [error], phase := s.phase
      stoppedByLimit := s.stoppedByLimit } := by
  rw [digest, events_of_error h]
  rfl

/-- No error is about an entry that was already read. -/
theorem offset_le_of_mem_errors {error : ReplayError} (h : error ∈ r.digest.errors) :
    r.source.offset ≤ error.entryOffset := by
  obtain ⟨told, s, htells, ⟨t, hend⟩ | ⟨found, t, herror⟩⟩ := exists_tells r
  · rw [digest, htells.events_eq, events_of_none hend] at h
    simp [List.filterMap_map, Digest.error?] at h
  · rw [digest, htells.events_eq, events_of_error herror] at h
    have heq : error = found := by simpa [List.filterMap_map, Digest.error?] using h
    obtain ⟨-, cause, u, rfl, -, -⟩ := next_eq_error herror
    rw [heq]
    exact htells.offset_le

/-- The events of a replay do not fail. -/
theorem Tells.errors_eq (h : Tells r told s) : r.digest.errors = s.digest.errors := by
  induction h with
  | refl => rfl
  | @step r s t event events first _ ih =>
    rw [← ih, digest_of_event first]
    cases event <;> rfl

/-! ### Counters and offsets -/

/-- The replay `n` bytes further back, with other counters for padding and checkpoints. -/
def recount (r : Replayer) (n padBytes checkpoints : Nat) : Replayer :=
  { r.move (.shift n) with padBytes, checkpoints }

/-- How a replay goes on does not depend on what it counted besides messages. -/
theorem settle_recount (r : Replayer) (n p c : Nat) :
    (r.recount n p c).settle = r.settle.recount n p c := by
  -- whether the replay settles as done depends on nothing that changes
  simp only [settle, apply_ite (Replayer.recount · n p c)]
  rfl

/-- An entry is told alike, with counts that differ from then on by as much as before. -/
theorem exists_after_recount (r : Replayer) (n p c : Nat) (entry : Entry) (u : Source) :
    ∃ p' c', (r.recount n p c).after entry ((Relocation.shift n).move u) =
      (r.after entry u).recount n p' c' := by
  have hsettle := settle_recount ({ r with source := u }.account r.source.offset entry).2 n
  cases entry with
  | message metadata text => exact ⟨p, c, hsettle p c⟩
  | checkpoint d => exact ⟨p, c + 1, hsettle p (c + 1)⟩
  | padding length => exact ⟨p + length, c, hsettle (p + length) c⟩

/-- A replay that is over has the same digest whatever it counted. -/
theorem digest_recount_of_terminal (h : r.phase.isTerminal = true) (n p c : Nat) :
    (r.recount n p c).digest = r.digest.shift n := by
  rw [digest_of_none (next_of_terminal h),
    digest_of_none (next_of_terminal (r := r.recount n p c) h)]
  rfl

/-- **A digest does not hang on the counters**, and follows the log to where it stands. -/
theorem digest_recount (r : Replayer) (hregistry : r.registry.Plain)
    (hending : r.source.ending = .endOfStream) (n p c : Nat) :
    (r.recount n p c).digest = r.digest.shift n := by
  cases hphase : r.phase.isTerminal with
  | true => exact digest_recount_of_terminal hphase n p c
  | false =>
    rcases h : r.next with ⟨error | _ | event, s⟩
    · obtain ⟨-, b, bs, cause, u, hahead, hb, hrun, rfl, rfl⟩ := next_eq_error_of_ended h hending
      have herror := next_of_failure (r := r.recount n p c) hphase hahead
        ((Entry.plain_decode hregistry hb).relocatable.run_error (.shift n) hrun)
      rw [digest_of_error h, digest_of_error herror]
      rfl
    · obtain ⟨hahead, -, rfl⟩ := ended_of_next_eq_none h hphase
      have hend := next_at_end (r := r.recount n p c) hphase hahead hending
      rw [digest_of_none h, digest_of_none hend]
      rfl
    · -- an event leaves less to tell
      have hlt : s.pending < r.pending := pending_next_lt h (by simp)
      obtain ⟨-, entry, u, hread, rfl, rfl⟩ := next_eq_event_iff.mp h
      have hnext := next_of_read (r := r.recount n p c) hphase
        (hread.move hregistry (.shift n) fun _ _ _ => hending)
      obtain ⟨p', c', hafter⟩ := r.exists_after_recount n p c entry u
      rw [digest_of_event h, Digest.shift_tell, digest_of_event hnext, hafter,
        digest_recount (r.after entry u) (by rwa [registry_after])
          ((Tells.single h).ending_eq.trans hending)]
      cases entry <;> rfl
termination_by r.pending

/-! ### Entries without a trace -/

/-- An entry that is no message and leaves the rate as it is. -/
def Ignores (r : Replayer) : Entry → Prop
  | .message _ _ => False
  | .checkpoint c => r.rateAfter c = r.rate
  | .padding _ => True

/-- An entry that a digest ignores changes the source and the counts. -/
theorem Running.exists_after_of_ignored (h : r.Running) {entry : Entry} (hentry : r.Ignores entry)
    (u : Source) : ∃ p c, r.after entry u = (r.withSource u).recount 0 p c := by
  have hafter := h.after entry u
  rw [limitReached_after h.below entry u
    (by rintro metadata text rfl; exact hentry.elim)] at hafter
  have hrunning : (r.after entry u).Running := hafter
  -- a running replay has one phase only, so the settled one is the one before
  obtain ⟨phase, stopped, heq⟩ := r.after_eq entry u
  rw [heq] at hrunning ⊢
  obtain ⟨hphase, -, hstopped⟩ := hrunning
  rw [show phase = r.phase from hphase.trans h.phase.symm,
    show stopped = r.stoppedByLimit from hstopped.trans h.running.symm]
  cases entry with
  | message metadata text => exact hentry.elim
  | checkpoint c =>
    refine ⟨r.padBytes, r.checkpoints + 1, ?_⟩
    simp only [account, show ({ r with source := u } : Replayer).rateAfter c = r.rate from hentry]
    rfl
  | padding length => exact ⟨r.padBytes + length, r.checkpoints, rfl⟩

/-- **An entry that is ignored** leaves no trace in a digest. -/
theorem Running.digest_of_ignored (h : r.Running) (hregistry : r.registry.Plain)
    (hending : r.source.ending = .endOfStream) {entry : Entry} {u : Source}
    (hread : Entry.Read r.registry r.chain r.source entry u) (hentry : r.Ignores entry) :
    r.digest = (r.withSource u).digest := by
  -- the replay goes on as one without the entry, which counted less
  obtain ⟨p, c, hafter⟩ := h.exists_after_of_ignored hentry u
  have hnext := next_of_read h.isTerminal_eq hread
  have hending' : u.ending = .endOfStream := by
    have hsame := (Tells.single hnext).ending_eq
    rw [source_after] at hsame
    exact hsame.trans hending
  rw [digest_of_event hnext, hafter, digest_recount (r.withSource u) hregistry hending',
    Digest.shift_zero]
  cases entry with
  | message metadata text => exact hentry.elim
  | checkpoint c => rfl
  | padding length => rfl

/-- Zeros up to another byte leave no trace. -/
theorem Running.digest_of_zeros (h : r.Running) (hregistry : r.registry.Plain)
    (hending : r.source.ending = .endOfStream) {n : Nat} {rest : Bytes}
    (hahead : r.source.ahead = List.replicate n 0 ++ rest) (hlast : rest.head? ≠ some 0) :
    r.digest = (r.withSource (r.source.advance n)).digest := by
  cases n with
  | zero =>
    rw [Source.advance_zero]
    rfl
  | succ n =>
    exact h.digest_of_ignored hregistry hending
      (.padding (Nat.succ_pos n) hahead hlast fun _ => hending) trivial

/-- **Zeros leave no trace**, also if more zeros follow. -/
theorem Running.digest_skip (h : r.Running) (hregistry : r.registry.Plain)
    (hending : r.source.ending = .endOfStream) {n : Nat} {rest : Bytes}
    (hahead : r.source.ahead = List.replicate n 0 ++ rest) :
    r.digest = (r.withSource (r.source.advance n)).digest := by
  obtain ⟨m, last, rfl, hlast⟩ := exists_zeros rest
  have hskipped : (r.source.advance n).ahead = List.replicate m 0 ++ last :=
    Source.ahead_advance_zeros hahead
  -- the run up to its end is the run after the first zeros, from their end
  rw [← List.append_assoc, List.replicate_append_replicate] at hahead
  have hrunning : (r.withSource (r.source.advance n)).Running := ⟨h.phase, h.below, h.running⟩
  rw [h.digest_of_zeros hregistry hending hahead hlast,
    hrunning.digest_of_zeros hregistry hending hskipped hlast, withSource, withSource, withSource,
    Source.advance_advance]

end Replayer

end BinaryLog
