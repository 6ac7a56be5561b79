import BinaryLog.Proofs.Entry.Reading
import BinaryLog.Replay.Run

namespace BinaryLog.Replayer

/-!
# Calls that tell something

What one call of `Replayer.next` does, and what the calls of a whole replay add up to.

* `Call`, what a call can do, and `call_next`, every call does one of these;
* `next_eq_event_iff`, a call tells an event exactly if an entry can be read;
* `Tells r events s`, the calls that lead from `r` to `s` tell these events;
* `exists_tells`, a replay tells events until one call tells nothing or fails;
* `eventsOf`, the events among what is told, and `calls`, the replay after some calls;
* `Open`, a replay between two entries that no limit stops.
-/

variable {r s t : Replayer} {event : Event} {entry : Entry} {u : Source}

/-! ### One call -/

/-- The event that an entry at the current offset is told as. -/
def told (r : Replayer) (entry : Entry) : Event := (r.account r.source.offset entry).1

/-- The replay after an entry whose reading leaves the source as `u`. -/
def after (r : Replayer) (entry : Entry) (u : Source) : Replayer :=
  ({ r with source := u }.account r.source.offset entry).2.settle

/-- A replay that is over tells nothing more and stays as it is. -/
theorem next_of_terminal (h : r.phase.isTerminal = true) : r.next = (.ok none, r) := by
  rw [next, if_pos h]

/-- Between two entries, a stream that ends as it should ends the replay. -/
theorem next_at_end (hphase : r.phase.isTerminal = false) (hahead : r.source.ahead = [])
    (hending : r.source.ending = .endOfStream) :
    r.next = (.ok none, { r with phase := .done }) := by
  rw [next, hphase, EntryKind.run_upcoming, hahead, hending]
  rfl

/-- An entry that can be read is told. -/
theorem next_of_read (hphase : r.phase.isTerminal = false)
    (h : Entry.Read r.registry r.chain r.source entry u) :
    r.next = (.ok (some (r.told entry)), r.after entry u) := by
  obtain ⟨b, bs, hahead, hrun⟩ := h.decode_eq_ok
  rw [next, hphase, EntryKind.run_upcoming, hahead]
  simp only [Bool.false_eq_true, if_false, finish, enter, hrun]
  -- the phase in which the entry is read is overwritten when the replay settles
  cases entry <;> rfl

/-- An entry that cannot be read ends the replay. -/
theorem next_of_failure {b : UInt8} {bs : Bytes} {cause : DecodeError}
    (hphase : r.phase.isTerminal = false) (hahead : r.source.ahead = b :: bs)
    (h : (Entry.decode r.registry r.chain (EntryKind.ofByte b)).run r.source = (.error cause, u)) :
    r.next = (.error (r.errorAt r.source.offset cause),
      { r with source := u, phase := .failed }) := by
  rw [next, hphase, EntryKind.run_upcoming, hahead]
  simp only [Bool.false_eq_true, if_false, finish, enter, h]
  rfl

/-- A device that has failed is noticed in front of the next entry. -/
theorem next_at_fault {cause : String} (hphase : r.phase.isTerminal = false)
    (hahead : r.source.ahead = []) (hending : r.source.ending = .fault cause) :
    r.next = (.error (r.errorAt r.source.offset (.device cause)), { r with phase := .failed }) := by
  rw [next, hphase, EntryKind.run_upcoming, hahead, hending]
  rfl

/-- **What a call can do.** A replay that is over tells nothing more. Any other call finds the end
    of the stream, a device that has failed, an entry that cannot be read, or an entry, which it
    tells. -/
inductive Call (r : Replayer) : Except ReplayError (Option Event) → Replayer → Prop
  | finished (phase : r.phase.isTerminal = true) : Call r (.ok none) r
  | ended (phase : r.phase.isTerminal = false) (ahead : r.source.ahead = [])
      (ending : r.source.ending = .endOfStream) : Call r (.ok none) { r with phase := .done }
  | fault {cause : String} (phase : r.phase.isTerminal = false) (ahead : r.source.ahead = [])
      (ending : r.source.ending = .fault cause) :
      Call r (.error (r.errorAt r.source.offset (.device cause))) { r with phase := .failed }
  | failure {b : UInt8} {bs : Bytes} {cause : DecodeError} {u : Source}
      (phase : r.phase.isTerminal = false) (ahead : r.source.ahead = b :: bs)
      (unread : (Entry.decode r.registry r.chain (EntryKind.ofByte b)).run r.source =
        (.error cause, u)) :
      Call r (.error (r.errorAt r.source.offset cause)) { r with source := u, phase := .failed }
  | told {entry : Entry} {u : Source} (phase : r.phase.isTerminal = false)
      (read : Entry.Read r.registry r.chain r.source entry u) :
      Call r (.ok (some (r.told entry))) (r.after entry u)

/-- **Every call does one of these.** Whatever is said of all calls below is read off from here. -/
theorem call_next (r : Replayer) : Call r r.next.1 r.next.2 := by
  cases hphase : r.phase.isTerminal with
  | true =>
    rw [next_of_terminal hphase]
    exact .finished hphase
  | false =>
    cases hahead : r.source.ahead with
    | nil =>
      cases hending : r.source.ending with
      | endOfStream =>
        rw [next_at_end hphase hahead hending]
        exact .ended hphase hahead hending
      | fault cause =>
        rw [next_at_fault hphase hahead hending]
        exact .fault hphase hahead hending
    | cons b bs =>
      rcases hrun : (Entry.decode r.registry r.chain (EntryKind.ofByte b)).run r.source
        with ⟨_ | entry, u⟩
      · rw [next_of_failure hphase hahead hrun]
        exact .failure hphase hahead hrun
      · have hread := Entry.read_of_decode hahead hrun
        rw [next_of_read hphase hread]
        exact .told hphase hread

/-- What a call answers says which of these it did. -/
theorem call_of_next {answer : Except ReplayError (Option Event)} (h : r.next = (answer, s)) :
    Call r answer s := by
  have hcall := r.call_next
  rwa [h] at hcall

/-- **Events are entries.** A call tells an event exactly if the replay is not over and an entry can
    be read. -/
theorem next_eq_event_iff :
    r.next = (.ok (some event), s) ↔ r.phase.isTerminal = false ∧
      ∃ entry u, Entry.Read r.registry r.chain r.source entry u ∧ event = r.told entry ∧
        s = r.after entry u := by
  constructor
  · intro h
    cases call_of_next h with
    | told hphase hread => exact ⟨hphase, _, _, hread, rfl, rfl⟩
  · rintro ⟨hphase, entry, u, hread, rfl, rfl⟩
    exact next_of_read hphase hread

/-- A call that tells nothing comes after the end, or finds it. -/
theorem next_eq_none (h : r.next = (.ok none, s)) :
    (r.phase.isTerminal = true ∧ s = r) ∨
      (r.source.ahead = [] ∧ r.source.ending = .endOfStream ∧ s = { r with phase := .done }) := by
  cases call_of_next h with
  | finished hphase => exact .inl ⟨hphase, rfl⟩
  | ended _ hahead hending => exact .inr ⟨hahead, hending, rfl⟩

/-- A replay that is not over yet tells nothing only at the end. -/
theorem ended_of_next_eq_none (h : r.next = (.ok none, s)) (hphase : r.phase.isTerminal = false) :
    r.source.ahead = [] ∧ r.source.ending = .endOfStream ∧ s = { r with phase := .done } := by
  refine (next_eq_none h).resolve_left fun hterminal => ?_
  rw [hphase] at hterminal
  cases hterminal.1

/-- After a call that tells nothing the replay is over, whether it was before or not. -/
theorem isTerminal_of_none (h : r.next = (.ok none, s)) : s.phase.isTerminal = true := by
  cases call_of_next h with
  | finished hphase => exact hphase
  | ended => rfl

/-- **A call that fails** finds a device that has failed, or an entry that cannot be read. -/
theorem next_eq_error {error : ReplayError} (h : r.next = (.error error, s)) :
    r.phase.isTerminal = false ∧ ∃ cause u, error = r.errorAt r.source.offset cause ∧
      s = { r with source := u, phase := .failed } ∧
        ((r.source.ahead = [] ∧ u = r.source ∧
            ∃ reason, r.source.ending = .fault reason ∧ cause = .device reason) ∨
          ∃ b bs, r.source.ahead = b :: bs ∧
            (Entry.decode r.registry r.chain (EntryKind.ofByte b)).run r.source =
              (.error cause, u)) := by
  cases call_of_next h with
  | fault hphase hahead hending =>
    exact ⟨hphase, _, _, rfl, rfl, .inl ⟨hahead, rfl, _, hending, rfl⟩⟩
  | failure hphase hahead hrun => exact ⟨hphase, _, _, rfl, rfl, .inr ⟨_, _, hahead, hrun⟩⟩

/-- A call that fails ends the replay. -/
theorem phase_of_next_error {error : ReplayError} (h : r.next = (.error error, s)) :
    s.phase = .failed := by
  cases call_of_next h <;> rfl

/-! ### Many calls -/

/-- The calls that lead from one replay to another tell these events. -/
inductive Tells : Replayer → List Event → Replayer → Prop
  | refl (r : Replayer) : Tells r [] r
  | step {r s t : Replayer} {event : Event} {events : List Event}
      (first : r.next = (.ok (some event), s)) (rest : Tells s events t) :
      Tells r (event :: events) t

/-- Calls go on where others stopped, and so do the events that they tell. -/
theorem Tells.trans {more events : List Event} (h : Tells r events s) (h' : Tells s more t) :
    Tells r (events ++ more) t := by
  induction h with
  | refl => exact h'
  | step first _ ih => exact .step first (ih h')

theorem Tells.single (h : r.next = (.ok (some event), s)) : Tells r [event] s :=
  .step h (.refl s)

/-- **One step of a whole replay.** What a call tells stands in front of what is told from there. -/
theorem events_of_event (h : r.next = (.ok (some event), s)) :
    r.events = (.ok event :: s.events.1, s.events.2) := by
  have hitem : r.item? = (some (.ok event), s) := by rw [item?, h]
  rw [events]
  split <;> simp_all

/-- A call that tells nothing is the last one, and leaves no trace among what is told. -/
theorem events_of_none (h : r.next = (.ok none, s)) : r.events = ([], s) := by
  have hitem : r.item? = (none, s) := by rw [item?, h]
  rw [events]
  split <;> simp_all

/-- A call that fails is the last one to tell anything. -/
theorem events_of_error {error : ReplayError} (h : r.next = (.error error, s)) :
    r.events = ([.error error], s) := by
  -- after an error, one more call finds the replay over
  have hterminal : s.phase.isTerminal = true := by rw [phase_of_next_error h]; rfl
  have hitem : r.item? = (some (.error error), s) := by rw [item?, h]
  rw [events]
  split
  · simp_all [events_of_none (next_of_terminal hterminal)]
  · simp_all

/-- What was told before stands in front of what is told from there. -/
theorem Tells.events_eq {told : List Event} (h : Tells r told s) :
    r.events = (told.map .ok ++ s.events.1, s.events.2) := by
  induction h with
  | refl => simp
  | step first _ ih => simp [events_of_event first, ih]

/-- **A whole replay** tells events until one call tells nothing or fails. -/
theorem exists_tells (r : Replayer) :
    ∃ told s, Tells r told s ∧
      ((∃ t, s.next = (.ok none, t)) ∨ ∃ error t, s.next = (.error error, t)) := by
  rcases h : r.next with ⟨_ | _ | event, s⟩
  · exact ⟨[], r, .refl r, .inr ⟨_, _, h⟩⟩
  · exact ⟨[], r, .refl r, .inl ⟨_, h⟩⟩
  · -- an event leaves less to tell
    have hlt : s.pending < r.pending := pending_next_lt h (by simp)
    obtain ⟨told, t, htells, hlast⟩ := exists_tells s
    exact ⟨event :: told, t, .step h htells, hlast⟩
termination_by r.pending

/-- A replay that ends without an error tells events up to a call that tells nothing. -/
theorem exists_tells_of_done (h : r.events.2.phase = .done) :
    ∃ told s, Tells r told s ∧ s.next = (.ok none, r.events.2) ∧
      r.events.1 = told.map .ok := by
  obtain ⟨told, s, htells, ⟨t, hlast⟩ | ⟨error, t, hlast⟩⟩ := exists_tells r
  · rw [htells.events_eq, events_of_none hlast]
    exact ⟨told, s, htells, hlast, List.append_nil _⟩
  · -- a failed replay is not done
    rw [htells.events_eq, events_of_error hlast] at h
    rw [phase_of_next_error hlast] at h
    cases h

/-- The events among the items of a replay. -/
def eventsOf (items : List (Except ReplayError Event)) : List Event :=
  items.filterMap Except.toOption

/-- Told events are all kept, whatever is told after them. -/
theorem eventsOf_append (told : List Event) (items : List (Except ReplayError Event)) :
    eventsOf (told.map .ok ++ items) = told ++ eventsOf items := by
  rw [eventsOf, List.filterMap_append, List.filterMap_map]
  exact congrArg (· ++ eventsOf items) List.filterMap_some

/-- The events of a whole replay, with the call that tells no more. -/
theorem exists_tells_eventsOf (r : Replayer) :
    ∃ s, Tells r (eventsOf r.events.1) s ∧ r.events.2 = s.next.2 ∧
      ((∃ t, s.next = (.ok none, t)) ∨ ∃ error t, s.next = (.error error, t)) := by
  obtain ⟨told, s, htells, hend⟩ := exists_tells r
  refine ⟨s, ?_, ?_, hend⟩
  · rw [htells.events_eq, eventsOf_append]
    obtain ⟨t, hnext⟩ | ⟨error, t, hnext⟩ := hend
    · rw [events_of_none hnext]
      exact htells.trans (.refl s)
    · rw [events_of_error hnext]
      exact htells.trans (.refl s)
  · rw [htells.events_eq]
    obtain ⟨t, hnext⟩ | ⟨error, t, hnext⟩ := hend
    · rw [events_of_none hnext, hnext]
    · rw [events_of_error hnext, hnext]

/-- The replay after `n` calls. -/
def calls : Nat → Replayer → Replayer
  | 0, r => r
  | n + 1, r => calls n r.next.2

/-- The last of some calls can be split off as well as the first. -/
theorem calls_succ (n : Nat) (r : Replayer) : calls (n + 1) r = (calls n r).next.2 := by
  -- the first call is split off by definition, so the induction is for every replay
  induction n generalizing r with
  | zero => rfl
  | succ n ih => rw [calls, ih, calls]

/-- What is told as the `i`-th event, and how. -/
theorem Tells.getElem? {told : List Event} {i : Nat} (h : Tells r told s)
    (hi : told[i]? = some event) :
    Tells r (told.take i) (calls i r) ∧ (calls i r).next = (.ok (some event), calls (i + 1) r) := by
  -- by the calls, as the index counts them down
  induction h generalizing i with
  | refl => cases hi
  | @step r m s first events hfirst _ ih =>
    cases i with
    | zero =>
      cases hi
      refine ⟨.refl r, ?_⟩
      rw [calls, calls, calls, hfirst]
    | succ i =>
      obtain ⟨hbefore, hnext⟩ := ih hi
      rw [calls, calls, hfirst]
      exact ⟨.step hfirst hbefore, hnext⟩

/-- There is one call for each event that is told. -/
theorem Tells.calls_eq {told : List Event} (h : Tells r told s) : calls told.length r = s := by
  induction h with
  | refl => rfl
  | step first _ ih => rw [List.length_cons, calls, first, ih]

/-- The calls before a replay is over tell events. -/
theorem exists_tells_calls {n : Nat} (h : (calls n r).phase.isTerminal = false) :
    ∃ told, Tells r told (calls n r) := by
  induction n with
  | zero => exact ⟨[], .refl r⟩
  | succ n ih =>
    rw [calls_succ] at h ⊢
    rcases hnext : (calls n r).next with ⟨error | _ | event, s⟩
    · rw [hnext, phase_of_next_error hnext] at h
      cases h
    · rw [hnext] at h
      obtain ⟨hterminal, rfl⟩ | ⟨-, -, rfl⟩ := next_eq_none hnext
      · rw [hterminal] at h
        cases h
      · cases h
    · obtain ⟨hphase, -⟩ := next_eq_event_iff.mp hnext
      obtain ⟨told, htells⟩ := ih hphase
      exact ⟨told ++ [event], htells.trans (.single hnext)⟩

/-! ### Replays that no limit stops -/

/-- A replay between two entries that no limit stops. -/
structure Open (r : Replayer) : Prop where
  phase : r.phase = .scanning
  limit : r.config.limit = none
  running : r.stoppedByLimit = false

theorem open_start {source : Source} {registry : Registry} {config : ReplayConfig}
    (h : config.limit = none) : (start source registry config).Open :=
  ⟨rfl, h, rfl⟩

theorem Open.isTerminal_eq (h : r.Open) : r.phase.isTerminal = false := by
  rw [h.phase]
  rfl

/-- An open replay tells every entry that can be read. -/
theorem Open.next_of_read (h : r.Open) (hread : Entry.Read r.registry r.chain r.source entry u) :
    r.next = (.ok (some (r.told entry)), r.after entry u) :=
  Replayer.next_of_read h.isTerminal_eq hread

/-- Settling decides how the replay goes on and changes nothing else. -/
theorem after_eq (r : Replayer) (entry : Entry) (u : Source) :
    ∃ phase stopped, r.after entry u =
      { ({ r with source := u }.account r.source.offset entry).2 with
        phase := phase, stoppedByLimit := stopped } := by
  rw [after, settle]
  split
  · exact ⟨.done, true, rfl⟩
  · exact ⟨.scanning, _, rfl⟩

@[simp] theorem source_after (r : Replayer) (entry : Entry) (u : Source) :
    (r.after entry u).source = u := by
  rw [after, source_settle, source_account]

@[simp] theorem registry_after (r : Replayer) (entry : Entry) (u : Source) :
    (r.after entry u).registry = r.registry := by
  obtain ⟨_, _, h⟩ := r.after_eq entry u
  rw [h]
  cases entry <;> rfl

/-- No entry changes the configuration: the rate in force is a field of its own. -/
@[simp] theorem config_after (r : Replayer) (entry : Entry) (u : Source) :
    (r.after entry u).config = r.config := by
  obtain ⟨_, _, h⟩ := r.after_eq entry u
  rw [h]
  cases entry <;> rfl

/-- Only messages continue the chain. -/
theorem chain_after (r : Replayer) (entry : Entry) (u : Source) :
    (r.after entry u).chain = match entry with
      | .message metadata _ => metadata.chain
      | _ => r.chain := by
  obtain ⟨_, _, h⟩ := r.after_eq entry u
  rw [h]
  cases entry <;> rfl

/-- Only messages count as messages. -/
theorem messages_after (r : Replayer) (entry : Entry) (u : Source) :
    (r.after entry u).messages = match entry with
      | .message _ _ => r.messages + 1
      | _ => r.messages := by
  obtain ⟨_, _, h⟩ := r.after_eq entry u
  rw [h]
  cases entry <;> rfl

/-- Only checkpoints change the rate. -/
theorem rate_after (r : Replayer) (entry : Entry) (u : Source) :
    (r.after entry u).rate = match entry with
      | .checkpoint c => r.rateAfter c
      | _ => r.rate := by
  obtain ⟨_, _, h⟩ := r.after_eq entry u
  rw [h]
  cases entry <;> rfl

/-- Each checkpoint counts as one. -/
theorem checkpoints_after (r : Replayer) (entry : Entry) (u : Source) :
    (r.after entry u).checkpoints = match entry with
      | .checkpoint _ => r.checkpoints + 1
      | _ => r.checkpoints := by
  obtain ⟨_, _, h⟩ := r.after_eq entry u
  rw [h]
  cases entry <;> rfl

/-- Each padding counts with its length. -/
theorem padBytes_after (r : Replayer) (entry : Entry) (u : Source) :
    (r.after entry u).padBytes = match entry with
      | .padding length => r.padBytes + length
      | _ => r.padBytes := by
  obtain ⟨_, _, h⟩ := r.after_eq entry u
  rw [h]
  cases entry <;> rfl

/-- The replay in front of other bytes. -/
def withSource (r : Replayer) (source : Source) : Replayer := { r with source }

/-- What an entry changes besides the source does not depend on the source. -/
theorem after_withSource (r : Replayer) (source : Source) (entry : Entry) (u v : Source) :
    (r.withSource source).after entry v = (r.after entry u).withSource v := by
  -- whether the replay settles as done depends on its messages
  cases entry <;> simp only [after, settle, apply_ite (Replayer.withSource · v)] <;> rfl

/-- **Open replays stay open**, as only a limit could settle one as done. -/
theorem Open.after (h : r.Open) (entry : Entry) (u : Source) : (r.after entry u).Open := by
  have hlimit := h.limit
  have hrunning := h.running
  -- the fields are those of the replay before, for each kind of entry
  cases entry <;> constructor <;>
    simp [Replayer.after, account, settle, limitReached, hlimit, hrunning]

/-! ### What calls keep -/

theorem registry_of_event (h : r.next = (.ok (some event), s)) : s.registry = r.registry := by
  obtain ⟨-, entry, u, -, -, rfl⟩ := next_eq_event_iff.mp h
  exact registry_after r entry u

theorem config_of_event (h : r.next = (.ok (some event), s)) : s.config = r.config := by
  obtain ⟨-, entry, u, -, -, rfl⟩ := next_eq_event_iff.mp h
  exact config_after r entry u

/-- A call that tells an event leaves an open replay open. -/
theorem Open.of_event (h : r.Open) (hnext : r.next = (.ok (some event), s)) : s.Open := by
  obtain ⟨-, entry, u, -, -, rfl⟩ := next_eq_event_iff.mp hnext
  exact h.after entry u

/-- An event takes at least a byte, and moves what it takes from what is ahead to what was read. -/
theorem offset_of_event (h : r.next = (.ok (some event), s)) :
    r.source.offset < s.source.offset ∧
      s.source.offset + s.source.ahead.length = r.source.offset + r.source.ahead.length := by
  obtain ⟨-, entry, u, hread, -, rfl⟩ := next_eq_event_iff.mp h
  obtain ⟨b, bs, hahead, hrun⟩ := hread.decode_eq_ok
  have hlt := Entry.decode_lt hahead hrun
  have hoffset := hread.reaches.offset_eq
  have hlength := congrArg List.length hread.reaches.ahead_eq
  rw [List.length_append] at hlength
  rw [source_after]
  omega

/-- What an event is read from lies ahead. -/
theorem reaches_of_event (h : r.next = (.ok (some event), s)) : r.source.Reaches s.source := by
  obtain ⟨-, entry, u, hread, -, rfl⟩ := next_eq_event_iff.mp h
  rw [source_after]
  exact hread.reaches

theorem source_of_none (h : r.next = (.ok none, s)) : s.source = r.source := by
  obtain ⟨-, rfl⟩ | ⟨-, -, rfl⟩ := next_eq_none h
  · rfl
  · rfl

theorem Tells.registry_eq {told : List Event} (h : Tells r told s) : s.registry = r.registry := by
  induction h with
  | refl => rfl
  | step first _ ih => rw [ih, registry_of_event first]

theorem Tells.config_eq {told : List Event} (h : Tells r told s) : s.config = r.config := by
  induction h with
  | refl => rfl
  | step first _ ih => rw [ih, config_of_event first]

/-- An open replay is open after each event it tells. -/
theorem Tells.open {told : List Event} (h : Tells r told s) (hopen : r.Open) : s.Open := by
  induction h with
  | refl => exact hopen
  | step first _ ih => exact ih (hopen.of_event first)

/-- What events are read from lies ahead of the first of them. -/
theorem Tells.reaches {told : List Event} (h : Tells r told s) : r.source.Reaches s.source := by
  induction h with
  | refl r => exact .refl r.source
  | step first _ ih => exact (reaches_of_event first).trans ih

theorem Tells.offset_le {told : List Event} (h : Tells r told s) :
    r.source.offset ≤ s.source.offset := by
  induction h with
  | refl => exact Nat.le_refl _
  | step first _ ih => exact Nat.le_trans (Nat.le_of_lt (offset_of_event first).1) ih

/-- No call loses bytes. -/
theorem Tells.length_eq {told : List Event} (h : Tells r told s) :
    s.source.offset + s.source.ahead.length = r.source.offset + r.source.ahead.length := by
  induction h with
  | refl => rfl
  | step first _ ih => rw [ih, (offset_of_event first).2]

end BinaryLog.Replayer
