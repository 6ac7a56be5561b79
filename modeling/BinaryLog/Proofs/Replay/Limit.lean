import BinaryLog.Proofs.Catalog.Reading
import BinaryLog.Proofs.Entry.Locality
import BinaryLog.Proofs.Replay.Accounting
import BinaryLog.Proofs.Replay.Outage

namespace BinaryLog

/-!
# Limited replays

A replay with a limit is the replay without one, cut off behind the last message that was asked for.

* `ShortestPrefix`, the first events up to a number of messages;
* `Replayer.reopen`, the replay that goes on without a limit, and `Replayer.Tells.reopen`, it tells
  what the limited replay tells;
* `Replayer.Tells.elsewhere`, what is told does not depend on bytes behind it;
* `Replayer.events_limited`, a limited replay beside the one without a limit;
* `Replayer.events_limited_of_peeking_routine`, a routine that looks ahead sees what comes behind.
-/

/-! ### Prefixes of events -/

/-- The shortest prefix of `all` that has `k` messages. -/
structure ShortestPrefix (k : Nat) (told all : List Event) : Prop where
  initial : told <+: all
  count : (messagesOf told).length = k
  shortest : ∀ other, other <+: all → k ≤ (messagesOf other).length → told.length ≤ other.length

/-- A beginning of what is told holds no more messages. -/
theorem length_messagesOf_le {told all : List Event} (h : told <+: all) :
    (messagesOf told).length ≤ (messagesOf all).length :=
  (h.filterMap Event.message?).length_le

/-- The prefix that ends with the `k`-th message. -/
theorem shortestPrefix_concat {k : Nat} {before all : List Event} {m : Message}
    (hall : before ++ [.message m] <+: all) (hbefore : (messagesOf before).length + 1 = k) :
    ShortestPrefix k (before ++ [.message m]) all where
  initial := hall
  count := by
    rw [messagesOf_concat_message, List.length_append, hbefore.symm]
    rfl
  shortest := by
    intro other hother hk
    by_contra hlt
    -- a shorter prefix has no message beyond those in front of the last one
    have hpart : other <+: before := by
      rw [List.length_append, List.length_singleton] at hlt
      have hsame := (List.prefix_append before [.message m]).trans hall
      exact List.prefix_of_prefix_length_le hother hsame (by omega)
    have hle := length_messagesOf_le hpart
    omega

namespace Replayer

variable {r s : Replayer} {event : Event} {told : List Event} {entry : Entry} {u : Source}
  {base other : Source} {limit : Nat}

/-! ### Going on without a limit -/

/-- The replay without its limit, between two entries. -/
def reopen (r : Replayer) : Replayer :=
  { r with
    config := { r.config with limit := none }
    phase := .scanning
    stoppedByLimit := false }

theorem open_reopen (r : Replayer) : r.reopen.Open := ⟨rfl, rfl, rfl⟩

/-- Reopening forgets how an entry left the replay, and nothing else about it. -/
theorem after_reopen (r : Replayer) (entry : Entry) (u : Source) :
    r.reopen.after entry u = (r.after entry u).reopen := by
  unfold after settle
  -- without a limit the replay goes on; with one, only what is reopened has changed
  split
  · rename_i hlimit
    cases entry <;> cases hlimit
  · cases entry <;> split <;> rfl

/-- What a limited replay tells, the same replay without a limit tells too. -/
theorem next_reopen (h : r.next = (.ok (some event), s)) :
    r.reopen.next = (.ok (some event), s.reopen) := by
  obtain ⟨-, entry, u, hread, rfl, rfl⟩ := next_eq_event_iff.mp h
  rw [← after_reopen, r.open_reopen.next_of_read hread]
  cases entry <;> rfl

/-- Without a limit, the same is told. -/
theorem Tells.reopen (h : Tells r told s) : Tells r.reopen told s.reopen := by
  induction h with
  | refl r => exact .refl _
  | step first _ ih => exact .step (next_reopen first) ih

/-- The replay with other settings. -/
def withConfig (r : Replayer) (config : ReplayConfig) : Replayer := { r with config }

/-- A running replay only loses its limit by being reopened. -/
theorem Running.reopen_eq (h : r.Running) :
    r.reopen = r.withConfig { r.config with limit := none } := by
  rw [reopen, ← h.phase, ← h.running]
  rfl

/-- A replay that tells no event any more ends in the same way without a limit. -/
theorem Running.events_reopen (h : r.Running) (hevent : r.event? = none) :
    r.reopen.events = (r.events.1, r.events.2.withConfig { r.config with limit := none }) := by
  have hphase := h.isTerminal_eq
  rw [h.reopen_eq]
  let other := r.withConfig { r.config with limit := none }
  rcases hnext : r.next with ⟨answer, s⟩
  cases call_of_next hnext with
  | finished hterminal =>
    rw [hphase] at hterminal
    cases hterminal
  | ended _ hahead hending =>
    rw [events_of_none hnext, events_of_none (next_at_end (r := other) hphase hahead hending)]
    rfl
  | fault _ hahead hending =>
    rw [events_of_error hnext, events_of_error (next_at_fault (r := other) hphase hahead hending)]
    rfl
  | failure _ hahead hrun =>
    rw [events_of_error hnext, events_of_error (next_of_failure (r := other) hphase hahead hrun)]
    rfl
  | told =>
    rw [event?, hnext] at hevent
    cases hevent

/-! ### In front of other bytes -/

/-- The replay in `other`, as far from its beginning as it is from that of `base`. -/
def elsewhere (r : Replayer) (base other : Source) : Replayer :=
  r.withSource (other.advance (r.source.offset - base.offset))

/-- An event in front of an offset up to which two sources agree is told in both. The end of a
    padding can only be told by the byte behind it. -/
theorem next_elsewhere (h : r.next = (.ok (some event), s)) (hreach : base.Reaches r.source)
    (hcut : other.cut limit = base.cut limit)
    (hregistry : ∀ id, (r.registry.decode id).AgreesUpTo limit base other)
    (hle : s.source.offset ≤ limit)
    (hend : (∃ m, event = .message m) ∨ (s.source.offset < limit ∧ s.source.ahead ≠ [])) :
    (r.elsewhere base other).next = (.ok (some event), s.elsewhere base other) := by
  obtain ⟨hphase, entry, u, hread, rfl, rfl⟩ := next_eq_event_iff.mp h
  rw [source_after] at hle hend
  obtain ⟨n, -, hplace⟩ := hreach
  have hdistance : r.source.offset - base.offset = n := by
    rw [hplace]
    exact Nat.add_sub_cancel_left base.offset n
  rw [hplace] at hread
  have hthere := hread.of_agreesUpTo hcut hregistry hle <| by
    rintro length rfl
    apply hend.resolve_left
    rintro ⟨m, hm⟩
    cases hm
  -- events are told from the entry and the chain, which are the same
  have htold : (r.withSource (other.advance n)).told entry = r.told entry := by
    cases entry with
    | message metadata text => rfl
    | checkpoint c => rfl
    | padding length =>
      -- the only event that tells where it is
      show Event.padding (other.offset + n) length = .padding r.source.offset length
      rw [Source.offset_eq_of_cut_eq hcut, hplace]
      rfl
  rw [elsewhere, hdistance, elsewhere, source_after, ← htold, ← after_withSource]
  exact next_of_read (r := r.withSource (other.advance n)) hphase hthere

/-- What is told in front of a byte up to which two sources agree is told in both. -/
theorem Tells.elsewhere (h : Tells r told s) (hreach : base.Reaches r.source)
    (hcut : other.cut limit = base.cut limit)
    (hregistry : ∀ id, (r.registry.decode id).AgreesUpTo limit base other)
    (hlt : s.source.offset < limit) (hahead : s.source.ahead ≠ []) :
    Tells (r.elsewhere base other) told (s.elsewhere base other) := by
  induction h with
  | refl r => exact .refl _
  | @step r m s event events first rest ih =>
    have hm : m.source.offset < limit := Nat.lt_of_le_of_lt rest.offset_le hlt
    refine .step (next_elsewhere first hreach hcut hregistry (Nat.le_of_lt hm)
      (.inr ⟨hm, rest.ahead_ne_nil hahead⟩)) ?_
    refine ih (hreach.trans (reaches_of_event first)) ?_ hlt hahead
    rw [registry_of_event first]
    exact hregistry

/-! ### Limited replays -/

/-- What is told is accounted for. -/
theorem Tells.accounts {earlier : List Event} (h : Tells r told s) (hr : Accounts earlier r) :
    Accounts (earlier ++ told) s := by
  induction h generalizing earlier with
  | refl => rwa [List.append_nil]
  | step first _ ih =>
    rw [List.append_cons]
    exact ih (hr.tell first)

/-- The limit is reached if as many messages have been told. -/
theorem Tells.limitReached_iff {k : Nat} (h : Tells r told s) (hr : Accounts [] r)
    (hlimit : r.config.limit = some k) : s.limitReached = true ↔ k ≤ (messagesOf told).length := by
  -- the limit is compared with the counter, and the counter is an account of what was told
  have hcount : s.messages = (messagesOf told).length := (h.accounts hr).messages
  rw [← hcount, limitReached, h.config_eq, hlimit]
  exact decide_eq_true_iff

/-- A replay that is still running has told fewer messages than it may. -/
theorem Tells.lt_of_running {k : Nat} (h : Tells r told s) (hr : Accounts [] r)
    (hlimit : r.config.limit = some k) (hs : s.Running) : (messagesOf told).length < k := by
  rw [← Nat.not_le, ← h.limitReached_iff hr hlimit, hs.below]
  exact Bool.false_ne_true

/-- The replay that has been stopped by the limit of other settings. -/
def stop (r : Replayer) (config : ReplayConfig) : Replayer :=
  { r with config, phase := .done, stoppedByLimit := true }

/-- What a limit stopped is the reopened replay, stopped there. -/
theorem Stopped.stop_reopen (h : s.Stopped) : s.reopen.stop s.config = s := by
  rw [stop, reopen, ← h.phase, ← h.stopped]

/-- What a replay that its limit stops tells does not depend on bytes behind the last message. -/
theorem events_elsewhere_of_stopped {n : Replayer} {before : List Event} {m : Message}
    (hbefore : Tells r before n) (hlast : n.next = (.ok (some (.message m)), s)) (hs : s.Stopped)
    (hcut : other.cut s.source.offset = r.source.cut s.source.offset)
    (hregistry : ∀ id, (r.registry.decode id).AgreesUpTo s.source.offset r.source other) :
    (r.withSource other).events =
      ((before ++ [Event.message m]).map .ok, s.elsewhere r.source other) := by
  have hother : r.elsewhere r.source other = r.withSource other := by
    rw [elsewhere, Nat.sub_self, Source.advance_zero]
  have hthere := hbefore.elsewhere (.refl r.source) hcut hregistry (offset_of_event hlast).1
    (ahead_ne_nil_of_event hlast)
  -- the message itself ends where the sources may begin to differ
  have hmessage := next_elsewhere hlast hbefore.reaches hcut (hbefore.registry_eq ▸ hregistry)
    (Nat.le_refl _) (.inl ⟨m, rfl⟩)
  have hover : (s.elsewhere r.source other).next = (.ok none, s.elsewhere r.source other) :=
    next_of_terminal hs.isTerminal_eq
  rw [hother] at hthere
  rw [(hthere.trans (.single hmessage)).events_eq, events_of_none hover, List.append_nil]

/-- A replay that tells no event any more ends with its next call. -/
theorem events_of_event?_eq_none (h : r.event? = none) :
    eventsOf r.events.1 = [] ∧ r.events.2 = r.next.2 := by
  rcases hnext : r.next with ⟨error | _ | event, s⟩
  · rw [events_of_error hnext]
    exact ⟨rfl, rfl⟩
  · rw [events_of_none hnext]
    exact ⟨rfl, rfl⟩
  · rw [event?, hnext] at h
    cases h

/-- A replay that its limit does not stop tells what it tells without one. -/
theorem events_of_running (h : Tells r told s) (hs : s.Running) (hevent : s.event? = none) :
    eventsOf r.reopen.events.1 = told ∧
      r.events = (r.reopen.events.1, r.reopen.events.2.withConfig r.config) ∧
      r.events.2.stoppedByLimit = false := by
  obtain ⟨hnone, hlast⟩ := events_of_event?_eq_none hevent
  obtain ⟨source, phase, hnext⟩ := next_of_event?_eq_none hevent
  have hthere := h.reopen.events_eq
  rw [hs.events_reopen hevent] at hthere
  have hstopped : r.events.2.stoppedByLimit = false := by
    rw [h.events_eq, hlast, hnext]
    exact hs.running
  refine ⟨?_, ?_, hstopped⟩
  · rw [hthere, eventsOf_append, hnone, List.append_nil]
  · rw [hthere, h.events_eq, hlast, hnext, ← h.config_eq]
    rfl

/-- A replay that its limit stops tells the shortest beginning of what it tells without one that has
    as many messages as were asked for. -/
theorem events_of_stopped {k : Nat} (hlimit : r.config.limit = some k) (haccounts : Accounts [] r)
    (hr : r.Running) (h : Tells r told s) (hs : s.Stopped) :
    ∃ before m n, told = before ++ [.message m] ∧ Tells r before n ∧
      n.next = (.ok (some (.message m)), s) ∧
      ShortestPrefix k told (eventsOf r.reopen.events.1) := by
  obtain ⟨before, m, n, rfl, hbefore, hn, hlast⟩ := h.eq_concat_of_stopped hr hs
  -- the limit was not reached before the last message, and is reached behind it
  have hbelow := hbefore.lt_of_running haccounts hlimit hn
  have habove := (h.limitReached_iff haccounts hlimit).mp hs.reached
  rw [messagesOf_concat_message, List.length_append, List.length_singleton] at habove
  refine ⟨before, m, n, rfl, hbefore, hlast, shortestPrefix_concat ?_ (by omega)⟩
  rw [h.reopen.events_eq, eventsOf_append]
  exact List.prefix_append _ _

/-- **A limited replay** is the replay without a limit, cut off behind the last message that was
    asked for. If the log has fewer messages, both tell the same and end in the same way. If not,
    the limited replay tells the shortest beginning of what the other one tells that has so many
    messages, and stops right behind the last of them, whatever follows. If the routines look at
    nothing but what they read, what it tells does not depend on any byte behind that point. -/
theorem events_limited (source : Source) (registry : Registry) (conversion : TimeConversion)
    (k : Nat) (hk : 0 < k) :
    let replay := start source registry { conversion }
    let limited := start source registry { limit := some k, conversion }
    let all := eventsOf replay.events.1
    ((messagesOf all).length < k →
      limited.events = (replay.events.1, replay.events.2.withConfig limited.config) ∧
        limited.events.2.stoppedByLimit = false) ∧
      (k ≤ (messagesOf all).length → ∃ before m,
        let last := replay.calls (before.length + 1)
        ShortestPrefix k (before ++ [.message m]) all ∧
        (replay.calls before.length).next = (.ok (some (.message m)), last) ∧
        limited.events = ((before ++ [Event.message m]).map .ok, last.stop limited.config) ∧
        (registry.Determined →
          ∀ other : Source, other.cut last.source.offset = source.cut last.source.offset →
            (start other registry limited.config).events =
              (limited.events.1, limited.events.2.elsewhere source other))) := by
  intro replay limited all
  have hrunning : limited.Running := by
    apply running_start_of_limit
    intro hzero
    exact Nat.ne_of_gt hk (Option.some.inj hzero)
  have haccounts : Accounts [] limited := accounts_start source registry _
  have hreopen : limited.reopen = replay := rfl
  obtain ⟨told, s, htells, hend⟩ := exists_tells limited
  obtain hs | hs := htells.running hrunning
  · -- the last call tells no event, with or without a limit
    have hevent : s.event? = none := by
      obtain ⟨t, hnext⟩ | ⟨error, t, hnext⟩ := hend <;> rw [event?, hnext]
    obtain ⟨hall, hevents, hstopped⟩ := events_of_running htells hs hevent
    have hfewer := htells.lt_of_running haccounts rfl hs
    rw [hreopen] at hall hevents
    refine ⟨fun _ => ⟨hevents, hstopped⟩, fun hmany => ?_⟩
    rw [show all = told from hall] at hmany
    exact absurd hfewer (Nat.not_lt.mpr hmany)
  · obtain ⟨before, m, n, rfl, hbefore, hlast, hshortest⟩ :=
      events_of_stopped rfl haccounts hrunning htells hs
    have hover : s.next = (.ok none, s) := next_of_terminal hs.isTerminal_eq
    have hevents : limited.events = ((before ++ [Event.message m]).map .ok, s) := by
      rw [htells.events_eq, events_of_none hover, List.append_nil]
    -- the replay without a limit goes the same way up to here
    have hn : replay.calls before.length = n.reopen := hbefore.reopen.calls_eq
    have hnext := next_reopen hlast
    have hlast' : replay.calls (before.length + 1) = s.reopen := by rw [calls_succ, hn, hnext]
    refine ⟨fun hfew => ?_, fun _ => ⟨before, m, ?_⟩⟩
    · have hle := length_messagesOf_le hshortest.initial
      rw [hshortest.count] at hle
      exact absurd hfew (Nat.not_lt.mpr hle)
    rw [hlast', hn]
    refine ⟨hshortest, hnext, ?_, fun hdetermined other hcut => ?_⟩
    · rw [hevents, ← htells.config_eq, hs.stop_reopen]
    · rw [hevents]
      exact events_elsewhere_of_stopped hbefore hlast hs hcut fun id =>
        (hdetermined.decode id).agreesUpTo hcut

/-- A padding and a message in front of a byte that starts nothing, and the same in front of a
    checkpoint in which the device fails. -/
theorem events_limited_before_corruption :
    let catalog : Catalog := ({} : Catalog).insert ⟨7⟩
      ({ id := ⟨7⟩, format := "%d%s" },
        { source := "%d%s"
          pieces := [.directive { conversion := .decimal }, .directive { conversion := .text }] })
    let registry := catalog.registry false
    let bytes : Bytes := [0, 0, 0x15, 7, 100, 1, 5, 0x68, 0x69, 0]
    let source := Source.ofBytes (bytes ++ [0xff])
    let other := Source.failingAfter (bytes ++ [2, 9]) 11 "device gone"
    let replay := start source registry {}
    let limited := start source registry { limit := some 1 }
    0 < 1 ∧ replay.events.2.phase = .failed ∧
      1 ≤ (messagesOf (eventsOf replay.events.1)).length ∧
      ∃ before m, limited.events.1 = (before ++ [Event.message m]).map .ok ∧
        limited.events.2.summary = ⟨1, 0, 2, 10, true⟩ ∧
        ShortestPrefix 1 (before ++ [.message m]) (eventsOf replay.events.1) ∧
        (start other registry limited.config).events.1 = limited.events.1 := by
  intro catalog registry bytes source other replay limited
  have hmany : 1 ≤ (messagesOf (eventsOf replay.events.1)).length := by decide +kernel
  have hsummary : limited.events.2.summary = ⟨1, 0, 2, 10, true⟩ := by decide +kernel
  obtain ⟨before, m, hshortest, -, hevents, helsewhere⟩ :=
    (events_limited source registry (.fixed defaultRate) 1 (by decide)).2 hmany
  have hplace : (replay.calls (before.length + 1)).source.offset = 10 := by
    have hconsumed : limited.events.2.summary.bytesConsumed = 10 := by rw [hsummary]
    rwa [hevents] at hconsumed
  have hcut : other.cut 10 = source.cut 10 := by decide +kernel
  have hother := helsewhere (catalog.determined_registry false) other (hplace ▸ hcut)
  exact ⟨by decide, by decide +kernel, hmany, before, m, congrArg Prod.fst hevents, hsummary,
    hshortest, (congrArg Prod.fst hother :)⟩

/-- Reads nothing and says which byte comes next. -/
def peekingRoutine : Routine := fun _ => do
  match ← Decoder.peek with
  | some b => return s!"next {b.toNat}"
  | none => return "end"

/-- **A routine that looks ahead** sees the byte behind its message. Two logs that are the same up
    to the only message that is asked for are replayed up to its end, and told differently. -/
theorem events_limited_of_peeking_routine :
    let registry : Registry := ({} : FormatTable Routine).insert ⟨1⟩ peekingRoutine
    let source := Source.ofBytes [0x05, 1, 0]
    let other := Source.ofBytes [0x05, 1, 1]
    let limited := start source registry { limit := some 1 }
    let elsewhere := start other registry { limit := some 1 }
    other.cut 2 = source.cut 2 ∧
      limited.events.2.summary = ⟨1, 0, 0, 2, true⟩ ∧
      elsewhere.events.2.summary = ⟨1, 0, 0, 2, true⟩ ∧
      (messagesOf (eventsOf limited.events.1)).map Message.text = ["next 0"] ∧
      (messagesOf (eventsOf elsewhere.events.1)).map Message.text = ["next 1"] ∧
      limited.events.1 ≠ elsewhere.events.1 := by
  decide +kernel

end Replayer

end BinaryLog
