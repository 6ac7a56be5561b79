import BinaryLog.Proofs.Catalog.Reading
import BinaryLog.Proofs.Replay.Relocation

namespace BinaryLog.Replayer

/-!
# Logs on a device that fails

A replay whose device fails behind some bytes is compared with the replay of a log that ends with
these bytes. The failure is never taken for the end of the log.

* `Conclusive`, the outcomes that do not hang on what follows the last byte;
* `Loss` and `Noticed`, what becomes of any other outcome;
* `next_outage`, an entry that does not reach the failure is told as it was, and `Tells.outage`, so
  are all before it;
* `events_failingAfter`, what is told of a log whose device fails.
-/

variable {r s t : Replayer} {event : Event} {told : List Event} {cause : String}

/-! ### Outcomes -/

/-- An outcome of a replay that does not hang on what follows the last byte: the limit was reached,
    or something else than an early end of the stream went wrong. -/
def Conclusive (outcome : List (Except ReplayError Event) × Replayer) : Prop :=
  outcome.2.stoppedByLimit = true ∨
    ∃ error, .error error ∈ outcome.1 ∧ error.cause.isTruncation = false

/-- What is told last, and in which phase, of a log that ends at `limit`, but not if the device
    fails there, with the offset of the entry that the failure is noticed in. Before it, `told` is
    told. -/
inductive Loss (told : List Event) (limit : Nat) :
    List (Except ReplayError Event) → Phase → Nat → Prop
  /-- The log ends behind a message or a checkpoint, or has no byte at all. -/
  | nothing (last : ∀ offset length, told.getLast? ≠ some (.padding offset length)) :
      Loss told limit [] .done limit
  /-- A padding at the end of the log could be longer. -/
  | padding {offset length : Nat} (atEnd : offset + length = limit) :
      Loss told limit [.ok (.padding offset length)] .done offset
  /-- An entry that is not all there is no truncation. -/
  | truncation {error : ReplayError} (kind : error.cause.isTruncation = true) :
      Loss told limit [.error error] .failed error.entryOffset

/-- A failure of the device at `limit` is noticed: `failed` is what is told with it, and `ended` is
    what would be told of a log that ends there. -/
def Noticed (cause : String) (limit : Nat)
    (ended failed : List (Except ReplayError Event) × Replayer) : Prop :=
  ∃ told lost offset, ended.1 = told.map .ok ++ lost ∧ Loss told limit lost ended.2.phase offset ∧
    failed.1 = told.map .ok ++ [.error (ended.2.errorAt offset (.device cause))] ∧
    failed.2.phase = .failed ∧ failed.2.chain = ended.2.chain ∧
    failed.2.messages = ended.2.messages

/-! ### Before the failure -/

/-- **An entry that does not reach the failure** is told as it was. -/
theorem next_outage (h : r.next = (.ok (some event), s)) (hregistry : r.registry.Plain)
    (hend : (∀ offset length, event ≠ .padding offset length) ∨ s.source.ahead ≠ []) :
    (r.move (.outage cause)).next = (.ok (some event), s.move (.outage cause)) := by
  obtain ⟨hphase, entry, u, hread, rfl, rfl⟩ := next_eq_event_iff.mp h
  rw [source_after] at hend
  rw [next_move hphase hread hregistry]
  · cases entry <;> rfl
  · rintro length rfl hnil
    obtain hpadding | hahead := hend
    · exact absurd rfl (hpadding _ _)
    · exact absurd hnil hahead

theorem ahead_ne_nil_of_event (h : r.next = (.ok (some event), s)) : r.source.ahead ≠ [] := by
  obtain ⟨-, entry, u, hread, -, -⟩ := next_eq_event_iff.mp h
  obtain ⟨b, bs, hahead, -⟩ := hread.decode_eq_ok
  rw [hahead]
  exact List.cons_ne_nil b bs

/-- If bytes are left after some events, then there were bytes before them. -/
theorem Tells.ahead_ne_nil (h : Tells r told s) (hahead : s.source.ahead ≠ []) :
    r.source.ahead ≠ [] := by
  have hle := h.offset_le
  have hlength := h.length_eq
  have hpos := List.length_pos_iff.mpr hahead
  apply List.length_pos_iff.mp
  omega

/-- What is told before a byte that is still ahead. -/
theorem Tells.outage (h : Tells r told s) (hregistry : r.registry.Plain)
    (hahead : s.source.ahead ≠ []) :
    Tells (r.move (.outage cause)) told (s.move (.outage cause)) := by
  induction h with
  | refl r => exact .refl _
  | step first rest ih =>
    refine .step (next_outage first hregistry (.inr (rest.ahead_ne_nil hahead))) (ih ?_ hahead)
    rw [registry_of_event first]
    exact hregistry

/-! ### At the failure -/

/-- A padding that reaches the failure is not told. -/
theorem next_outage_of_padding {offset length : Nat}
    (h : r.next = (.ok (some (.padding offset length)), s)) (hahead : s.source.ahead = [])
    (hending : r.source.ending = .endOfStream) :
    (∃ u, (r.move (.outage cause)).next = (.error (r.errorAt offset (.device cause)),
      { r with source := u, phase := .failed })) ∧
      s.source.offset = offset + length ∧ s.chain = r.chain ∧ s.messages = r.messages := by
  obtain ⟨hphase, entry, u, hread, htold, rfl⟩ := next_eq_event_iff.mp h
  cases hread with
  | message => cases htold
  | checkpoint => cases htold
  | @padding _ rest hpos hzeros hlast _ =>
    cases htold
    rw [source_after] at hahead ⊢
    rw [chain_after, messages_after]
    refine ⟨?_, rfl, rfl, rfl⟩
    -- nothing follows the zeros, the first of which announces them
    have hrest : rest = [] := by
      have hdrop : (r.source.advance length).ahead = rest := Source.ahead_advance_zeros hzeros
      rw [← hdrop, hahead]
    rw [hrest, List.append_nil] at hzeros
    obtain ⟨n, rfl⟩ := Nat.exists_eq_succ_of_ne_zero (Nat.ne_of_gt hpos)
    have hrun : Decoder.zeros.run ((Relocation.outage cause).move r.source) = _ :=
      Decoder.run_zeros_of_fault hzeros (congrArg (Ending.orFault cause) hending)
    exact ⟨_, next_of_failure (r := r.move (.outage cause)) hphase hzeros
      (Decoder.run_map_error hrun Entry.padding)⟩

/-- A call that fails is noticed to be short of bytes, or fails as it did. -/
theorem next_outage_of_error {error : ReplayError} (h : r.next = (.error error, s))
    (hregistry : r.registry.Plain) (hending : r.source.ending = .endOfStream) :
    (r.move (.outage cause)).next =
      (.error { error with cause := (Relocation.outage cause).report error.cause },
        s.move (.outage cause)) := by
  rw [next_move_of_error h hregistry hending]
  obtain ⟨-, cause, u, rfl, -, -⟩ := next_eq_error h
  rfl

/-! ### Whole replays -/

/-- A replay that its limit stops does not see the failure. -/
theorem events_outage_of_stopped (h : Tells r told s) (hrunning : r.Running)
    (hregistry : r.registry.Plain) (hs : s.Stopped) :
    r.events = (told.map .ok, s) ∧
      (r.move (.outage cause)).events = (told.map .ok, s.move (.outage cause)) := by
  have hend : s.next = (.ok none, s) := next_of_terminal hs.isTerminal_eq
  have hend' : (s.move (.outage cause)).next = (.ok none, s.move (.outage cause)) :=
    next_of_terminal hs.isTerminal_eq
  have htells : Tells (r.move (.outage cause)) told (s.move (.outage cause)) := by
    obtain ⟨before, m, n, rfl, hbefore, -, hlast⟩ := h.eq_concat_of_stopped hrunning hs
    -- the last message does not reach the failure
    have hplain : n.registry.Plain := hbefore.registry_eq ▸ hregistry
    refine (hbefore.outage hregistry (ahead_ne_nil_of_event hlast)).trans (.single ?_)
    exact next_outage hlast hplain (.inl fun _ _ h => by cases h)
  rw [h.events_eq, events_of_none hend, htells.events_eq, events_of_none hend']
  exact ⟨by rw [List.append_nil], by rw [List.append_nil]⟩

/-- A replay that fails in front of the last byte fails there too. -/
theorem events_outage_of_error {error : ReplayError} (h : Tells r told s)
    (hregistry : r.registry.Plain) (hending : r.source.ending = .endOfStream)
    (herror : s.next = (.error error, t)) :
    r.events = (told.map .ok ++ [.error error], t) ∧
      (r.move (.outage cause)).events =
        (told.map .ok ++
            [.error { error with cause := (Relocation.outage cause).report error.cause }],
          t.move (.outage cause)) := by
  -- bytes are left where the error occurs, so no event before it reached the end
  have hending' : s.source.ending = .endOfStream := h.ending_eq.trans hending
  obtain ⟨-, b, bs, -, -, hahead, -⟩ := next_eq_error_of_ended herror hending'
  have htells : Tells (r.move (.outage cause)) told (s.move (.outage cause)) :=
    h.outage hregistry (by rw [hahead]; exact List.cons_ne_nil b bs)
  have herror' : (s.move (.outage cause)).next = _ :=
    next_outage_of_error herror (h.registry_eq ▸ hregistry) hending'
  rw [h.events_eq, events_of_error herror, htells.events_eq, events_of_error herror']
  exact ⟨rfl, rfl⟩

/-- A replay that has told everything finds the failure where it would find the end. -/
theorem noticed_of_tells (h : Tells r told s)
    (htells : Tells (r.move (.outage cause)) told (s.move (.outage cause)))
    (hs : s.phase.isTerminal = false) (hahead : s.source.ahead = [])
    (hending : s.source.ending = .endOfStream)
    (hlast : ∀ offset length, told.getLast? ≠ some (.padding offset length)) :
    Noticed cause s.source.offset r.events (r.move (.outage cause)).events := by
  have hfault : (s.move (.outage cause)).next = _ :=
    next_at_fault hs hahead (congrArg (Ending.orFault cause) hending)
  rw [h.events_eq, events_of_none (next_at_end hs hahead hending), htells.events_eq,
    events_of_error hfault]
  exact ⟨told, [], _, rfl, .nothing hlast, rfl, rfl, rfl, rfl⟩

/-- A replay that finds the end of the stream notices the failure instead. -/
theorem noticed_of_end (h : Tells r told s) (hregistry : r.registry.Plain)
    (hs : s.phase.isTerminal = false) (hahead : s.source.ahead = [])
    (hending : s.source.ending = .endOfStream) :
    Noticed cause s.source.offset r.events (r.move (.outage cause)).events := by
  obtain ⟨rfl, rfl⟩ | ⟨before, last, n, rfl, hbefore, hlast⟩ := h.eq_nil_or_concat
  · exact noticed_of_tells h (.refl _) hs hahead hending (by simp)
  have hbefore' : Tells (r.move (.outage cause)) before (n.move (.outage cause)) :=
    hbefore.outage hregistry (ahead_ne_nil_of_event hlast)
  by_cases hpadding : ∃ offset length, last = .padding offset length
  · -- the last event is a padding that ends with the stream
    obtain ⟨offset, length, rfl⟩ := hpadding
    have hending' : n.source.ending = .endOfStream :=
      (Tells.single hlast).ending_eq.symm.trans hending
    obtain ⟨⟨u, hfault⟩, hlimit, hchain, hmessages⟩ :=
      next_outage_of_padding hlast hahead hending'
    rw [h.events_eq, events_of_none (next_at_end hs hahead hending), hbefore'.events_eq,
      events_of_error hfault]
    refine ⟨before, [.ok (.padding offset length)], offset, by simp, .padding hlimit.symm, ?_, rfl,
      hchain.symm, hmessages.symm⟩
    rw [errorAt, errorAt, hchain, hmessages]
  · -- any other event is told, and the failure is found behind it
    have hkind : ∀ offset length, last ≠ .padding offset length :=
      fun offset length h => hpadding ⟨offset, length, h⟩
    have hnext : (n.move (.outage cause)).next = _ :=
      next_outage hlast (hbefore.registry_eq ▸ hregistry) (.inl hkind)
    refine noticed_of_tells h (hbefore'.trans (.single hnext)) hs hahead hending ?_
    intro offset length hpad
    rw [List.getLast?_concat] at hpad
    exact hkind offset length (Option.some.inj hpad)

/-- Events alone do not conclude a replay: the device is asked for more. -/
theorem not_conclusive_of_told (hstopped : s.stoppedByLimit = false) :
    ¬ Conclusive (told.map .ok, s) := by
  rintro (h | ⟨error, herror, -⟩)
  · rw [hstopped] at h
    cases h
  · simp at herror

/-- Neither does a truncation, which more bytes might have cured. -/
theorem not_conclusive_of_truncation {error : ReplayError} (hstopped : s.stoppedByLimit = false)
    (hkind : error.cause.isTruncation = true) :
    ¬ Conclusive (told.map .ok ++ [.error error], s) := by
  rintro (h | ⟨other, hother, hkind'⟩)
  · rw [hstopped] at h
    cases h
  · have heq : other = error := by simpa using hother
    rw [heq, hkind] at hkind'
    cases hkind'

/-- A replay does not see the failure, or notices it. -/
theorem conclusive_or_noticed (hrunning : r.Running) (hregistry : r.registry.Plain)
    (hending : r.source.ending = .endOfStream) (cause : String) :
    let failed := (r.move (.outage cause)).events
    (Conclusive r.events ∧ failed = (r.events.1, r.events.2.move (.outage cause))) ∨
      (¬ Conclusive r.events ∧
        Noticed cause (r.source.offset + r.source.ahead.length) r.events failed) := by
  intro failed
  obtain ⟨told, s, htells, ⟨t, hend⟩ | ⟨error, t, herror⟩⟩ := exists_tells r
  · obtain hs | hs := htells.running hrunning
    · -- the last call finds the end of the stream
      obtain ⟨hahead, hending', rfl⟩ := ended_of_next_eq_none hend hs.isTerminal_eq
      have hlimit : r.source.offset + r.source.ahead.length = s.source.offset := by
        rw [← htells.length_eq, hahead, List.length_nil, Nat.add_zero]
      have hevents : r.events = (told.map .ok, { s with phase := .done }) := by
        rw [htells.events_eq, events_of_none hend, List.append_nil]
      refine .inr ⟨?_, ?_⟩
      · rw [hevents]
        exact not_conclusive_of_told hs.running
      · rw [hlimit]
        exact noticed_of_end htells hregistry hs.isTerminal_eq hahead hending'
    · obtain ⟨hevents, hfailed⟩ := events_outage_of_stopped htells hrunning hregistry hs
      rw [show failed = _ from hfailed, hevents]
      exact .inl ⟨.inl hs.stopped, rfl⟩
  · obtain ⟨hevents, hfailed⟩ := events_outage_of_error htells hregistry hending herror
    rw [show failed = _ from hfailed, hevents]
    obtain ⟨hphase, reason, u, rfl, rfl, -⟩ := next_eq_error herror
    have hs := htells.running_of_not_terminal hrunning hphase
    -- only a truncation is reported differently where the device fails
    cases hkind : (s.errorAt s.source.offset reason).cause.isTruncation with
    | false =>
      rw [Relocation.report_outage_of_not_truncation hkind]
      exact .inl ⟨.inr ⟨s.errorAt s.source.offset reason, by simp, hkind⟩, rfl⟩
    | true =>
      rw [Relocation.report_outage_of_truncation hkind]
      refine .inr ⟨not_conclusive_of_truncation hs.running hkind, ?_⟩
      exact ⟨told, _, s.source.offset, rfl, .truncation hkind, rfl, rfl, rfl, rfl⟩

/-- **A device that fails** is never taken for the end of the log. Where the outcome of a replay
    does not hang on what follows the last byte, a failure there changes nothing. Anywhere else it
    is told as a failure of the device, after everything but a padding that it may have cut
    short. -/
theorem events_failingAfter (catalog : Catalog) (showOrigin : Bool) (config : ReplayConfig)
    (hconfig : config.check = .ok ()) (bytes : Bytes) (limit : Nat) (hlimit : limit ≤ bytes.length)
    (cause : String) :
    let registry := catalog.registry showOrigin
    let ended := (start (.ofBytes (bytes.take limit)) registry config).events
    let failed := (start (.failingAfter bytes limit cause) registry config).events
    (Conclusive ended → failed = (ended.1, ended.2.move (.outage cause))) ∧
      (¬ Conclusive ended → Noticed cause limit ended failed) := by
  intro registry ended failed
  let replay := start (.ofBytes (bytes.take limit)) registry config
  -- the replay that fails is the other one with its source on a device that fails
  have hfailed : failed = (replay.move (.outage cause)).events := by
    show (start (.failingAfter bytes limit cause) registry config).events = _
    rw [Source.failingAfter, if_pos hlimit]
    rfl
  have hlength : replay.source.offset + replay.source.ahead.length = limit :=
    (Nat.zero_add _).trans (List.length_take_of_le hlimit)
  have hrunning : replay.Running := running_start hconfig
  have hregistry : replay.registry.Plain := catalog.plain_decode showOrigin
  have hcases := conclusive_or_noticed hrunning hregistry rfl cause
  rw [hlength, ← hfailed] at hcases
  obtain ⟨hconclusive, hsame⟩ | ⟨hopen, hnoticed⟩ := hcases
  · exact ⟨fun _ => hsame, fun hopen => absurd hconclusive hopen⟩
  · exact ⟨fun hconclusive => absurd hconclusive hopen, fun _ => hnoticed⟩

/-- A message with a number and a text, and a padding in which the device fails. -/
theorem events_failingAfter_in_padding :
    let catalog : Catalog := ({} : Catalog).insert ⟨7⟩
      ({ id := ⟨7⟩, format := "%d%s" },
        { source := "%d%s"
          pieces := [.directive { conversion := .decimal }, .directive { conversion := .text }] })
    let config : ReplayConfig := { limit := some 2, conversion := .checkpoints defaultRate }
    let bytes : Bytes := [0x15, 7, 100, 1, 5, 0x68, 0x69, 0, 0, 0, 0, 0x11]
    let ended := (start (.ofBytes (bytes.take 10)) (catalog.registry false) config).events
    let failed :=
      (start (.failingAfter bytes 10 "device gone") (catalog.registry false) config).events
    config.check = .ok () ∧ 10 ≤ bytes.length ∧ ¬ Conclusive ended ∧
      Noticed "device gone" 10 ended failed := by
  intro catalog config bytes ended failed
  have hconfig : config.check = .ok () := by decide +kernel
  have hlimit : 10 ≤ bytes.length := by decide
  have hevents : ended.1 =
      [.ok (.message ⟨0, ⟨7⟩, 100, 100, elapsedNanos 100 defaultRate, "5hi"⟩),
        .ok (.padding 8 2)] := by decide +kernel
  have hopen : ¬ Conclusive ended := by
    rintro (hstopped | ⟨error, herror, -⟩)
    · have hrunning : ended.2.stoppedByLimit = false := by decide +kernel
      rw [hrunning] at hstopped
      cases hstopped
    · rw [hevents] at herror
      simp at herror
  exact ⟨hconfig, hlimit, hopen,
    (events_failingAfter catalog false config hconfig bytes 10 hlimit "device gone").2 hopen⟩

end BinaryLog.Replayer
