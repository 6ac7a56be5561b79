import BinaryLog.Proofs.Catalog.Reading
import BinaryLog.Proofs.Replay.Accounting
import BinaryLog.Proofs.Replay.Truncation

namespace BinaryLog

/-!
# Events tile the log

Every event stands for bytes of its own, which begin where those of the event before end. So there
are no more events than bytes, and whatever was read is part of a message, a checkpoint or a
padding.

* `Occupies`, the bytes that an event stands for, with one rule for each kind of event;
* `Replayer.occupies_of_event`, a call that tells an event reads these bytes;
* `Replayer.messageBytes`, the bytes of the messages that a number of calls tell, and
  `Replayer.Tells.offset_eq`, what was read adds up to them, the checkpoints and the padding;
* `Replayer.events_tile`, the events of a whole replay.
-/

/-! ### Bytes of an event -/

/-- The event stands for the bytes ahead in the first source, up to the second. -/
inductive Occupies (catalog : Catalog) (chain : Chain) (s : Source) : Event → Source → Prop
  /-- A message is as long as its header says, and what the template of its format reads besides. -/
  | message {m : Message} {metadata : Metadata} {entry : CatalogEntry} {template : Template}
      {args : List Argument} {t : Source}
      (header : (Metadata.decode chain).run s = (.ok metadata, s.advance metadata.headerLength))
      (continued : metadata.chain = { formatId := m.formatId, timestamp := m.timestamp })
      (known : catalog.get? m.formatId = some (entry, template))
      (payload : (template.unpack m.formatId).run (s.advance metadata.headerLength) =
        (.ok args, t)) :
      Occupies catalog chain s (.message m) t
  | checkpoint {c : Checkpoint} (whole : 25 ≤ s.ahead.length) :
      Occupies catalog chain s (.checkpoint c) (s.advance 25)
  /-- A padding has all zeros up to another byte or the end of the bytes, and tells where it
      begins. -/
  | padding {length : Nat} {rest : Bytes} (nonempty : 0 < length)
      (zeros : s.ahead = List.replicate length 0 ++ rest) (last : rest.head? ≠ some 0) :
      Occupies catalog chain s (.padding s.offset length) (s.advance length)

namespace Occupies

variable {catalog : Catalog} {chain chain' : Chain} {s t u : Source}
  {offset offset' length length' : Nat}

theorem offset_eq_of_checkpoint {c : Checkpoint} (h : Occupies catalog chain s (.checkpoint c) t) :
    t.offset = s.offset + 25 := by
  cases h
  rfl

theorem offset_eq_of_padding (h : Occupies catalog chain s (.padding offset length) t) :
    t.offset = s.offset + length := by
  cases h
  rfl

/-- No zero follows a padding, so no other padding does. -/
theorem not_adjacent (h : Occupies catalog chain s (.padding offset length) t) :
    ¬ Occupies catalog chain' t (.padding offset' length') u := by
  intro h'
  cases h with
  | @padding _ rest _ hzeros hlast =>
    have hrest : (s.advance length).ahead = rest := Source.ahead_advance_zeros hzeros
    cases h' with
    | padding hpos hzeros' _ =>
      obtain ⟨n, rfl⟩ := Nat.exists_eq_succ_of_ne_zero (Nat.ne_of_gt hpos)
      rw [hrest] at hzeros'
      apply hlast
      rw [hzeros', List.replicate_succ, List.cons_append, List.head?_cons]

end Occupies

/-! ### Calls -/

namespace Replayer

variable {r s : Replayer} {event : Event} {told : List Event} {catalog : Catalog}
  {showOrigin : Bool}

/-- A routine of a catalog reads what its template reads. -/
theorem unpack_of_run_routine {template : Template} {origin : String} {id : FormatId} {u v : Source}
    {text : String} (h : (template.routine origin id).run u = (.ok text, v)) :
    ∃ args, (template.unpack id).run u = (.ok args, v) := by
  obtain ⟨args, w, hargs, hwrite⟩ := Decoder.run_bind_eq_ok h
  refine ⟨args, ?_⟩
  cases htext : template.write args with
  | ok text =>
    rw [htext] at hwrite
    cases hwrite
    exact hargs
  | error error =>
    rw [htext] at hwrite
    cases hwrite

/-- **A call that tells an event** reads the bytes that the event stands for. -/
theorem occupies_of_event (h : r.next = (.ok (some event), s))
    (hregistry : r.registry = catalog.registry showOrigin) :
    Occupies catalog r.chain r.source event s.source := by
  obtain ⟨-, entry, u, hread, rfl, rfl⟩ := next_eq_event_iff.mp h
  rw [source_after]
  cases hread with
  | @message metadata text v _ hheader hpayload =>
    -- the payload begins behind the header, which tells its own length
    have hplace : v = r.source.advance metadata.headerLength := by
      rw [Metadata.headerLength_of_run_decode hheader]
      exact (Decoder.reaches_of_run hheader).eq_advance
    rw [hregistry] at hpayload
    obtain ⟨routine, hroutine, hrun⟩ := Registry.run_decode_eq_ok_iff.mp hpayload
    rw [Catalog.get?_registry] at hroutine
    obtain ⟨⟨entry, template⟩, hknown, rfl⟩ := Option.map_eq_some_iff.mp hroutine
    obtain ⟨args, hargs⟩ := unpack_of_run_routine hrun
    subst hplace
    exact .message hheader rfl hknown hargs
  | @checkpoint c _ hbody =>
    obtain ⟨-, hlength⟩ := Checkpoint.of_run_decode_eq_ok hbody
    have hreach := Decoder.reaches_of_run hbody
    rw [hreach.eq_advance, hlength]
    refine .checkpoint ?_
    rw [hreach.ahead_eq, List.length_append, hlength]
    exact Nat.le_add_right 25 _
  | padding hpos hahead hlast hending => exact .padding hpos hahead hlast

/-- A replay that is over after an event has been stopped by its limit. -/
theorem stopped_of_event (h : r.next = (.ok (some event), s))
    (hs : s.phase.isTerminal = true) : s.stoppedByLimit = true := by
  obtain ⟨-, entry, u, -, -, rfl⟩ := next_eq_event_iff.mp h
  unfold after settle at hs ⊢
  split
  · rfl
  · rename_i hlimit
    rw [if_neg hlimit] at hs
    cases hs

/-- The bytes that the next call reads for a message. -/
def nextMessageBytes (r : Replayer) : Nat :=
  match r.event? with
  | some (.message _) => r.next.2.source.offset - r.source.offset
  | _ => 0

/-- The bytes of the messages that the first `n` calls tell. -/
def messageBytes (n : Nat) (r : Replayer) : Nat :=
  ((List.range n).map fun i => (calls i r).nextMessageBytes).sum

/-- The bytes of messages add up call by call. -/
theorem messageBytes_succ (n : Nat) (r : Replayer) :
    messageBytes (n + 1) r = r.nextMessageBytes + messageBytes n r.next.2 := by
  rw [messageBytes, List.range_succ_eq_map, List.map_cons, List.sum_cons, List.map_map]
  rfl

/-- What a call reads is a message, a checkpoint or a padding. -/
theorem offset_eq_of_event (h : r.next = (.ok (some event), s))
    (hregistry : r.registry = catalog.registry showOrigin) :
    s.source.offset + r.padBytes + 25 * r.checkpoints =
      r.source.offset + s.padBytes + 25 * s.checkpoints + r.nextMessageBytes := by
  have hoccupies := occupies_of_event h hregistry
  have hlt := (offset_of_event h).1
  have hevent : r.event? = some event := by rw [event?, h]
  obtain ⟨hpad, hcheckpoints⟩ := counts_of_event h
  rw [hpad, hcheckpoints, nextMessageBytes, hevent, h]
  -- each kind of event is counted in one of the three sums, and adds nothing to the others
  cases event with
  | message m =>
    show _ = _ + (_ + 0) + 25 * (_ + 0) + (s.source.offset - r.source.offset)
    omega
  | checkpoint c =>
    have hoffset := hoccupies.offset_eq_of_checkpoint
    show _ = _ + (_ + 0) + 25 * (_ + 1) + 0
    omega
  | padding offset length =>
    have hoffset := hoccupies.offset_eq_of_padding
    show _ = _ + (_ + length) + 25 * (_ + 0) + 0
    omega

/-- **What was read adds up** to messages, checkpoints and padding. -/
theorem Tells.offset_eq (h : Tells r told s)
    (hregistry : r.registry = catalog.registry showOrigin) :
    s.source.offset + r.padBytes + 25 * r.checkpoints =
      r.source.offset + s.padBytes + 25 * s.checkpoints + r.messageBytes told.length := by
  induction h with
  | refl r => rfl
  | @step r m s event events first rest ih =>
    -- the totals are compared with those that the replay began with, so that the steps add up
    have hfirst := offset_eq_of_event first hregistry
    have hrest := ih ((registry_of_event first).trans hregistry)
    rw [List.length_cons, messageBytes_succ, first]
    show _ = _ + (_ + m.messageBytes events.length)
    omega

/-- There are no more events than bytes. -/
theorem Tells.length_le (h : Tells r told s) : r.source.offset + told.length ≤ s.source.offset := by
  induction h with
  | refl => exact Nat.le_refl _
  | step first _ ih =>
    have hlt := (offset_of_event first).1
    rw [List.length_cons]
    omega

/-- The bytes that the first events stand for are those that were read. -/
theorem Tells.source_eq (h : Tells r told s) :
    s.source = r.source.advance (s.source.offset - r.source.offset) := by
  have hoffset := h.reaches.offset_eq
  rw [show s.source.offset - r.source.offset = (r.source.readTo s.source).length by omega]
  exact h.reaches.eq_advance

/-- A call that tells nothing leaves the totals as they are. -/
theorem summary_of_none (h : r.next = (.ok none, s)) : s.summary = r.summary := by
  obtain ⟨-, rfl⟩ | ⟨-, -, rfl⟩ := next_eq_none h
  · rfl
  · rfl

/-- A replay that ends without an error and without its limit has read all bytes. -/
theorem Tells.ahead_eq_nil {t : Replayer} (h : Tells r told s) (hr : r.phase.isTerminal = false)
    (hnext : s.next = (.ok none, t)) (hstopped : s.stoppedByLimit = false) :
    s.source.ahead = [] := by
  obtain ⟨hterminal, rfl⟩ | ⟨hahead, -, -⟩ := next_eq_none hnext
  · -- only the limit ends a replay behind an event
    exfalso
    obtain ⟨-, rfl⟩ | ⟨before, last, n, -, -, hlast⟩ := h.eq_nil_or_concat
    · rw [hr] at hterminal
      cases hterminal
    · rw [stopped_of_event hlast hterminal] at hstopped
      cases hstopped
  · exact hahead

/-- **The events tile the log.** Whatever the bytes are, and whatever follows them, a replay by a
    catalog is over after a call more than it has events, of which there are no more than bytes.
    Each event stands for the bytes between two boundaries, the first of which is zero, and tells
    where they are if it is a padding. No two paddings are next to each other. What a replay that
    ends without an error has read adds up, and is everything if no limit has stopped it. -/
theorem events_tile (catalog : Catalog) (showOrigin : Bool) (config : ReplayConfig)
    (bytes : Bytes) (ending : Ending) :
    let source : Source := { ahead := bytes, ending }
    let replay := start source (catalog.registry showOrigin) config
    let told := eventsOf replay.events.1
    let boundary (i : Nat) := (replay.calls i).source.offset
    let summary := replay.events.2.summary
    told.length ≤ bytes.length ∧ (replay.calls (told.length + 1)).phase.isTerminal = true ∧
      boundary 0 = 0 ∧ boundary told.length ≤ bytes.length ∧
      (∀ i event, told[i]? = some event →
        (replay.calls i).next = (.ok (some event), replay.calls (i + 1)) ∧
          boundary i < boundary (i + 1) ∧
          (replay.calls i).source = source.advance (boundary i) ∧
          Occupies catalog (replay.calls i).chain (source.advance (boundary i)) event
            (source.advance (boundary (i + 1)))) ∧
      (∀ i offset length offset' length', told[i]? = some (.padding offset length) →
        told[i + 1]? ≠ some (.padding offset' length')) ∧
      (replay.events.2.phase = .done →
        summary.bytesConsumed =
            summary.padBytes + 25 * summary.checkpoints + replay.messageBytes told.length ∧
          (summary.stoppedByLimit = false → summary.bytesConsumed = bytes.length)) := by
  intro source replay told boundary summary
  obtain ⟨s, htells, hfinal, hend⟩ := exists_tells_eventsOf replay
  have hs : replay.calls told.length = s := htells.calls_eq
  have hcount : 0 + told.length ≤ s.source.offset := htells.length_le
  have hlength : s.source.offset + s.source.ahead.length = 0 + bytes.length := htells.length_eq
  have hboundary : boundary told.length = s.source.offset := congrArg (·.source.offset) hs
  have hplace (i : Nat) (event : Event) (hi : told[i]? = some event) :
      (replay.calls i).source = source.advance (boundary i) := (htells.getElem? hi).1.source_eq
  have hoccupies (i : Nat) (event : Event) (hi : told[i]? = some event) :
      Occupies catalog (replay.calls i).chain (replay.calls i).source event
        (replay.calls (i + 1)).source :=
    occupies_of_event (htells.getElem? hi).2 (registry_calls i replay)
  -- one call more than there are events finds the end, or fails
  have hover : (replay.calls (told.length + 1)).phase.isTerminal = true := by
    rw [calls_succ, hs]
    obtain ⟨t, hnext⟩ | ⟨error, t, hnext⟩ := hend
    · rw [hnext]
      exact isTerminal_of_none hnext
    · rw [hnext, phase_of_next_error hnext]
      rfl
  refine ⟨by omega, hover, rfl, by omega, ?_, ?_, ?_⟩
  · intro i event hi
    -- the boundary behind an event is the one before the next
    obtain ⟨hbefore, hnext⟩ := htells.getElem? hi
    have hbehind : (replay.calls (i + 1)).source = source.advance (boundary (i + 1)) :=
      (hbefore.trans (.single hnext)).source_eq
    have hevent := hoccupies i event hi
    rw [hplace i event hi, hbehind] at hevent
    exact ⟨hnext, (offset_of_event hnext).1, hplace i event hi, hevent⟩
  · intro i offset length offset' length' hi hi'
    exact (hoccupies i _ hi).not_adjacent (hoccupies (i + 1) _ hi')
  · intro hdone
    obtain ⟨t, hnext⟩ | ⟨error, t, hnext⟩ := hend
    · have hsummary : summary = s.summary := by
        show replay.events.2.summary = s.summary
        rw [hfinal, hnext]
        exact summary_of_none hnext
      rw [hsummary]
      -- a replay begins with no bytes read and nothing counted
      have hadds : s.source.offset + 0 + 25 * 0 =
          0 + s.padBytes + 25 * s.checkpoints + replay.messageBytes told.length :=
        htells.offset_eq rfl
      refine ⟨?_, fun hstopped => ?_⟩
      · show s.source.offset = s.padBytes + 25 * s.checkpoints + _
        omega
      · rw [htells.ahead_eq_nil rfl hnext hstopped] at hlength
        exact hlength.trans (Nat.zero_add _)
    · -- a replay that has failed is not done
      rw [hfinal, hnext, phase_of_next_error hnext] at hdone
      cases hdone

/-- A message, a checkpoint, a padding, and a message that is as long as they leave it. -/
theorem events_tile_of_four_entries :
    let catalog : Catalog := ({} : Catalog).insert ⟨7⟩
      ({ id := ⟨7⟩, format := "%d%s" },
        { source := "%d%s"
          pieces := [.directive { conversion := .decimal }, .directive { conversion := .text }] })
    let bytes : Bytes :=
      [0x15, 7, 100, 1, 5, 0x68, 0x69, 0] ++ 2 :: List.replicate 24 0 ++ [0, 0, 0, 0x11, 3, 0, 0]
    let replay := start { ahead := bytes } (catalog.registry false) {}
    let told := eventsOf replay.events.1
    replay.events.2.phase = .done ∧ replay.events.2.summary = ⟨2, 1, 3, 40, false⟩ ∧
      told.map Event.padBytes = [0, 0, 3, 0] ∧ replay.messageBytes told.length = 8 + 4 := by
  intro catalog bytes replay told
  have hdone : replay.events.2.phase = .done := by decide +kernel
  have hsummary : replay.events.2.summary = ⟨2, 1, 3, 40, false⟩ := by decide +kernel
  obtain ⟨-, -, -, -, -, -, hadds⟩ := events_tile catalog false {} bytes .endOfStream
  have hsum : replay.events.2.summary.bytesConsumed =
      replay.events.2.summary.padBytes + 25 * replay.events.2.summary.checkpoints +
        replay.messageBytes told.length := (hadds hdone).1
  have hmessages : replay.messageBytes told.length = 8 + 4 := by
    -- the bytes of the messages are left of all that was read
    generalize replay.messageBytes told.length = total at hsum ⊢
    rw [hsummary] at hsum
    dsimp only at hsum
    omega
  exact ⟨hdone, hsummary, by decide +kernel, hmessages⟩

end Replayer

end BinaryLog
