import BinaryLog.Proofs.Entry.Locality
import BinaryLog.Proofs.Replay.Content
import Mathlib.Data.List.Basic

namespace BinaryLog

/-!
# Writing a log again

The events of a replay can be written again, all of them or a part. What is written is accepted,
says what the events do, and is no longer than what was read.

* `Replayer.transcript`, the events of a replay, each with the command that writes it again;
* `Chain.Owes`, the invariant that pays for left out messages: what a header saves where a message
  is left out is enough for the longer header of the next one that is not;
* `Replayer.length_layout_le`, no part of a transcript takes more bytes than were read;
* `Replayer.contents_rewrite`, the log that is written again.
-/

/-- What the routines of a registry read in one place, they read everywhere. -/
theorem Registry.Determined.reads {registry : Registry} (h : registry.Determined) {id : FormatId}
    {s t : Source} {text : String} (hrun : (registry.decode id).run s = (.ok text, t)) :
    registry.Reads id (s.readTo t) text := by
  obtain ⟨routine, hget, hroutine⟩ := Registry.run_decode_eq_ok_iff.mp hrun
  exact ⟨routine, hget, h id routine hget hroutine⟩

/-- The routine of a single byte looks at that byte only. -/
theorem Routine.determined_singleByte (id : FormatId) : (Routine.singleByte id).Determined :=
  Decoder.selfDelimiting_byte.determined.bind fun _ => (Decoder.selfDelimiting_pure _).determined

/-! ### Transcripts -/

/-- The command that writes an event again. The event of a message does not have its payload. -/
def Event.rewrite (payload : Bytes) : Event → WriteCommand
  | .message m => .message m.formatId m.timestamp payload
  | .checkpoint c => .checkpoint c
  | .padding _ length => .padding length

namespace Replayer

open WriteCommand

variable {r s t : Replayer} {event : Event} {entry : Entry} {u : Source}

/-- The bytes that the routine of the next message reads. -/
def nextPayload (r : Replayer) : Bytes :=
  ((Metadata.decode r.chain).run r.source).2.readTo r.next.2.source

/-- The events of a replay, each with the command that writes it again. -/
def transcript (r : Replayer) : List (Event × WriteCommand) :=
  match _h : r.next with
  | (.ok (some event), s) => (event, event.rewrite r.nextPayload) :: transcript s
  | _ => []
termination_by r.pending
decreasing_by exact pending_next_lt _h (by simp)

/-- An event is put down with the call that would write it again. -/
theorem transcript_of_event (h : r.next = (.ok (some event), s)) :
    r.transcript = (event, event.rewrite r.nextPayload) :: s.transcript := by
  rw [transcript]
  split <;> simp_all

/-- A replay that is over has nothing to be written again. -/
theorem transcript_of_none (h : r.next = (.ok none, s)) : r.transcript = [] := by
  rw [transcript]
  split <;> simp_all

/-- A transcript has the events of the replay. -/
theorem Tells.transcript_eq {told : List Event} (h : Tells r told s)
    (hend : s.next = (.ok none, t)) : r.transcript.map Prod.fst = told := by
  induction h with
  | refl => rw [transcript_of_none hend, List.map_nil]
  | step first _ ih => rw [transcript_of_event first, List.map_cons, ih hend]

/-- What an entry is written again as. -/
theorem rewrite_told (r : Replayer) (entry : Entry) (payload : Bytes) :
    (r.told entry).rewrite payload = match entry with
      | .message metadata _ => .message metadata.formatId metadata.timestamp payload
      | .checkpoint c => .checkpoint c
      | .padding length => .padding length := by
  cases entry <;> rfl

/-- The next payload is what lies between the header and the next entry. -/
theorem nextPayload_eq {metadata : Metadata} {v : Source} (hnext : r.next = (.ok (some event), s))
    (hheader : (Metadata.decode r.chain).run r.source = (.ok metadata, v)) :
    r.nextPayload = v.readTo s.source := by
  rw [nextPayload, hheader, hnext]

/-! ### What commands restore -/

/-- A command restores an event: it says the same, and its payload is read. -/
structure Restores (registry : Registry) (event : Event) (command : WriteCommand) : Prop where
  content : command.content? registry.textOf = event.content?
  reads : ∀ id timestamp payload, command = .message id timestamp payload →
    ∃ text, registry.Reads id payload text

/-- **Each event is restored** by the call that is put down with it. -/
theorem restores_of_event (hdetermined : r.registry.Determined)
    (h : r.next = (.ok (some event), s)) :
    Restores r.registry event (event.rewrite r.nextPayload) := by
  obtain ⟨-, entry, u, hread, rfl, rfl⟩ := next_eq_event_iff.mp h
  rw [rewrite_told]
  cases hread with
  | @message metadata text v _ hheader hpayload =>
    have hreads := hdetermined.reads hpayload
    rw [nextPayload_eq h hheader, source_after]
    constructor
    · rw [content?, hreads.textOf_eq]
      rfl
    · rintro id timestamp payload ⟨⟩
      exact ⟨text, hreads⟩
  | checkpoint hbody => exact ⟨rfl, fun id timestamp payload h => by cases h⟩
  | padding hpos hahead hlast hending => exact ⟨rfl, fun id timestamp payload h => by cases h⟩

/-- Every event of a transcript is restored by its command. -/
theorem Tells.restores {told : List Event} (h : Tells r told s) (hend : s.next = (.ok none, t))
    (hdetermined : r.registry.Determined) :
    ∀ line ∈ r.transcript, Restores r.registry line.1 line.2 := by
  induction h with
  | refl =>
    rw [transcript_of_none hend]
    intro line hline
    cases hline
  | step first _ ih =>
    rw [transcript_of_event first]
    intro line hline
    obtain rfl | hline := List.mem_cons.mp hline
    · exact restores_of_event hdetermined first
    · rw [registry_of_event first] at ih
      exact ih hend hdetermined line hline

end Replayer

/-! ### What leaving out costs -/

/-- A chain that a writer may be at when the chain that was read is `c`: if they differ, the header
    from one to the other takes no more than the bytes that were saved. -/
structure Chain.Owes (w c : Chain) (saved : Nat) : Prop where
  inOrder : w.timestamp ≤ c.timestamp
  covered : w = c ∨ (w.headerTo c).length ≤ saved

namespace Chain

theorem Owes.refl (c : Chain) (saved : Nat) : c.Owes c saved := ⟨UInt64.le_refl _, .inl rfl⟩

/-- Whoever owes a little owes at most more. -/
theorem Owes.mono {w c : Chain} {saved more : Nat} (h : w.Owes c saved) (hle : saved ≤ more) :
    w.Owes c more :=
  ⟨h.inOrder, h.covered.imp_right fun hsaved => Nat.le_trans hsaved hle⟩

/-- The header of the next message takes at most what was saved and the header that was read. -/
theorem Owes.length_headerTo_le {w c next : Chain} {saved : Nat} (h : w.Owes c saved)
    (hnext : c.timestamp ≤ next.timestamp) :
    (w.headerTo next).length ≤ saved + (c.headerTo next).length := by
  obtain rfl | hcovered := h.covered
  · exact Nat.le_add_left _ _
  · exact Nat.le_trans (length_headerTo_le_add h.inOrder hnext) (Nat.add_le_add_right hcovered _)

end Chain

namespace Replayer

open WriteCommand

variable {r s t : Replayer} {event : Event} {entry : Entry} {u : Source}

/-- What one event costs: left out, it saves all its bytes; written again, it takes no more than it
    saves. -/
theorem exists_saved_of_event (h : r.next = (.ok (some event), s)) {w : Chain} {saved : Nat}
    (howes : w.Owes r.chain saved) :
    let command := event.rewrite r.nextPayload
    ∃ used, s.source.offset = r.source.offset + used ∧ w.Owes s.chain (saved + used) ∧
      command.Continues w ∧
      ∃ left, (command.encode w).length + left ≤ saved + used ∧
        (command.chainAfter w).Owes s.chain left := by
  obtain ⟨-, entry, u, hread, rfl, rfl⟩ := next_eq_event_iff.mp h
  rw [rewrite_told, chain_after, source_after]
  refine ⟨(r.source.readTo u).length, hread.reaches.offset_eq, ?_⟩
  cases hread with
  | @message metadata text v _ hheader hpayload =>
    obtain ⟨-, hle, hheaderLength⟩ := Metadata.of_run_decode_eq_ok hheader
    -- the header that goes over what was left out is paid by what was saved
    have hlength : (w.headerTo metadata.chain).length ≤ _ := howes.length_headerTo_le hle
    have hused := congrArg List.length
      ((Decoder.reaches_of_run hheader).readTo_append (Decoder.reaches_of_run hpayload))
    rw [List.length_append] at hused
    have hinOrder : w.timestamp ≤ metadata.timestamp := UInt64.le_trans howes.inOrder hle
    rw [nextPayload_eq h hheader, source_after]
    show w.Owes metadata.chain _ ∧ w.timestamp ≤ metadata.timestamp ∧
      ∃ left, (w.headerTo metadata.chain ++ v.readTo u).length + left ≤ _ ∧
        metadata.chain.Owes metadata.chain left
    -- written again, the message brings the writer to where the replay is
    refine ⟨⟨hinOrder, .inr (by omega)⟩, hinOrder, 0, ?_, .refl _ 0⟩
    rw [List.length_append]
    omega
  | @checkpoint c _ hbody =>
    obtain ⟨-, hused⟩ := Checkpoint.of_run_decode_eq_ok hbody
    -- a checkpoint leaves the chain alone, so what is owed stays the same
    refine ⟨howes.mono (Nat.le_add_right _ _), trivial, saved, ?_, howes⟩
    rw [encode, Checkpoint.length_encode, hused, Nat.add_comm]
  | @padding length rest _ hahead _ _ =>
    -- a padding takes as many bytes as it was read from
    have hused : (r.source.readTo (r.source.advance length)).length = length := by
      rw [Source.readTo_advance, hahead]
      simp
    refine ⟨howes.mono (Nat.le_add_right _ _), trivial, saved, ?_, howes⟩
    rw [encode, List.length_replicate, hused, Nat.add_comm]

/-- **No part of a transcript takes more bytes than were read**, and every part is in order. -/
theorem Tells.length_layout_le {told : List Event} (h : Tells r told s)
    (hend : s.next = (.ok none, t)) {kept : List (Event × WriteCommand)}
    (hkept : kept.Sublist r.transcript) {w : Chain} {saved : Nat} (howes : w.Owes r.chain saved) :
    Ordered w (kept.map Prod.snd) ∧
      r.source.offset + (layout w (kept.map Prod.snd)).length ≤ s.source.offset + saved := by
  -- by the events; what is saved by those left out is carried along
  induction h generalizing kept w saved with
  | refl =>
    rw [transcript_of_none hend, List.sublist_nil] at hkept
    subst hkept
    exact ⟨trivial, Nat.le_add_right _ _⟩
  | step first _ ih =>
    obtain ⟨used, hoffset, hleft, hcontinues, left, hlength, hnext⟩ :=
      exists_saved_of_event first howes
    rw [transcript_of_event first] at hkept
    cases hkept with
    | cons _ hkept =>
      -- left out: its bytes are saved for later
      obtain ⟨hordered, hle⟩ := ih hend hkept hleft
      exact ⟨hordered, by omega⟩
    | cons_cons _ hkept =>
      -- written again: what is not used is saved
      obtain ⟨hordered, hle⟩ := ih hend hkept hnext
      refine ⟨⟨hcontinues, hordered⟩, ?_⟩
      rw [List.map_cons, layout, List.length_append]
      dsimp only
      omega

/-- **A log can be written again**, or any part of it. Whatever events of a replay that ended
    without an error are left out, a new writer accepts the others, what it writes says the same as
    they do, and it takes no more bytes than the replay read. -/
theorem contents_rewrite {source : Source} {registry : Registry} {config : ReplayConfig}
    (hdetermined : registry.Determined)
    (hdone : (start source registry config).events.2.phase = .done)
    {kept : List (Event × WriteCommand)}
    (hkept : kept.Sublist (start source registry config).transcript) (config' : ReplayConfig)
    (hlimit : config'.limit = none) :
    let replay := start source registry config
    let commands := kept.map Prod.snd
    let log := (({} : Writer).performAll commands).sink.stored
    let again := start (.ofBytes log) registry config'
    replay.events.1 = (replay.transcript.map Prod.fst).map .ok ∧
      ({} : Writer).acknowledged commands = commands ∧
      (∃ told : List Event, again.events.1 = told.map .ok ∧
        told.filterMap Event.content? = (kept.map Prod.fst).filterMap Event.content?) ∧
      again.events.2.phase = .done ∧ again.events.2.stoppedByLimit = false ∧
      source.offset + log.length ≤ replay.events.2.source.offset := by
  intro replay commands log again
  obtain ⟨told, s, htells, hend, hevents⟩ := exists_tells_of_done hdone
  obtain ⟨hordered, hlength⟩ := htells.length_layout_le hend hkept (Chain.Owes.refl _ 0)
  have hrestores := htells.restores hend hdetermined
  have hacknowledged : ({} : Writer).acknowledged commands = commands :=
    Writer.acknowledged_of_ordered rfl hordered
  -- nothing is refused, so the new log is the layout of all commands
  have hlog : log = layout {} commands := by
    obtain ⟨hstored, -⟩ := Writer.stored_performAll (w := {}) rfl commands
    rw [hacknowledged] at hstored
    exact hstored
  -- what a routine read in the first log, it reads in the new one
  have hreads : ∀ id timestamp payload, .message id timestamp payload ∈ commands →
      ∃ text, registry.Reads id payload text := by
    intro id timestamp payload h
    obtain ⟨line, hline, hcommand⟩ := List.mem_map.mp h
    exact (hrestores line (hkept.subset hline)).reads id timestamp payload hcommand
  obtain ⟨hagain, hcontents, hphase, hrunning, -⟩ :=
    contents_layout hlimit hordered hreads
  have hreplay : again = start (.ofBytes log) registry config' := rfl
  rw [hreplay, hlog]
  refine ⟨?_, hacknowledged, ⟨_, hagain, ?_⟩, hphase, hrunning, ?_⟩
  · rw [htells.transcript_eq hend]
    exact hevents
  · -- line by line, the command says what the event does
    rw [hcontents, List.filterMap_map, List.filterMap_map]
    apply List.filterMap_congr
    intro line hline
    exact (hrestores line (hkept.subset hline)).content
  · rw [source_of_none hend]
    exact hlength

/-- The second of three messages is left out; the first header and the tag of the checkpoint are not
    as a writer makes them. -/
theorem contents_rewrite_of_wide_header :
    let registry : Registry := ({} : FormatTable Routine).insert ⟨7⟩ Routine.singleByte
    let bytes : Bytes :=
      [0x2D, 7, 0, 0, 0, 100, 0, 1] ++ 0xF2 :: List.replicate 24 5 ++ [0, 0, 0] ++
        [0x11, 50, 2] ++ [0x11, 60, 3]
    let kept := (start (.ofBytes bytes) registry {}).transcript.eraseIdx 3
    let log := (({} : Writer).performAll (kept.map Prod.snd)).sink.stored
    log.length ≤ bytes.length ∧
      ∃ told : List Event, (start (.ofBytes log) registry {}).events.1 = told.map .ok ∧
        told.filterMap Event.content? =
          [.message ⟨7⟩ 100 "fmt7:1",
            .checkpoint ⟨0x0505050505050505, 0x0505050505050505, ⟨0x0505050505050505⟩⟩,
            .message ⟨7⟩ 210 "fmt7:3"] := by
  intro registry bytes kept log
  -- the registry holds one routine, which looks at a single byte
  have hdetermined : registry.Determined := by
    intro id routine h
    rw [FormatTable.get?_insert] at h
    split at h
    · cases h
      exact Routine.determined_singleByte id
    · cases h
  have hreplay : (start (.ofBytes bytes) registry {}).events.2.phase = .done ∧
      (start (.ofBytes bytes) registry {}).events.2.source.offset = bytes.length := by
    decide +kernel
  have hkept : (kept.map Prod.fst).filterMap Event.content? =
          [.message ⟨7⟩ 100 "fmt7:1",
            .checkpoint ⟨0x0505050505050505, 0x0505050505050505, ⟨0x0505050505050505⟩⟩,
            .message ⟨7⟩ 210 "fmt7:3"] := by decide +kernel
  obtain ⟨-, -, ⟨told, htold, hcontents⟩, -, -, hlength⟩ :=
    contents_rewrite hdetermined hreplay.1 (List.eraseIdx_sublist _ 3) {} rfl
  rw [hreplay.2] at hlength
  exact ⟨Nat.le_trans (Nat.le_add_left _ _) hlength, told, htold, hcontents.trans hkept⟩

end Replayer

end BinaryLog
