import BinaryLog.Proofs.Replay.Telling

namespace BinaryLog

/-!
# Replays with a limit

A replay that its limit has not stopped goes from entry to entry until a call tells nothing, fails,
or tells the last message that was asked for.

* `Running` and `Stopped`, before and after the limit is reached;
* `Running.of_event`, an event leads from one to the other only if it is a message;
* `Tells.running`, events lead to one of the two.
-/

/-- The message that an event is. -/
def Event.message? : Event → Option Message
  | .message m => some m
  | _ => none

namespace Replayer

variable {r s : Replayer} {event : Event} {told : List Event}

/-! ### Limits -/

/-- A replay between two entries that its limit has not stopped. -/
structure Running (r : Replayer) : Prop where
  phase : r.phase = .scanning
  below : r.limitReached = false
  running : r.stoppedByLimit = false

/-- A replay that its limit has stopped. -/
structure Stopped (r : Replayer) : Prop where
  phase : r.phase = .done
  reached : r.limitReached = true
  stopped : r.stoppedByLimit = true

/-- A limit of a message at least has not stopped a replay that has not begun. -/
theorem running_start_of_limit {source : Source} {registry : Registry} {config : ReplayConfig}
    (h : config.limit ≠ some 0) : (start source registry config).Running := by
  refine ⟨rfl, ?_, rfl⟩
  unfold limitReached
  split
  · rename_i limit hlimit
    have hne : limit ≠ 0 := by
      rintro rfl
      exact h hlimit
    simpa [start] using hne
  · rfl

/-- Settings that pass the check ask for a message at least. -/
theorem running_start {source : Source} {registry : Registry} {config : ReplayConfig}
    (h : config.check = .ok ()) : (start source registry config).Running := by
  apply running_start_of_limit
  intro hzero
  rw [ReplayConfig.check, if_pos hzero] at h
  cases h

theorem Running.isTerminal_eq (h : r.Running) : r.phase.isTerminal = false := by
  rw [h.phase]
  rfl

theorem Stopped.isTerminal_eq (h : r.Stopped) : r.phase.isTerminal = true := by
  rw [h.phase]
  rfl

/-- The limit counts messages, so only a message can reach it. -/
theorem limitReached_after (h : r.limitReached = false) (entry : Entry) (u : Source)
    (hentry : ∀ metadata text, entry ≠ .message metadata text) :
    (r.after entry u).limitReached = false := by
  have hmessages : (r.after entry u).messages = r.messages := by
    rw [messages_after]
    cases entry with
    | message metadata text => exact absurd rfl (hentry metadata text)
    | checkpoint c => rfl
    | padding length => rfl
  rw [← h, limitReached, limitReached, config_after, hmessages]

/-- An entry leaves the replay running, unless the limit is reached. -/
theorem Running.after (h : r.Running) (entry : Entry) (u : Source) :
    if (r.after entry u).limitReached then (r.after entry u).Stopped
    else (r.after entry u).Running := by
  have hstopped := h.running
  -- the limit is looked at when the entry has been accounted for
  cases hlimit : (({ r with source := u }.account r.source.offset entry).2).limitReached with
  | true =>
    have hafter : r.after entry u =
        { ({ r with source := u }.account r.source.offset entry).2 with
          phase := .done, stoppedByLimit := true } := by rw [Replayer.after, settle, if_pos hlimit]
    have hreached : (r.after entry u).limitReached = true := by rw [hafter]; exact hlimit
    rw [if_pos hreached]
    exact ⟨by rw [hafter], hreached, by rw [hafter]⟩
  | false =>
    have hafter : r.after entry u =
        { ({ r with source := u }.account r.source.offset entry).2 with phase := .scanning } := by
      rw [Replayer.after, settle, hlimit]
      rfl
    have hreached : (r.after entry u).limitReached = false := by rw [hafter]; exact hlimit
    rw [hreached]
    refine ⟨by rw [hafter], hreached, ?_⟩
    rw [hafter]
    cases entry <;> exact hstopped

/-- **Only a message stops a replay.** -/
theorem Running.of_event (h : r.Running) (hnext : r.next = (.ok (some event), s)) :
    s.Running ∨ (s.Stopped ∧ ∃ m, event = .message m) := by
  obtain ⟨-, entry, u, -, rfl, rfl⟩ := next_eq_event_iff.mp hnext
  have hafter := h.after entry u
  cases hlimit : (r.after entry u).limitReached with
  | false =>
    rw [hlimit] at hafter
    exact .inl hafter
  | true =>
    rw [hlimit] at hafter
    refine .inr ⟨hafter, ?_⟩
    by_contra hmessage
    -- anything else would have left the limit where it was
    have hbelow : (r.after entry u).limitReached = false := by
      apply limitReached_after h.below
      rintro metadata text rfl
      exact hmessage ⟨_, rfl⟩
    rw [hlimit] at hbelow
    cases hbelow

/-- A replay that has told events is running, or the last of them has stopped it. -/
theorem Tells.running (h : Tells r told s) (hrunning : r.Running) : s.Running ∨ s.Stopped := by
  induction h with
  | refl => exact .inl hrunning
  | @step r m s event events first rest ih =>
    obtain hm | ⟨hm, -⟩ := hrunning.of_event first
    · exact ih hm
    · -- a replay that has stopped tells nothing more
      cases rest with
      | refl => exact .inr hm
      | step second _ =>
        rw [next_of_terminal hm.isTerminal_eq] at second
        cases second

/-- A replay that is not over has not been stopped. -/
theorem Tells.running_of_not_terminal (h : Tells r told s) (hrunning : r.Running)
    (hs : s.phase.isTerminal = false) : s.Running := by
  refine (h.running hrunning).resolve_right fun hstopped => ?_
  rw [hstopped.isTerminal_eq] at hs
  cases hs

/-- Nor has a replay that still runs later. -/
theorem Tells.not_stopped (h : Tells r told s) (hs : s.Running) : ¬ r.Stopped := by
  intro hr
  cases h with
  | refl =>
    have hphase := hr.phase
    rw [hs.phase] at hphase
    cases hphase
  | step first _ =>
    rw [next_of_terminal hr.isTerminal_eq] at first
    cases first

/-- The last of the events, if there is one. -/
theorem Tells.eq_nil_or_concat (h : Tells r told s) :
    (told = [] ∧ s = r) ∨ ∃ before last m, told = before ++ [last] ∧ Tells r before m ∧
      m.next = (.ok (some last), s) := by
  induction h with
  | refl r => exact .inl ⟨rfl, rfl⟩
  | @step r m s event events first rest ih =>
    refine .inr ?_
    -- the last of several events is the last of those behind the first
    obtain ⟨rfl, rfl⟩ | ⟨before, last, o, rfl, hbefore, hlast⟩ := ih
    · exact ⟨[], event, r, rfl, .refl r, first⟩
    · exact ⟨event :: before, last, o, rfl, .step first hbefore, hlast⟩

/-- What stops a replay is its last message. -/
theorem Tells.eq_concat_of_stopped (h : Tells r told s) (hr : r.Running) (hs : s.Stopped) :
    ∃ before m n, told = before ++ [.message m] ∧ Tells r before n ∧ n.Running ∧
      n.next = (.ok (some (.message m)), s) := by
  obtain ⟨rfl, rfl⟩ | ⟨before, last, n, rfl, hbefore, hlast⟩ := h.eq_nil_or_concat
  · -- a replay is not running and stopped
    exact absurd hs ((Tells.refl s).not_stopped hr)
  -- the replay was running in front of its last event, which a message has to be
  · have hn := hbefore.running_of_not_terminal hr (next_eq_event_iff.mp hlast).1
    obtain hs' | ⟨-, m, rfl⟩ := hn.of_event hlast
    · exact absurd hs ((Tells.refl s).not_stopped hs')
    · exact ⟨before, m, n, rfl, hbefore, hn, hlast⟩

/-- What lies ahead is only read, and is followed by the same. -/
theorem Tells.ending_eq (h : Tells r told s) : s.source.ending = r.source.ending := by
  induction h with
  | refl => rfl
  | step first _ ih =>
    obtain ⟨-, entry, u, hread, -, rfl⟩ := next_eq_event_iff.mp first
    obtain ⟨n, -, rfl⟩ := hread.reaches
    rw [ih, source_after]
    rfl

end Replayer

end BinaryLog
