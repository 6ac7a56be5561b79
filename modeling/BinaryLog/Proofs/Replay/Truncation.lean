import BinaryLog.Proofs.Catalog.Reading
import BinaryLog.Proofs.Entry.Cutting
import BinaryLog.Proofs.Replay.Telling

namespace BinaryLog.Replayer

/-!
# Logs that are cut short

A log that ends early is replayed as before up to the entry that it ends in. That entry is never
taken for another one.

* `Tells.exists_split`, the entry that an offset is in;
* `next_cut`, an entry before the cut is told as it was, and `Tells.cut`, so are all before it;
* `Remnant`, what is told of the entry that the cut goes through;
* `events_take`, what is told of a log that is cut at any byte.
-/

variable {r s t : Replayer} {event : Event} {entry : Entry} {u : Source} {limit : Nat}
  {told : List Event}

/-! ### Where entries begin and end -/

/-- Every entry takes at least a byte. -/
theorem Tells.offset_calls_lt (h : Tells r told s) {i : Nat} (hi : i < told.length) :
    (calls i r).source.offset < (calls (i + 1) r).source.offset := by
  induction h generalizing i with
  | refl => cases hi
  | step first _ ih =>
    cases i with
    | zero =>
      rw [calls, calls, calls, first]
      exact (offset_of_event first).1
    | succ i =>
      rw [calls, calls, first]
      exact ih (Nat.lt_of_succ_lt_succ hi)

/-- An offset that the events pass is in one of them. -/
theorem Tells.exists_split (h : Tells r told s) (hlow : r.source.offset ≤ limit)
    (hhigh : limit < s.source.offset) :
    ∃ before event later m n, told = before ++ event :: later ∧ Tells r before m ∧
      m.next = (.ok (some event), n) ∧ m.source.offset ≤ limit ∧ limit < n.source.offset := by
  induction h with
  | refl => exact absurd hhigh (Nat.not_lt.mpr hlow)
  | @step r m s event events first rest ih =>
    by_cases hpast : limit < m.source.offset
    · -- the first event passes the offset
      exact ⟨[], event, events, r, m, rfl, .refl r, first, hlow, hpast⟩
    · obtain ⟨before, other, later, n, o, rfl, hbefore, hnext, hn, ho⟩ :=
        ih (Nat.le_of_not_lt hpast) hhigh
      exact ⟨event :: before, other, later, n, o, rfl, .step first hbefore, hnext, hn, ho⟩

/-! ### Before the cut -/

/-- The replay whose stream ends at offset `limit`. -/
def cut (r : Replayer) (limit : Nat) : Replayer := { r with source := r.source.cut limit }

theorem Open.cut (h : r.Open) (limit : Nat) : (r.cut limit).Open := ⟨h.phase, h.limit, h.running⟩

/-- An entry does to a replay what it does to the replay of the cut stream. -/
theorem after_cut (r : Replayer) (entry : Entry) (u : Source) (limit : Nat) :
    (r.cut limit).after entry (u.cut limit) = (r.after entry u).cut limit := by
  refine (after_withSource r (r.source.cut limit) entry u (u.cut limit)).trans ?_
  rw [withSource, Replayer.cut, source_after]

/-- **An entry before the cut** is told as it was. -/
theorem next_cut (h : r.next = (.ok (some event), s)) (hregistry : r.registry.SelfDelimiting)
    (hle : s.source.offset ≤ limit) : (r.cut limit).next = (.ok (some event), s.cut limit) := by
  obtain ⟨hphase, entry, u, hread, rfl, rfl⟩ := next_eq_event_iff.mp h
  rw [source_after] at hle
  rw [next_of_read (r := r.cut limit) hphase (hread.cut hregistry hle), after_cut]
  cases entry <;> rfl

/-- **What is told before a cut** is told of the cut stream too. -/
theorem Tells.cut (h : Tells r told s) (hregistry : r.registry.SelfDelimiting)
    (hle : s.source.offset ≤ limit) : Tells (r.cut limit) told (s.cut limit) := by
  induction h with
  | refl r => exact .refl _
  | step first rest ih =>
    refine .step (next_cut first hregistry (Nat.le_trans rest.offset_le hle)) (ih ?_ hle)
    rw [registry_of_event first]
    exact hregistry

/-! ### At the cut -/

/-- What is told of an entry of which only the bytes before `cut` are left, where `r` is the replay
    before the entry and `event` is what was told of the whole entry: nothing if no byte is left,
    the zeros that are left of a padding, and a truncation of anything else, which is noticed at the
    end of what is left. -/
inductive Remnant (r : Replayer) (event : Event) (cut : Nat) :
    List (Except ReplayError Event) → Phase → Prop
  | boundary (atStart : cut = r.source.offset) : Remnant r event cut [] .done
  | padding {length : Nat} (inside : r.source.offset < cut)
      (kind : event = .padding r.source.offset length) :
      Remnant r event cut [.ok (.padding r.source.offset (cut - r.source.offset))] .done
  | truncated {offset needed available : Nat} (inside : r.source.offset < cut)
      (kind : ∀ start length, event ≠ .padding start length) (place : offset + available = cut)
      (short : available < needed) :
      Remnant r event cut
        [.error (r.errorAt r.source.offset (.truncated offset needed available))] .failed

/-- A padding that the cut goes through is told as far as it is left. -/
theorem events_cut_padding {length : Nat} (hopen : r.Open)
    (hread : Entry.Read r.registry r.chain r.source (.padding length) u)
    (hlow : r.source.offset < limit) (hhigh : limit < u.offset) :
    (r.cut limit).events.1 = [.ok (.padding r.source.offset (limit - r.source.offset))] ∧
      (r.cut limit).events.2.phase = .done := by
  have hleft := hread.cut_padding hlow hhigh
  have hnext := (hopen.cut limit).next_of_read hleft
  -- the zeros are the last bytes, so the next call finds the end
  have hend := next_at_end
    (r := (r.cut limit).after (.padding (limit - r.source.offset)) (r.source.cut limit).exhaust)
    ((hopen.cut limit).after _ _).isTerminal_eq (by rw [source_after]; exact List.drop_length)
    (by rw [source_after]; rfl)
  rw [events_of_event hnext, events_of_none hend]
  exact ⟨rfl, rfl⟩

/-- Any other entry that the cut goes through is a truncation. -/
theorem events_cut_of_ne_padding (hopen : r.Open) (hregistry : r.registry.SelfDelimiting)
    (hread : Entry.Read r.registry r.chain r.source entry u)
    (hentry : ∀ length, entry ≠ .padding length) (hlow : r.source.offset < limit)
    (hhigh : limit < u.offset) :
    ∃ offset needed available,
      (r.cut limit).events.1 =
        [.error (r.errorAt r.source.offset (.truncated offset needed available))] ∧
      (r.cut limit).events.2.phase = .failed ∧ offset + available = limit ∧ available < needed := by
  -- the decoder that read the entry asks for a byte behind the cut
  obtain ⟨b, bs, hahead, hshort⟩ := hread.cut_fallsShort hregistry hentry hlow hhigh
  obtain ⟨offset, needed, available, hrun, hplace, hlt⟩ := hshort.eq_truncated rfl
  have hlength := Source.length_ahead_cut
    (Nat.le_trans (Nat.le_of_lt hhigh) hread.reaches.length_le_offset)
  have hnext := next_of_failure (r := r.cut limit) hopen.isTerminal_eq hahead hrun
  rw [events_of_error hnext]
  refine ⟨offset, needed, available, rfl, rfl, ?_, hlt⟩
  rw [hplace, hlength, Source.offset_cut]
  omega

/-- **The entry that the cut goes through** is not taken for another one. -/
theorem remnant_of_event (h : r.next = (.ok (some event), s)) (hopen : r.Open)
    (hregistry : r.registry.SelfDelimiting) (hlow : r.source.offset ≤ limit)
    (hhigh : limit < s.source.offset) :
    Remnant r event limit (r.cut limit).events.1 (r.cut limit).events.2.phase := by
  obtain ⟨-, entry, u, hread, rfl, rfl⟩ := next_eq_event_iff.mp h
  rw [source_after] at hhigh
  obtain hlow | heq := Nat.lt_or_eq_of_le hlow
  · by_cases hentry : ∀ length, entry ≠ .padding length
    · obtain ⟨offset, needed, available, hevents, hphase, hplace, hshort⟩ :=
        events_cut_of_ne_padding hopen hregistry hread hentry hlow hhigh
      rw [hevents, hphase]
      refine .truncated hlow ?_ hplace hshort
      intro start length htold
      cases entry with
      | padding length => exact hentry length rfl
      | message metadata text => cases htold
      | checkpoint c => cases htold
    -- what is left of a padding is a padding again
    · obtain ⟨length, rfl⟩ : ∃ length, entry = .padding length := by simpa using hentry
      obtain ⟨hevents, hphase⟩ := events_cut_padding hopen hread hlow hhigh
      rw [hevents, hphase]
      exact .padding hlow rfl
  · -- the entry is gone as a whole
    have hahead : (r.cut limit).source.ahead = [] := Source.ahead_cut_of_le (Nat.le_of_eq heq.symm)
    rw [events_of_none (next_at_end (hopen.cut limit).isTerminal_eq hahead rfl)]
    exact .boundary heq.symm

/-- **A log that is cut at any byte** loses the entry that the cut goes through and what follows,
    and nothing else. The events before are told as they were. A cut between two entries ends the
    log, a cut in a padding makes it shorter, and any other cut is noticed as a truncation at the
    very end of what is left. -/
theorem events_take (catalog : Catalog) (showOrigin : Bool) (config : ReplayConfig)
    (hlimit : config.limit = none) (bytes : Bytes)
    (hdone : (start (.ofBytes bytes) (catalog.registry showOrigin) config).events.2.phase = .done) :
    let registry := catalog.registry showOrigin
    let replay := start (.ofBytes bytes) registry config
    let boundary (i : Nat) := (replay.calls i).source.offset
    ∃ told : List Event, replay.events.1 = told.map .ok ∧
      boundary 0 = 0 ∧ boundary told.length = bytes.length ∧
      (∀ i < told.length, boundary i < boundary (i + 1)) ∧
      ∀ cut < bytes.length, ∃ i event, told[i]? = some event ∧
        boundary i ≤ cut ∧ cut < boundary (i + 1) ∧
        ∃ tail, let short := (start (.ofBytes (bytes.take cut)) registry config).events
          short.1 = (told.take i).map .ok ++ tail ∧
            Remnant (replay.calls i) event cut tail short.2.phase := by
  intro registry replay boundary
  have hregistry : Registry.SelfDelimiting registry := catalog.selfDelimiting_decode showOrigin
  have hopen : replay.Open := open_start hlimit
  obtain ⟨told, s, htells, hend, hevents⟩ := exists_tells_of_done hdone
  -- the last call that tells nothing finds no byte ahead, so the last entry ends with the log
  have hlast : s.source.offset = bytes.length := by
    have htotal := htells.length_eq
    obtain ⟨hterminal, -⟩ | ⟨hahead, -, -⟩ := next_eq_none hend
    · rw [(htells.open hopen).isTerminal_eq] at hterminal
      cases hterminal
    · rw [hahead] at htotal
      exact htotal.trans (Nat.zero_add _)
  have hboundary : boundary told.length = bytes.length :=
    (congrArg (·.source.offset) htells.calls_eq).trans hlast
  refine ⟨told, hevents, rfl, hboundary, fun i hi => htells.offset_calls_lt hi, ?_⟩
  intro cut hcut
  -- the entries before the one that is cut, and that entry
  obtain ⟨before, event, later, m, n, rfl, hbefore, hnext, hlow, hhigh⟩ :=
    htells.exists_split (Nat.zero_le cut) (hlast ▸ hcut)
  have hm : replay.calls before.length = m := hbefore.calls_eq
  have hn : replay.calls (before.length + 1) = n := by rw [calls_succ, hm, hnext]
  have hcutBefore := hbefore.cut hregistry hlow
  have hremnant := remnant_of_event hnext (hbefore.open hopen)
    (hbefore.registry_eq ▸ hregistry) hlow hhigh
  have hstart : boundary before.length = m.source.offset := congrArg (·.source.offset) hm
  have hstop : boundary (before.length + 1) = n.source.offset := congrArg (·.source.offset) hn
  refine ⟨before.length, event, by simp, hstart ▸ hlow, hstop ▸ hhigh, (m.cut cut).events.1, ?_⟩
  -- a replay of the first bytes is the replay of the log, cut at its start
  have hshort : start (.ofBytes (bytes.take cut)) registry config = replay.cut cut := rfl
  rw [hshort, hcutBefore.events_eq, hm, List.take_left]
  exact ⟨rfl, hremnant⟩

/-- A message with a number and a text, a padding, and a checkpoint, cut at any byte. -/
theorem events_take_of_text :
    let catalog : Catalog := ({} : Catalog).insert ⟨7⟩
      ({ id := ⟨7⟩, format := "%d%s" },
        { source := "%d%s"
          pieces := [.directive { conversion := .decimal }, .directive { conversion := .text }] })
    let bytes : Bytes :=
      [0x15, 7, 100, 1, 5, 0x68, 0x69, 0] ++ [0, 0, 0] ++ 2 :: List.replicate 24 9
    let replay := start (.ofBytes bytes) (catalog.registry false) {}
    replay.events.2.phase = .done ∧
      ∃ told : List Event, replay.events.1 = told.map .ok ∧
        ∀ cut < bytes.length, ∃ i event, told[i]? = some event ∧
          ∃ tail,
            let short := (start (.ofBytes (bytes.take cut)) (catalog.registry false) {}).events
            short.1 = (told.take i).map .ok ++ tail ∧
              Remnant (replay.calls i) event cut tail short.2.phase := by
  intro catalog bytes replay
  have hdone : replay.events.2.phase = .done := by decide +kernel
  obtain ⟨told, hevents, -, -, -, hcut⟩ := events_take catalog false {} rfl bytes hdone
  refine ⟨hdone, told, hevents, fun cut hlt => ?_⟩
  obtain ⟨i, event, hevent, -, -, hremnant⟩ := hcut cut hlt
  exact ⟨i, event, hevent, hremnant⟩

end BinaryLog.Replayer
