import BinaryLog.Proofs.Catalog.Reading
import BinaryLog.Proofs.Entry.Cutting
import BinaryLog.Proofs.Replay.Digest
import BinaryLog.Proofs.Replay.Truncation

namespace BinaryLog

/-!
# Bytes put in between two entries

Padding and checkpoints between two messages do not change what is told of messages.

* `Source.splice`, the source with bytes put in at a given offset;
* `Entry.Read.splice`, an entry in front of the place is read as it was;
* `Silent`, the bytes that no message depends on;
* `Replayer.Tells.digest_splice`, what such bytes change in a digest, and `Replayer.digest_insert`,
  the same for a log of a catalog.
-/

/-! ### Sources -/

namespace Source

variable {s t : Source} {place : Nat} {bytes : Bytes}

/-- The source with `bytes` put in at offset `place`. -/
def splice (s : Source) (place : Nat) (bytes : Bytes) : Source :=
  { s with ahead := (s.cut place).ahead ++ bytes ++ s.ahead.drop (place - s.offset) }

/-- What is read before the place stands in front of what is left. -/
theorem Reaches.ahead_splice (h : s.Reaches t) (hle : t.offset ≤ place) :
    (s.splice place bytes).ahead = s.readTo t ++ (t.splice place bytes).ahead := by
  have hoffset := h.offset_eq
  have hdrop : s.ahead.drop (place - s.offset) = t.ahead.drop (place - t.offset) := by
    rw [h.ahead_eq, show place - s.offset = (s.readTo t).length + (place - t.offset) by omega,
      List.drop_length_add_append]
  simp only [splice, h.ahead_cut hle, hdrop, List.append_assoc]

/-- What is read before the place stays the same after bytes are put in. -/
theorem Reaches.splice_eq_advance (h : s.Reaches t) (hle : t.offset ≤ place) :
    t.splice place bytes = (s.splice place bytes).advance (s.readTo t).length := by
  have hahead : _ = (t.splice place bytes).ahead := ahead_advance_of_append (h.ahead_splice hle)
  have hending : t.ending = s.ending := by rw [h.eq_advance]; rfl
  exact (Source.mk.injEq ..).mpr ⟨hahead.symm, h.offset_eq, hending⟩

/-- At the place itself the bytes are next. -/
theorem ahead_splice_offset : (s.splice s.offset bytes).ahead = bytes ++ s.ahead := by
  simp [splice, cut]

end Source

/-- What a decoder reads before the place, it reads as before. -/
theorem Decoder.Determined.splice {α : Type} {d : Decoder α} {s t : Source} {a : α} {place : Nat}
    (h : d.Determined) (hrun : d.run s = (.ok a, t)) (hle : t.offset ≤ place) (bytes : Bytes) :
    d.run (s.splice place bytes) = (.ok a, t.splice place bytes) := by
  have hreach := reaches_of_run hrun
  rw [h hrun _ _ (hreach.ahead_splice hle), ← hreach.splice_eq_advance hle]

/-- **An entry in front of the place** is read as it was, unless it is a padding. -/
theorem Entry.Read.splice {registry : Registry} {chain : Chain} {s t : Source} {entry : Entry}
    {place : Nat} (h : Entry.Read registry chain s entry t) (hregistry : registry.SelfDelimiting)
    (hentry : ∀ length, entry ≠ .padding length) (hle : t.offset ≤ place) (bytes : Bytes) :
    Entry.Read registry chain (s.splice place bytes) entry (t.splice place bytes) := by
  cases h with
  | @message metadata text u _ hheader hpayload =>
    have hoffset := (Decoder.reaches_of_run hpayload).offset_eq
    exact .message
      ((Metadata.plain_decode chain).selfDelimiting.determined.splice hheader (by omega) bytes)
      ((hregistry _).determined.splice hpayload hle bytes)
  | checkpoint hbody =>
    exact .checkpoint (Checkpoint.plain_decode.selfDelimiting.determined.splice hbody hle bytes)
  | padding => exact absurd rfl (hentry _)

/-! ### Silent bytes -/

/-- Bytes that no message depends on: zeros, or a checkpoint that leaves the rate as it is. -/
inductive Silent (conversion : TimeConversion) : Bytes → Prop
  | zeros (n : Nat) : Silent conversion (List.replicate n 0)
  | checkpoint {c : Checkpoint}
      (keepsRate : conversion.followsCheckpoints = true → c.hasUsableRate = false) :
      Silent conversion c.encode

namespace Replayer

variable {r s : Replayer} {told : List Event} {bytes : Bytes} {place : Nat}

/-- The replay of a log with `bytes` put in at offset `place`. -/
def splice (r : Replayer) (place : Nat) (bytes : Bytes) : Replayer :=
  r.withSource (r.source.splice place bytes)

/-- Bytes that are put in ahead do not end a replay. -/
theorem Running.splice (h : r.Running) (place : Nat) (bytes : Bytes) :
    (r.splice place bytes).Running :=
  ⟨h.phase, h.below, h.running⟩

/-- Silent bytes ahead leave no trace. -/
theorem Running.digest_of_silent (h : r.Running) (hregistry : r.registry.Plain)
    (hending : r.source.ending = .endOfStream) (hbytes : Silent r.config.conversion bytes)
    {rest : Bytes} (hahead : r.source.ahead = bytes ++ rest) :
    r.digest = (r.withSource (r.source.advance bytes.length)).digest := by
  -- a run of zeros may merge with zeros that follow; a checkpoint is an entry of its own
  cases hbytes with
  | zeros n =>
    rw [List.length_replicate]
    exact h.digest_skip hregistry hending hahead
  | @checkpoint c hrate =>
    refine h.digest_of_ignored hregistry hending
      (.checkpoint (Checkpoint.consumes_encode c r.source rest hahead)) ?_
    show r.rateAfter c = r.rate
    rw [rateAfter, if_neg]
    simpa using hrate

/-- **Silent bytes in front of the next entry** push back what is told, and change nothing else. -/
theorem Running.digest_splice_offset (h : r.Running) (hregistry : r.registry.Plain)
    (hending : r.source.ending = .endOfStream) (hbytes : Silent r.config.conversion bytes) :
    (r.splice r.source.offset bytes).digest = r.digest.shift bytes.length := by
  have hahead : (r.splice r.source.offset bytes).source.ahead = bytes ++ r.source.ahead :=
    Source.ahead_splice_offset
  have hbehind : (r.splice r.source.offset bytes).withSource
      ((r.splice r.source.offset bytes).source.advance bytes.length) =
        r.recount bytes.length r.padBytes r.checkpoints := by
    have hsource : (r.source.splice r.source.offset bytes).advance bytes.length =
        (Relocation.shift bytes.length).move r.source :=
      (Source.mk.injEq ..).mpr ⟨Source.ahead_advance_of_append hahead, rfl, rfl⟩
    rw [Replayer.splice, withSource, withSource, hsource]
    rfl
  rw [(h.splice _ bytes).digest_of_silent hregistry hending hbytes hahead, hbehind,
    digest_recount r hregistry hending]

/-- A padding in front of the place leaves no trace, also if it goes on with the bytes put in. -/
theorem Running.digest_splice_of_padding (h : r.Running) (hregistry : r.registry.Plain)
    (hending : r.source.ending = .endOfStream) {length : Nat} {u : Source}
    (hread : Entry.Read r.registry r.chain r.source (.padding length) u) (hle : u.offset ≤ place) :
    (r.splice place bytes).digest = ((r.after (.padding length) u).splice place bytes).digest := by
  have hreach := hread.reaches
  have hignored : r.Ignores (.padding length) := trivial
  obtain ⟨p, c, hafter⟩ := h.exists_after_of_ignored hignored u
  have hbehind : (r.after (.padding length) u).splice place bytes =
      ((r.splice place bytes).withSource (u.splice place bytes)).recount 0 p c := by
    rw [hafter]
    rfl
  have hending' : u.ending = .endOfStream := by rw [hreach.eq_advance]; exact hending
  rw [hbehind, digest_recount ((r.splice place bytes).withSource (u.splice place bytes)) hregistry
    hending', Digest.shift_zero]
  cases hread with
  | padding hpos hahead hlast _ =>
    have hread : r.source.readTo (r.source.advance length) = List.replicate length 0 :=
      Source.readTo_advance_zeros hahead
    have hzeros : (r.splice place bytes).source.ahead = _ := hreach.ahead_splice hle
    rw [hread] at hzeros
    rw [hreach.splice_eq_advance hle, hread, List.length_replicate]
    -- all zeros of the padding still lie ahead, whatever has been put in behind them
    exact (h.splice place bytes).digest_skip hregistry hending hzeros

/-- **Silent bytes between two entries** push back what is told, and change nothing else. -/
theorem Tells.digest_splice (h : Tells r told s) (hr : r.Running) (hs : s.Running)
    (hregistry : r.registry.Plain) (hending : r.source.ending = .endOfStream)
    (hbytes : Silent r.config.conversion bytes) :
    (r.splice s.source.offset bytes).digest = r.digest.shift bytes.length := by
  induction h with
  | refl r => exact hr.digest_splice_offset hregistry hending hbytes
  | @step r n s event events first rest ih =>
    have hn : n.Running := (hr.of_event first).resolve_right fun hn => rest.not_stopped hs hn.1
    have hending' := (Tells.single first).ending_eq.trans hending
    obtain ⟨-, entry, u, hread, rfl, rfl⟩ := next_eq_event_iff.mp first
    have hle : u.offset ≤ s.source.offset := source_after r entry u ▸ rest.offset_le
    have ih := ih hn hs (by rwa [registry_after]) hending' (by rwa [config_after])
    rw [digest_of_event first, Digest.shift_tell, ← ih]
    by_cases hentry : ∀ length, entry ≠ .padding length
    · -- the entry is read as it was
      have hnext := next_of_read (r := r.splice s.source.offset bytes) hr.isTerminal_eq
        (hread.splice (fun id => (hregistry id).selfDelimiting) hentry hle bytes)
      have hafter : (r.splice s.source.offset bytes).after entry (u.splice s.source.offset bytes) =
          (r.after entry u).splice s.source.offset bytes := by
        rw [Replayer.splice, Replayer.splice, after_withSource, source_after]
      rw [digest_of_event hnext, hafter]
      cases entry <;> rfl
    · -- a padding may end where the bytes begin, and goes on with their zeros
      obtain ⟨length, rfl⟩ : ∃ length, entry = .padding length := by simpa using hentry
      rw [hr.digest_splice_of_padding hregistry hending hread hle]
      rfl

/-- **Padding and checkpoints are transparent.** Silent bytes put in between two entries of a log
    leave every message as it was, and the way in which the replay ends. An error is about an entry
    behind them, which begins so many bytes later. -/
theorem digest_insert (catalog : Catalog) (showOrigin : Bool) (config : ReplayConfig)
    (hconfig : config.check = .ok ()) (bytes : Bytes) (n : Nat)
    (hphase : ((start (.ofBytes bytes) (catalog.registry showOrigin) config).calls n).phase =
      .scanning)
    (inserted : Bytes) (hinserted : Silent config.conversion inserted) :
    let registry := catalog.registry showOrigin
    let replay := start (.ofBytes bytes) registry config
    let place := (replay.calls n).source.offset
    (start (.ofBytes (bytes.take place ++ inserted ++ bytes.drop place)) registry config).digest =
        replay.digest.shift inserted.length ∧
      ∀ error ∈ replay.digest.errors, place ≤ error.entryOffset := by
  intro registry replay place
  have hregistry : replay.registry.Plain := catalog.plain_decode showOrigin
  have hreplay : replay.Running := running_start hconfig
  -- the place lies behind what the calls before have told
  have hopen : (replay.calls n).phase.isTerminal = false := by
    rw [show (replay.calls n).phase = .scanning from hphase]
    rfl
  obtain ⟨told, htells⟩ := exists_tells_calls hopen
  have hrunning := htells.running_of_not_terminal hreplay hopen
  refine ⟨htells.digest_splice hreplay hrunning hregistry rfl hinserted, fun error herror => ?_⟩
  rw [htells.errors_eq] at herror
  exact offset_le_of_mem_errors herror

/-- A checkpoint without a usable rate, between a message and another one that is cut short. -/
theorem digest_insert_of_unusable_rate :
    let catalog : Catalog := ({} : Catalog).insert ⟨7⟩
      ({ id := ⟨7⟩, format := "%d%s" },
        { source := "%d%s"
          pieces := [.directive { conversion := .decimal }, .directive { conversion := .text }] })
    let config : ReplayConfig := { limit := some 2, conversion := .checkpoints defaultRate }
    let bytes : Bytes := [0x15, 7, 100, 1, 5, 0x68, 0x69, 0, 0, 0, 0x11, 3, 1]
    let inserted := ({ cycleCounter := 100, unixTime := 5, rate := ⟨0⟩ } : Checkpoint).encode
    let replay := start (.ofBytes bytes) (catalog.registry false) config
    let place := (replay.calls 1).source.offset
    config.check = .ok () ∧ (replay.calls 1).phase = .scanning ∧
      Silent config.conversion inserted ∧ place = 8 ∧ replay.digest.errors.length = 1 ∧
      (start (.ofBytes (bytes.take place ++ inserted ++ bytes.drop place))
        (catalog.registry false) config).digest = replay.digest.shift inserted.length := by
  intro catalog config bytes inserted replay place
  have hconfig : config.check = .ok () := by decide +kernel
  have hphase : (replay.calls 1).phase = .scanning := by decide +kernel
  have hinserted : Silent config.conversion inserted := .checkpoint fun _ => by decide
  have hplace : place = 8 := by decide +kernel
  have herrors : replay.digest.errors.length = 1 := by decide +kernel
  exact ⟨hconfig, hphase, hinserted, hplace, herrors,
    (digest_insert catalog false config hconfig bytes 1 hphase inserted hinserted).1⟩

end Replayer

end BinaryLog
