import BinaryLog.Proofs.Decoder.Plain
import BinaryLog.Proofs.Replay.Running

namespace BinaryLog

/-!
# Replays in other surroundings

A replay with plain routines reads the same entries wherever the bytes ahead stand. Only a padding
sees the end of the stream, since that is where it ends.

* `Registry.Plain`, the registries all of whose routines are plain;
* `Entry.Read.move`, an entry is read in other surroundings as it was;
* `Replayer.next_move` and `Replayer.next_move_of_error`, so is what a call tells.
-/

/-- Whatever a registry reads is read by plain requests. -/
def Registry.Plain (registry : Registry) : Prop := ∀ id, (registry.decode id).Plain

namespace Entry

variable {registry : Registry} {chain : Chain} {s t : Source} {entry : Entry}

/-- Every entry but padding is read by plain requests. -/
theorem plain_decode (hregistry : registry.Plain) {b : UInt8} (hb : b ≠ 0) :
    (decode registry chain (EntryKind.ofByte b)).Plain := by
  cases hkind : EntryKind.ofByte b with
  | message =>
    rw [decode_message]
    refine (Metadata.plain_decode chain).bind fun metadata => ?_
    exact (hregistry _).bind fun text => .succeed _
  | checkpoint => exact Checkpoint.plain_decode.map _
  | invalid c =>
    have hc : c = b := by
      unfold EntryKind.ofByte at hkind
      split at hkind
      · cases hkind
      · split at hkind <;> cases hkind
        rfl
    rw [hc, decode, if_neg hb]
    exact .fail rfl

/-- **An entry is read in other surroundings** as it was. For a padding that ends with the bytes,
    the stream has to end there too. -/
theorem Read.move (h : Read registry chain s entry t) (hregistry : registry.Plain) (m : Relocation)
    (hend : ∀ length, entry = .padding length → t.ahead = [] →
      (m.move s).ending = .endOfStream) :
    Read registry chain (m.move s) entry (m.move t) := by
  cases h with
  | message hheader hpayload =>
    exact .message ((Metadata.plain_decode chain).relocatable.run_ok m hheader)
      ((hregistry _).relocatable.run_ok m hpayload)
  | checkpoint hbody => exact .checkpoint (Checkpoint.plain_decode.relocatable.run_ok m hbody)
  | @padding length rest hpos hahead hlast hending =>
    have hrest : (s.advance length).ahead = rest := Source.ahead_advance_zeros hahead
    rw [m.move_advance]
    exact .padding hpos (m.ahead_move s ▸ hahead) hlast
      fun hnil => hend length rfl (hrest.trans hnil)

/-- A run of zeros in a stream without a failure is read. -/
theorem exists_read_padding {bs : Bytes} (hahead : s.ahead = 0 :: bs)
    (hending : s.ending = .endOfStream) :
    ∃ length, Read registry chain s (.padding length) (s.advance length) := by
  obtain ⟨length, rest, hzeros, hlast⟩ := exists_zeros s.ahead
  refine ⟨length, .padding ?_ hzeros hlast fun _ => hending⟩
  apply Nat.pos_of_ne_zero
  rintro rfl
  exact hlast (by simpa [hahead] using congrArg List.head? hzeros.symm)

end Entry

namespace Replayer

variable {r s : Replayer} {entry : Entry} {u : Source}

/-- The replay with its source in other surroundings. -/
def move (r : Replayer) (m : Relocation) : Replayer := r.withSource (m.move r.source)

/-- An entry does to a replay what it does to the replay elsewhere. -/
theorem after_move (r : Replayer) (entry : Entry) (u : Source) (m : Relocation) :
    (r.move m).after entry (m.move u) = (r.after entry u).move m := by
  rw [move, move, after_withSource r _ entry u, source_after]

/-- **What a call tells in other surroundings** is the same entry. -/
theorem next_move (hphase : r.phase.isTerminal = false)
    (hread : Entry.Read r.registry r.chain r.source entry u) (hregistry : r.registry.Plain)
    (m : Relocation) (hend : ∀ length, entry = .padding length → u.ahead = [] →
      (m.move r.source).ending = .endOfStream) :
    (r.move m).next = (.ok (some ((r.move m).told entry)), (r.after entry u).move m) := by
  rw [next_of_read (r := r.move m) hphase (hread.move hregistry m hend), after_move]

/-- Without a failure of the device, a call fails for an entry that is no padding. -/
theorem next_eq_error_of_ended {error : ReplayError} (h : r.next = (.error error, s))
    (hending : r.source.ending = .endOfStream) :
    r.phase.isTerminal = false ∧ ∃ b bs cause u, r.source.ahead = b :: bs ∧ b ≠ 0 ∧
      (Entry.decode r.registry r.chain (EntryKind.ofByte b)).run r.source = (.error cause, u) ∧
      error = r.errorAt r.source.offset cause ∧ s = { r with source := u, phase := .failed } := by
  obtain ⟨hphase, cause, u, rfl, rfl, ⟨-, -, reason, hfault, -⟩ | ⟨b, bs, hahead, hrun⟩⟩ :=
    next_eq_error h
  · rw [hending] at hfault
    cases hfault
  · refine ⟨hphase, b, bs, cause, u, hahead, ?_, hrun, rfl, rfl⟩
    rintro rfl
    obtain ⟨length, hread⟩ : ∃ length, Entry.Read r.registry r.chain r.source (.padding length)
        (r.source.advance length) := Entry.exists_read_padding hahead hending
    rw [next_of_read hphase hread] at h
    cases h

/-- What a call fails with in other surroundings, if not for the device. -/
theorem next_move_of_error {error : ReplayError} (h : r.next = (.error error, s))
    (hregistry : r.registry.Plain) (hending : r.source.ending = .endOfStream) (m : Relocation) :
    (r.move m).next =
      (.error (r.errorAt (m.move r.source).offset (m.report error.cause)), s.move m) := by
  obtain ⟨hphase, b, bs, cause, u, hahead, hb, hrun, rfl, rfl⟩ := next_eq_error_of_ended h hending
  exact next_of_failure (r := r.move m) hphase ((m.ahead_move _).trans hahead)
    ((Entry.plain_decode hregistry hb).relocatable.run_error m hrun)

end Replayer

end BinaryLog
