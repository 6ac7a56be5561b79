import BinaryLog.Proofs.Entry.Cutting

namespace BinaryLog

/-!
# Entries in front of other bytes

Two sources agree up to an offset if they are the same once they are cut there. What is read in
front of that offset is read from both in the same way, unless a routine looks past what it reads.

* `Decoder.AgreesUpTo`, a decoder sees no difference between two sources up to an offset;
* `Decoder.Determined.agreesUpTo`, this holds where success depends on nothing but the bytes read,
  and `Registry.Determined`, the registries all of whose routines are so;
* `Entry.Read.of_agreesUpTo`, an entry in front of the offset is read from both sources.
-/

variable {s t u : Source} {limit n : Nat}

/-! ### Sources that agree -/

namespace Source

/-- What is ahead is what the cut leaves, and then the rest. -/
theorem ahead_eq_cut_append (s : Source) (limit : Nat) :
    s.ahead = (s.cut limit).ahead ++ s.ahead.drop (limit - s.offset) :=
  (List.take_append_drop _ _).symm

theorem offset_eq_of_cut_eq (h : t.cut limit = s.cut limit) : t.offset = s.offset := by
  rw [← offset_cut t limit, h, offset_cut]

/-- What is read from one source in front of the offset is ahead in the other. -/
theorem exists_ahead_eq (h : t.cut limit = s.cut limit) (hreach : s.Reaches u)
    (hle : u.offset ≤ limit) : ∃ rest, t.ahead = s.readTo u ++ rest := by
  rw [t.ahead_eq_cut_append limit, h, hreach.ahead_cut hle, List.append_assoc]
  exact ⟨_, rfl⟩

/-- Streams that agree up to a limit still do after the same step. -/
theorem cut_advance_eq (h : t.cut limit = s.cut limit) (n : Nat) :
    (t.advance n).cut limit = (s.advance n).cut limit := by
  rw [cut_advance, cut_advance, h]

end Source

namespace Decoder

variable {α : Type} {d : Decoder α}

/-- What `d` reads from `s` up to offset `limit`, it reads in the same place of `t` as well. -/
def AgreesUpTo (d : Decoder α) (limit : Nat) (s t : Source) : Prop :=
  ∀ (n : Nat) (a : α) (u : Source), d.run (s.advance n) = (.ok a, u) → u.offset ≤ limit →
    d.run (t.advance n) = (.ok a, t.advance (u.offset - s.offset))

/-- **A decoder that looks at nothing but what it reads** sees no difference. -/
theorem Determined.agreesUpTo (h : d.Determined) (hcut : t.cut limit = s.cut limit) :
    d.AgreesUpTo limit s t := by
  intro n a u hrun hle
  have hreach := reaches_of_run hrun
  have hoffset : u.offset = s.offset + n + ((s.advance n).readTo u).length := hreach.offset_eq
  obtain ⟨rest, hrest⟩ := Source.exists_ahead_eq (Source.cut_advance_eq hcut n) hreach hle
  rw [h hrun _ rest hrest, Source.advance_advance]
  rw [show u.offset - s.offset = n + ((s.advance n).readTo u).length by omega]

end Decoder

/-- The outcome of every routine depends only on the bytes it reads. -/
def Registry.Determined (registry : Registry) : Prop :=
  ∀ id routine, registry.get? id = some routine → (routine id).Determined

/-- A payload is read by a routine that is determined by what it reads, or is of an unknown format.
    -/
theorem Registry.Determined.decode {registry : Registry} (h : registry.Determined)
    (id : FormatId) : (registry.decode id).Determined := by
  intro s u text hrun t rest ht
  obtain ⟨routine, hget, hroutine⟩ := Registry.run_decode_eq_ok_iff.mp hrun
  exact Registry.run_decode_eq_ok_iff.mpr ⟨routine, hget, h id routine hget hroutine t rest ht⟩

/-! ### Entries -/

namespace Entry

variable {registry : Registry} {chain : Chain} {entry : Entry}

/-- A padding is read from both sources if the byte behind it is in front of the offset. -/
theorem Read.padding_of_cut_eq {length : Nat} (h : Read registry chain s (.padding length) u)
    (hcut : t.cut limit = s.cut limit) (hlt : u.offset < limit) (hne : u.ahead ≠ []) :
    Read registry chain t (.padding length) (t.advance length) := by
  have hreach := h.reaches
  cases h with
  | @padding _ rest hpos hahead hlast hending =>
    have hread : s.readTo (s.advance length) = List.replicate length 0 :=
      Source.readTo_advance_zeros hahead
    have hrest : (s.advance length).ahead = rest := Source.ahead_advance_zeros hahead
    obtain ⟨b, bs, rfl⟩ := List.exists_cons_of_ne_nil (hrest ▸ hne)
    -- the byte behind the zeros is the same one
    have hnext : ((s.advance length).cut limit).ahead =
        b :: bs.take (limit - (s.advance length).offset - 1) := by
      rw [Source.cut, hrest, List.take_cons (by omega)]
    have hthere : t.ahead = List.replicate length 0 ++
        ((b :: bs.take (limit - (s.advance length).offset - 1)) ++
          t.ahead.drop (limit - t.offset)) := by
      rw [← hnext, ← hread, ← List.append_assoc, ← hreach.ahead_cut (Nat.le_of_lt hlt), ← hcut]
      exact t.ahead_eq_cut_append limit
    exact .padding hpos hthere (by simpa using hlast) (by simp)

/-- **An entry in front of the offset** is read from both sources. -/
theorem Read.of_agreesUpTo (h : Read registry chain (s.advance n) entry u)
    (hcut : t.cut limit = s.cut limit)
    (hregistry : ∀ id, (registry.decode id).AgreesUpTo limit s t) (hle : u.offset ≤ limit)
    (hpadding : ∀ length, entry = .padding length → u.offset < limit ∧ u.ahead ≠ []) :
    Read registry chain (t.advance n) entry (t.advance (u.offset - s.offset)) := by
  have hreach := h.reaches
  cases h with
  | @message metadata text v _ hheader hpayload =>
    have hv := Decoder.reaches_of_run hheader
    have hpart : v.offset = s.offset + n + ((s.advance n).readTo v).length := hv.offset_eq
    have hbehind := (Decoder.reaches_of_run hpayload).offset_eq
    -- the payload begins as far from the start of both sources
    have hplace : v = s.advance (v.offset - s.offset) := by
      rw [show v.offset - s.offset = n + ((s.advance n).readTo v).length by omega,
        ← Source.advance_advance]
      exact hv.eq_advance
    have hmetadata := (Metadata.plain_decode chain).selfDelimiting.determined.agreesUpTo hcut n _ _
      hheader (by omega)
    rw [hplace] at hpayload
    exact .message hmetadata (hregistry _ _ _ _ hpayload hle)
  | checkpoint hbody =>
    exact .checkpoint
      (Checkpoint.plain_decode.selfDelimiting.determined.agreesUpTo hcut n _ _ hbody hle)
  | @padding length rest hpos hahead hlast hending =>
    obtain ⟨hlt, hne⟩ := hpadding length rfl
    have hplace : (s.advance n).advance length = s.advance (n + length) :=
      s.advance_advance n length
    have hpart : Read registry chain (s.advance n) (.padding length)
        ((s.advance n).advance length) := .padding hpos hahead hlast hending
    have hread := hpart.padding_of_cut_eq (Source.cut_advance_eq hcut n) hlt hne
    rw [Source.advance_advance] at hread
    rw [hplace, show (s.advance (n + length)).offset - s.offset = n + length from
      Nat.add_sub_cancel_left _ _]
    exact hread

end Entry

end BinaryLog
