import BinaryLog.Proofs.Entry.Reading

namespace BinaryLog

/-!
# Entries in a stream that is cut

What becomes of an entry if the stream ends earlier than it did.

* `Source.cut`, the source that ends at a given offset;
* `Entry.Read.cut`, an entry before the cut is read as it was;
* `Entry.Read.cut_padding`, a padding that the cut goes through is read as far as it is left;
* `Entry.Read.cut_fallsShort`, any other entry that the cut goes through is noticed.
-/

/-! ### Sources -/

namespace Source

variable {s t : Source} {limit : Nat}

/-- The source whose stream ends at offset `limit`, if it does not end before. -/
def cut (s : Source) (limit : Nat) : Source :=
  { s with ahead := s.ahead.take (limit - s.offset), ending := .endOfStream }

@[simp] theorem offset_cut (s : Source) (limit : Nat) : (s.cut limit).offset = s.offset := rfl

/-- Whether the stream is cut before or after a step does not matter. -/
theorem cut_advance (s : Source) (n limit : Nat) :
    (s.advance n).cut limit = (s.cut limit).advance n := by
  simp only [cut, advance, List.drop_take, Nat.sub_sub]

/-- The bytes that are left up to the cut. -/
theorem length_ahead_cut (h : limit ≤ s.offset + s.ahead.length) :
    (s.cut limit).ahead.length = limit - s.offset := by
  rw [cut, List.length_take]
  omega

/-- Behind a cut nothing is left. -/
theorem ahead_cut_of_le (h : limit ≤ s.offset) : (s.cut limit).ahead = [] := by
  rw [cut, Nat.sub_eq_zero_of_le h, List.take_zero]

/-- What is read before the cut stands in front of what is left after it. -/
theorem Reaches.ahead_cut (h : s.Reaches t) (hle : t.offset ≤ limit) :
    (s.cut limit).ahead = s.readTo t ++ (t.cut limit).ahead := by
  have hoffset := h.offset_eq
  show s.ahead.take (limit - s.offset) = s.readTo t ++ t.ahead.take (limit - t.offset)
  rw [h.ahead_eq, List.take_append, List.take_of_length_le (by omega), hoffset, Nat.sub_sub]

/-- If the cut is in the middle of what is read, only a part of that is left. -/
theorem Reaches.ahead_cut_prefix (h : s.Reaches t) (hle : limit ≤ t.offset) :
    (s.cut limit).ahead <+: s.readTo t := by
  have hoffset := h.offset_eq
  show s.ahead.take (limit - s.offset) <+: s.readTo t
  rw [h.ahead_eq, List.take_append_of_le_length (by omega)]
  exact List.take_prefix _ _

/-- No more is read than was ahead. -/
theorem Reaches.length_le_offset (h : s.Reaches t) : t.offset ≤ s.offset + s.ahead.length := by
  rw [h.offset_eq, h.ahead_eq, List.length_append]
  omega

/-- A reader that finds too few bytes reports a truncation, unless the device failed. -/
theorem FallsShort.eq_truncated {α : Type} {outcome : Except DecodeError α × Source}
    (h : s.FallsShort outcome) (hending : s.ending = .endOfStream) :
    ∃ offset needed available,
      outcome = (.error (.truncated offset needed available), s.exhaust) ∧
        offset + available = s.offset + s.ahead.length ∧ available < needed := by
  obtain ⟨start, needed, hstart, hneeded, rfl⟩ := h
  have hlength : (s.advance start).ahead.length = s.ahead.length - start := List.length_drop
  refine ⟨(s.advance start).offset, needed, (s.advance start).ahead.length, ?_, ?_, ?_⟩
  · rw [shortfall, show (s.advance start).ending = s.ending from rfl, hending]
  · rw [hlength, show (s.advance start).offset = s.offset + start from rfl]
    omega
  · omega

end Source

/-- What a decoder reads before the cut, it reads as before. -/
theorem Decoder.Determined.cut {α : Type} {d : Decoder α} {s t : Source} {a : α} {limit : Nat}
    (h : d.Determined) (hrun : d.run s = (.ok a, t)) (hle : t.offset ≤ limit) :
    d.run (s.cut limit) = (.ok a, t.cut limit) := by
  have hreach := reaches_of_run hrun
  rw [h hrun _ _ (hreach.ahead_cut hle), ← Source.cut_advance, ← hreach.eq_advance]

/-! ### Entries -/

/-- Whatever a registry reads is delimited by itself. -/
def Registry.SelfDelimiting (registry : Registry) : Prop :=
  ∀ id, (registry.decode id).SelfDelimiting

namespace Entry

variable {registry : Registry} {chain : Chain} {s t : Source} {entry : Entry} {limit : Nat}

/-- Every entry but padding is delimited by itself. -/
theorem selfDelimiting_decode (hregistry : registry.SelfDelimiting) {kind : EntryKind}
    (hkind : ∀ b, kind ≠ .invalid b) : (decode registry chain kind).SelfDelimiting := by
  cases kind with
  | message =>
    rw [decode_message]
    refine (Metadata.plain_decode chain).selfDelimiting.bind fun metadata => ?_
    exact (hregistry _).bind fun text => Decoder.selfDelimiting_pure _
  | checkpoint => exact (Checkpoint.plain_decode.map _).selfDelimiting
  | invalid b => exact absurd rfl (hkind b)

/-- Only padding starts with a byte that starts nothing. -/
theorem Read.selfDelimiting (h : Read registry chain s entry t)
    (hregistry : registry.SelfDelimiting) (hentry : ∀ length, entry ≠ .padding length) :
    ∃ b bs, s.ahead = b :: bs ∧
      (decode registry chain (EntryKind.ofByte b)).SelfDelimiting ∧
      (decode registry chain (EntryKind.ofByte b)).run s = (.ok entry, t) := by
  obtain ⟨b, bs, hahead, hrun⟩ := h.decode_eq_ok
  refine ⟨b, bs, hahead, selfDelimiting_decode hregistry ?_, hrun⟩
  -- of the bytes that announce nothing, only a zero was read
  intro c hc
  rw [hc, decode] at hrun
  split at hrun
  · obtain ⟨length, -, rfl⟩ := Decoder.run_map_eq_ok hrun
    exact hentry length rfl
  · cases hrun

/-- **An entry before the cut** is read as it was. -/
theorem Read.cut (h : Read registry chain s entry t) (hregistry : registry.SelfDelimiting)
    (hle : t.offset ≤ limit) : Read registry chain (s.cut limit) entry (t.cut limit) := by
  have hreach := h.reaches
  cases h with
  | @message metadata text u _ hheader hpayload =>
    have hoffset := (Decoder.reaches_of_run hpayload).offset_eq
    exact .message ((Metadata.plain_decode chain).selfDelimiting.determined.cut hheader (by omega))
      ((hregistry _).determined.cut hpayload hle)
  | checkpoint hbody =>
    exact .checkpoint (Checkpoint.plain_decode.selfDelimiting.determined.cut hbody hle)
  | @padding length rest hpos hahead hlast hending =>
    have hread : s.readTo (s.advance length) = List.replicate length 0 :=
      Source.readTo_advance_zeros hahead
    rw [Source.cut_advance]
    refine .padding hpos (hread ▸ hreach.ahead_cut hle) ?_ fun _ => rfl
    have hrest : (s.advance length).ahead = rest := Source.ahead_advance_zeros hahead
    -- the byte after the zeros stays, unless the cut is right in front of it
    rw [Source.cut, hrest]
    cases rest with
    | nil => simp
    | cons b bs =>
      cases limit - (s.advance length).offset with
      | zero => simp
      | succ n => simpa using hlast

/-- **A padding that the cut goes through** is read as far as it is left. -/
theorem Read.cut_padding {length : Nat} (h : Read registry chain s (.padding length) t)
    (hlow : s.offset < limit) (hhigh : limit < t.offset) :
    Read registry chain (s.cut limit) (.padding (limit - s.offset)) ((s.cut limit).exhaust) := by
  have hreach := h.reaches
  cases h with
  | @padding _ rest hpos hahead hlast hending =>
    have hread : s.readTo (s.advance length) = List.replicate length 0 :=
      Source.readTo_advance_zeros hahead
    have hlength := Source.length_ahead_cut
      (Nat.le_trans (Nat.le_of_lt hhigh) hreach.length_le_offset)
    have hpart := hreach.ahead_cut_prefix (Nat.le_of_lt hhigh)
    rw [hread] at hpart
    -- nothing but zeros is left
    have hcut : (s.cut limit).ahead = List.replicate (limit - s.offset) 0 ++ [] := by
      rw [List.append_nil, List.eq_replicate_iff]
      exact ⟨hlength, fun b hb => List.eq_of_mem_replicate (hpart.subset hb)⟩
    rw [Source.exhaust, hlength]
    exact .padding (by omega) hcut (by simp) fun _ => rfl

/-- **Any other entry that the cut goes through** is noticed. -/
theorem Read.cut_fallsShort (h : Read registry chain s entry t)
    (hregistry : registry.SelfDelimiting) (hentry : ∀ length, entry ≠ .padding length)
    (hlow : s.offset < limit) (hhigh : limit < t.offset) :
    ∃ b bs, (s.cut limit).ahead = b :: bs ∧ (s.cut limit).FallsShort
      ((decode registry chain (EntryKind.ofByte b)).run (s.cut limit)) := by
  obtain ⟨b, bs, hahead, hdelimiting, hrun⟩ := h.selfDelimiting hregistry hentry
  have hreach := h.reaches
  refine ⟨b, bs.take (limit - s.offset - 1), ?_, ?_⟩
  · rw [Source.cut, hahead, List.take_cons (by omega)]
  · refine hdelimiting.fallsShort hrun _ (hreach.ahead_cut_prefix (Nat.le_of_lt hhigh)) ?_
    have hoffset := hreach.offset_eq
    rw [Source.length_ahead_cut (Nat.le_trans (Nat.le_of_lt hhigh) hreach.length_le_offset)]
    omega

end Entry

end BinaryLog
