import BinaryLog.Decoder
import BinaryLog.Proofs.Width
import Mathlib.Data.List.TakeWhile

namespace BinaryLog

/-!
# What decoders consume

What a decoder does on a whole stream follows from what it does with the bytes that it reads. This
module says so in both directions.

* `Source.readTo`, the bytes between two states of a source;
* `Decoder.Consumes d bytes a`, in front of anything `d` reads exactly `bytes` and yields `a`, with
  one lemma for each request and `Consumes.bind` for their composition;
* `Decoder.Refuses d bytes error`, in front of anything `d` reads exactly `bytes` and fails;
* `Decoder.SelfDelimiting`, the decoders whose success depends on nothing but the bytes they read,
  and which notice when these are cut short;
* `Decoder.run_zeros` and `Decoder.run_zeros_of_fault`, the two ways in which a run of zeros ends.
-/

/-! ### Bytes between two states -/

namespace Source

/-- The bytes that are read on the way from `s` to `t`. -/
def readTo (s t : Source) : Bytes := s.ahead.take (t.offset - s.offset)

/-- Advancing by `n` bytes reads the next `n`, or all if there are fewer. -/
theorem readTo_advance (s : Source) (n : Nat) : s.readTo (s.advance n) = s.ahead.take n := by
  simp [readTo, advance]

@[simp] theorem readTo_self (s : Source) : s.readTo s = [] := by
  simp [readTo]

/-- What is ahead is what will be read up to a later state, and then what is ahead there. -/
theorem Reaches.ahead_eq {s t : Source} (h : s.Reaches t) : s.ahead = s.readTo t ++ t.ahead := by
  obtain ⟨n, _, rfl⟩ := h
  rw [readTo_advance]
  exact (List.take_append_drop n s.ahead).symm

/-- A later state is told by how much is read up to it. -/
theorem Reaches.eq_advance {s t : Source} (h : s.Reaches t) :
    t = s.advance (s.readTo t).length := by
  obtain ⟨n, hn, rfl⟩ := h
  rw [readTo_advance, List.length_take, Nat.min_eq_left hn]

/-- The offset counts the bytes that are read. -/
theorem Reaches.offset_eq {s t : Source} (h : s.Reaches t) :
    t.offset = s.offset + (s.readTo t).length := by
  rw [h.eq_advance, readTo_advance]
  simp [advance, h.ahead_eq]

/-- Reading on reads more. -/
theorem Reaches.readTo_append {s t u : Source} (h : s.Reaches t) (h' : t.Reaches u) :
    s.readTo u = s.readTo t ++ t.readTo u := by
  -- both sides stand in front of the same rest
  apply (List.append_left_inj u.ahead).mp
  rw [← (h.trans h').ahead_eq, List.append_assoc, ← h'.ahead_eq, ← h.ahead_eq]

/-- Behind bytes that are ahead, the rest is ahead. -/
theorem ahead_advance_of_append {s : Source} {bytes rest : Bytes} (h : s.ahead = bytes ++ rest) :
    (s.advance bytes.length).ahead = rest := by
  simp [advance, h]

/-- Where the bytes that are left run out does not depend on how many were read before. -/
theorem exhaust_advance {s : Source} {n : Nat} (h : n ≤ s.ahead.length) :
    (s.advance n).exhaust = s.exhaust := by
  rw [exhaust, exhaust, advance_advance]
  simp only [advance, List.length_drop]
  rw [Nat.add_sub_cancel' h]

/-- The outcome of a reader that finds too few bytes: it reads all that are ahead, and fails with
    the shortfall of a request that began among them and asked for more. -/
def FallsShort {α : Type} (s : Source) (outcome : Except DecodeError α × Source) : Prop :=
  ∃ start needed, start ≤ s.ahead.length ∧ s.ahead.length < start + needed ∧
    outcome = (.error ((s.advance start).shortfall needed), s.exhaust)

end Source

namespace Decoder

variable {α β : Type}

/-! ### Consuming given bytes -/

/-- In front of anything, `d` reads exactly `bytes` and yields `a`. -/
def Consumes (d : Decoder α) (bytes : Bytes) (a : α) : Prop :=
  ∀ (s : Source) (rest : Bytes), s.ahead = bytes ++ rest →
    d.run s = (.ok a, s.advance bytes.length)

theorem consumes_pure (a : α) : (pure a : Decoder α).Consumes [] a := by
  intro s rest _
  rw [run_pure, List.length_nil, Source.advance_zero]

/-- **Composition.** What two decoders consume in turn is consumed by both together. -/
theorem Consumes.bind {d : Decoder α} {f : α → Decoder β} {bytes more : Bytes} {a : α} {b : β}
    (h : d.Consumes bytes a) (h' : (f a).Consumes more b) :
    (d >>= f).Consumes (bytes ++ more) b := by
  intro s rest hs
  rw [List.append_assoc] at hs
  rw [run_bind_ok (h s _ hs), h' _ rest (Source.ahead_advance_of_append hs), List.length_append,
    Source.advance_advance]

/-- A second part that reads nothing leaves the bytes as they are. -/
theorem Consumes.bind_nil {d : Decoder α} {f : α → Decoder β} {bytes : Bytes} {a : α} {b : β}
    (h : d.Consumes bytes a) (h' : (f a).Consumes [] b) : (d >>= f).Consumes bytes b := by
  rw [← List.append_nil bytes]
  exact h.bind h'

/-- What is made of a value does not change what is read for it. -/
theorem Consumes.map {d : Decoder α} {bytes : Bytes} {a : α} (h : d.Consumes bytes a)
    (f : α → β) : (f <$> d).Consumes bytes (f a) := by
  rw [← bind_pure_comp]
  exact h.bind_nil (consumes_pure (f a))

/-- A request for bytes reads as many and yields them. -/
theorem consumes_bytes (bytes : Bytes) : (Decoder.bytes bytes.length).Consumes bytes bytes := by
  intro s rest hs
  simp [Decoder.bytes, hs]

/-- A request for one byte reads it and yields it. -/
theorem consumes_byte (b : UInt8) : byte.Consumes [b] b := by
  intro s rest hs
  simp [byte, hs]

/-- A byte in front of what the rest of a decoder consumes. -/
theorem Consumes.byte_bind {f : UInt8 → Decoder β} {b : UInt8} {more : Bytes} {a : β}
    (h : (f b).Consumes more a) : (byte >>= f).Consumes (b :: more) a :=
  (consumes_byte b).bind h

/-- A field that is wide enough gives its number back. -/
theorem consumes_word {width value : Nat} (h : value < Word.capacity width) :
    (word width).Consumes (Word.toBytes width value) (UInt64.ofNat value) := by
  have hbytes := (consumes_bytes (Word.toBytes width value)).map
    fun bytes => UInt64.ofNat (Word.ofBytes bytes)
  rw [Word.length_toBytes, Word.ofBytes_toBytes_of_lt h, ← bind_pure_comp] at hbytes
  exact hbytes

/-- A text without zeros is read together with the zero that ends it, and yielded without. -/
theorem consumes_untilZero {text : Bytes} (h : ∀ b ∈ text, b ≠ 0) :
    untilZero.Consumes (text ++ [0]) text := by
  intro s rest hs
  have htake : s.ahead.takeWhile (· != 0) = text := by
    rw [hs, List.append_assoc, List.takeWhile_append_of_pos (by simpa using h)]
    simp
  have hlt : text.length < s.ahead.length := by
    rw [hs]
    simp
  simp [untilZero, htake, hlt]

/-! ### Refusing given bytes -/

/-- In front of anything, `d` reads exactly `bytes` and fails with `error`. -/
def Refuses (d : Decoder α) (bytes : Bytes) (error : DecodeError) : Prop :=
  ∀ (s : Source) (rest : Bytes), s.ahead = bytes ++ rest →
    d.run s = (.error error, s.advance bytes.length)

theorem refuses_fail (error : DecodeError) : (fail error : Decoder α).Refuses [] error := by
  intro s rest _
  rw [run_fail, List.length_nil, Source.advance_zero]

/-- What is refused after something was consumed is refused with that in front. -/
theorem Consumes.bind_refuses {d : Decoder α} {f : α → Decoder β} {bytes more : Bytes} {a : α}
    {error : DecodeError} (h : d.Consumes bytes a) (h' : (f a).Refuses more error) :
    (d >>= f).Refuses (bytes ++ more) error := by
  intro s rest hs
  rw [List.append_assoc] at hs
  rw [run_bind_ok (h s _ hs), h' _ rest (Source.ahead_advance_of_append hs), List.length_append,
    Source.advance_advance]

/-- A second part that reads nothing leaves the bytes as they are. -/
theorem Consumes.bind_refuses_nil {d : Decoder α} {f : α → Decoder β} {bytes : Bytes} {a : α}
    {error : DecodeError} (h : d.Consumes bytes a) (h' : (f a).Refuses [] error) :
    (d >>= f).Refuses bytes error := by
  rw [← List.append_nil bytes]
  exact h.bind_refuses h'

/-- What the first part refuses is refused before the second one reads. -/
theorem Refuses.bind {d : Decoder α} {bytes : Bytes} {error : DecodeError}
    (h : d.Refuses bytes error) (f : α → Decoder β) : (d >>= f).Refuses bytes error :=
  fun s rest hs => run_bind_error (h s rest hs)

/-! ### Self-delimiting decoders -/

/-- A decoder whose success depends on nothing but the bytes it reads. -/
def Determined (d : Decoder α) : Prop :=
  ∀ ⦃s t : Source⦄ ⦃a : α⦄, d.run s = (.ok a, t) → d.Consumes (s.readTo t) a

/-- A decoder that is determined by what it reads and notices when the bytes end within that. -/
structure SelfDelimiting (d : Decoder α) : Prop where
  determined : d.Determined
  fallsShort : ∀ ⦃s t : Source⦄ ⦃a : α⦄, d.run s = (.ok a, t) →
    ∀ u : Source, u.ahead <+: s.readTo t → u.ahead.length < (s.readTo t).length →
      u.FallsShort (d.run u)

/-- Decoders only go forward, whether they succeed or fail. -/
theorem reaches_of_run {d : Decoder α} {s t : Source} {outcome : Except DecodeError α}
    (h : d.run s = (outcome, t)) : s.Reaches t := by
  have hforward := d.forward s
  rwa [h] at hforward

/-- Mapping changes what is read, and not how. -/
theorem run_map (f : α → β) (d : Decoder α) (s : Source) :
    (f <$> d).run s = ((d.run s).1.map f, (d.run s).2) := by
  rw [← bind_pure_comp, run_bind]
  rcases d.run s with ⟨error | a, t⟩
  · rfl
  · rfl

theorem run_map_ok {d : Decoder α} {s t : Source} {a : α} (h : d.run s = (.ok a, t)) (f : α → β) :
    (f <$> d).run s = (.ok (f a), t) := by
  rw [run_map, h]
  rfl

theorem run_map_error {d : Decoder α} {s t : Source} {error : DecodeError}
    (h : d.run s = (.error error, t)) (f : α → β) : (f <$> d).run s = (.error error, t) := by
  rw [run_map, h]
  rfl

/-- Where a mapped decoder succeeds, so does the decoder. -/
theorem run_map_eq_ok {d : Decoder α} {f : α → β} {s t : Source} {b : β}
    (h : (f <$> d).run s = (.ok b, t)) : ∃ a, d.run s = (.ok a, t) ∧ b = f a := by
  rw [run_map] at h
  rcases hd : d.run s with ⟨error | a, u⟩ <;> rw [hd] at h <;> cases h
  exact ⟨a, rfl, rfl⟩

/-- What a composition does where it succeeds. -/
theorem run_bind_eq_ok {d : Decoder α} {f : α → Decoder β} {s u : Source} {b : β}
    (h : (d >>= f).run s = (.ok b, u)) :
    ∃ a t, d.run s = (.ok a, t) ∧ (f a).run t = (.ok b, u) := by
  rw [run_bind] at h
  split at h
  · rename_i a t hd
    exact ⟨a, t, hd, h⟩
  · cases h

/-- **Composition.** Parts that are determined by what they read make a whole that is. -/
theorem Determined.bind {d : Decoder α} {f : α → Decoder β} (h : d.Determined)
    (h' : ∀ a, (f a).Determined) : (d >>= f).Determined := by
  intro s u b hrun
  obtain ⟨a, t, hd, hf⟩ := run_bind_eq_ok hrun
  rw [(reaches_of_run hd).readTo_append (reaches_of_run hf)]
  exact (h hd).bind (h' a hf)

/-- A composition falls short where its first part does. -/
theorem fallsShort_bind_of_first {d : Decoder α} {f : α → Decoder β} {u : Source}
    (h : u.FallsShort (d.run u)) : u.FallsShort ((d >>= f).run u) := by
  obtain ⟨start, needed, hstart, hneeded, hrun⟩ := h
  exact ⟨start, needed, hstart, hneeded, run_bind_error hrun⟩

/-- A composition falls short where its second part does. -/
theorem fallsShort_bind_of_second {d : Decoder α} {f : α → Decoder β} {u : Source} {a : α}
    {n : Nat} (hn : n ≤ u.ahead.length) (hd : d.run u = (.ok a, u.advance n))
    (h : (u.advance n).FallsShort ((f a).run (u.advance n))) :
    u.FallsShort ((d >>= f).run u) := by
  obtain ⟨start, needed, hstart, hneeded, hrun⟩ := h
  have hlength : (u.advance n).ahead.length = u.ahead.length - n := List.length_drop
  -- the request of the second part began `start` bytes after the first part ended
  refine ⟨n + start, needed, by omega, by omega, ?_⟩
  rw [run_bind_ok hd, hrun, Source.advance_advance, Source.exhaust_advance hn]

/-- **Composition.** Bytes that end within what a composition reads end within what its first part
    reads, or within what its second part does; the part that notices makes the whole fall short. -/
theorem SelfDelimiting.bind {d : Decoder α} {f : α → Decoder β} (h : d.SelfDelimiting)
    (h' : ∀ a, (f a).SelfDelimiting) : (d >>= f).SelfDelimiting where
  determined := h.determined.bind fun a => (h' a).determined
  fallsShort := by
    intro s v b hrun u hpart hlt
    obtain ⟨a, t, hd, hf⟩ := run_bind_eq_ok hrun
    rw [(reaches_of_run hd).readTo_append (reaches_of_run hf)] at hpart hlt
    by_cases hfirst : u.ahead.length < (s.readTo t).length
    · -- the bytes end within what the first part reads
      refine fallsShort_bind_of_first (h.fallsShort hd u ?_ hfirst)
      exact List.prefix_of_prefix_length_le hpart (List.prefix_append _ _) (Nat.le_of_lt hfirst)
    · -- the first part is read as before, and the bytes end within what the second one reads
      have hle : (s.readTo t).length ≤ u.ahead.length := Nat.le_of_not_lt hfirst
      obtain ⟨rest, hrest⟩ := List.prefix_of_prefix_length_le
        (List.prefix_append (s.readTo t) (t.readTo v)) hpart hle
      have hahead : (u.advance (s.readTo t).length).ahead = rest :=
        Source.ahead_advance_of_append hrest.symm
      refine fallsShort_bind_of_second hle (h.determined hd u rest hrest.symm) ?_
      apply (h' a).fallsShort hf
      · rw [hahead]
        rwa [← hrest, List.prefix_append_right_inj] at hpart
      · rw [hahead]
        rw [← hrest, List.length_append, List.length_append] at hlt
        omega

/-- A value without reading is trivially self-delimiting. -/
theorem selfDelimiting_pure (a : α) : (pure a : Decoder α).SelfDelimiting where
  determined := by
    intro s t b h
    cases h
    rw [Source.readTo_self]
    exact consumes_pure a
  fallsShort := by
    intro s t b h u _ hlt
    -- nothing is read, so nothing can be missing
    cases h
    simp at hlt

/-- A decoder that never succeeds has nothing to be determined by. -/
theorem selfDelimiting_fail (error : DecodeError) : (fail error : Decoder α).SelfDelimiting where
  determined := by
    intro s t a h
    cases h
  fallsShort := by
    intro s t a h
    cases h

theorem run_bytes_of_le {n : Nat} {s : Source} (h : n ≤ s.ahead.length) :
    (bytes n).run s = (.ok (s.ahead.take n), s.advance n) := by
  simp only [bytes, if_pos h]

/-- A request for more than is ahead fails at once, and reads all that is left. -/
theorem run_bytes_of_lt {n : Nat} {s : Source} (h : s.ahead.length < n) :
    (bytes n).run s = (.error (s.shortfall n), s.exhaust) := by
  simp only [bytes, if_neg (Nat.not_le.mpr h)]

/-- What a request for `n` bytes does where it succeeds. -/
theorem run_bytes_eq_ok {n : Nat} {s t : Source} {read : Bytes}
    (h : (bytes n).run s = (.ok read, t)) : read.length = n ∧ s.readTo t = read := by
  simp only [bytes] at h
  split at h
  · rename_i hle
    cases h
    rw [Source.readTo_advance, List.length_take]
    exact ⟨Nat.min_eq_left hle, rfl⟩
  · cases h

/-- A request for a number of bytes is self-delimiting: fewer bytes are too few. -/
theorem selfDelimiting_bytes (n : Nat) : (bytes n).SelfDelimiting where
  determined := by
    intro s t read h
    obtain ⟨rfl, hread⟩ := run_bytes_eq_ok h
    rw [hread]
    exact consumes_bytes read
  fallsShort := by
    intro s t read h u _ hlt
    obtain ⟨hlength, hread⟩ := run_bytes_eq_ok h
    rw [hread, hlength] at hlt
    refine ⟨0, n, Nat.zero_le _, by omega, ?_⟩
    rw [run_bytes_of_lt hlt, Source.advance_zero]

/-- What a request for a word does where it succeeds. -/
theorem run_word_eq_ok {width : Nat} {s t : Source} {value : UInt64}
    (h : (word width).run s = (.ok value, t)) :
    (s.readTo t).length = width ∧ value.toNat < Word.capacity width := by
  obtain ⟨read, u, hbytes, hpure⟩ := run_bind_eq_ok h
  cases hpure
  obtain ⟨rfl, hread⟩ := run_bytes_eq_ok hbytes
  refine ⟨by rw [hread], ?_⟩
  rw [UInt64.toNat_ofNat']
  exact Nat.lt_of_le_of_lt (Nat.mod_le _ _) (Word.ofBytes_lt read)

/-- What a request for one byte does where it succeeds. -/
theorem run_byte_eq_ok {s t : Source} {b : UInt8} (h : byte.run s = (.ok b, t)) :
    s.readTo t = [b] := by
  simp only [byte] at h
  split at h <;> cases h
  rename_i hs
  rw [Source.readTo_advance, hs, List.take_succ_cons, List.take_zero]

/-- A request for one byte is self-delimiting. -/
theorem selfDelimiting_byte : byte.SelfDelimiting where
  determined := by
    intro s t b h
    rw [run_byte_eq_ok h]
    exact consumes_byte b
  fallsShort := by
    intro s t b h u _ hlt
    -- less than one byte is none
    rw [run_byte_eq_ok h, List.length_singleton, Nat.lt_one_iff, List.length_eq_zero_iff] at hlt
    refine ⟨0, 1, Nat.zero_le _, by simp [hlt], ?_⟩
    simp [byte, hlt, Source.exhaust, Source.advance_zero]

/-- What a request for the bytes up to the next zero does where it succeeds. -/
theorem run_untilZero_eq_ok {s t : Source} {text : Bytes} (h : untilZero.run s = (.ok text, t)) :
    s.readTo t = text ++ [0] ∧ ∀ b ∈ text, b ≠ 0 := by
  simp only [untilZero] at h
  split at h <;> cases h
  rename_i hlt
  refine ⟨?_, fun b hb => by simpa using List.all_eq_true.mp List.all_takeWhile b hb⟩
  -- what stops the run is a zero, as the bytes go on
  have hsplit := List.takeWhile_append_dropWhile (p := (· != 0)) (l := s.ahead)
  have hne : s.ahead.dropWhile (· != 0) ≠ [] := by
    intro hnil
    rw [hnil, List.append_nil] at hsplit
    rw [hsplit] at hlt
    exact Nat.lt_irrefl _ hlt
  have hhead := List.head_dropWhile_not (· != 0) hne
  obtain ⟨b, rest, hdrop⟩ := List.exists_cons_of_ne_nil hne
  have hb : b = 0 := by simpa [hdrop] using hhead
  rw [hdrop, hb] at hsplit
  rw [Source.readTo_advance]
  generalize s.ahead.takeWhile (· != 0) = text at hsplit ⊢
  rw [← hsplit, List.take_length_add_append, List.take_succ_cons, List.take_zero]

/-- A search for a zero is self-delimiting, as only the last byte that it reads is one. -/
theorem selfDelimiting_untilZero : untilZero.SelfDelimiting where
  determined := by
    intro s t text h
    obtain ⟨hread, hzero⟩ := run_untilZero_eq_ok h
    rw [hread]
    exact consumes_untilZero hzero
  fallsShort := by
    intro s t text h u hpart hlt
    obtain ⟨hread, hzero⟩ := run_untilZero_eq_ok h
    rw [hread] at hpart hlt
    have hnonzero : ∀ b ∈ u.ahead, b ≠ 0 := by
      intro b hb
      refine hzero b (List.IsPrefix.subset ?_ hb)
      rw [List.length_append, List.length_singleton] at hlt
      exact List.prefix_of_prefix_length_le hpart (List.prefix_append _ _) (by omega)
    -- the zero is cut off, so the search for it runs through all that is left
    have htake : u.ahead.takeWhile (· != 0) = u.ahead := by
      rw [List.takeWhile_eq_self_iff]
      simpa using hnonzero
    refine ⟨u.ahead.length, 1, Nat.le_refl _, Nat.lt_succ_self _, ?_⟩
    simp only [untilZero, htake, Nat.lt_irrefl, if_false]
    rfl

end Decoder

/-! ### Runs of zeros -/

/-- Bytes begin with a longest run of zeros. -/
theorem exists_zeros (bytes : Bytes) :
    ∃ n rest, bytes = List.replicate n 0 ++ rest ∧ rest.head? ≠ some 0 := by
  induction bytes with
  | nil => exact ⟨0, [], rfl, by simp⟩
  | cons b bs ih =>
    by_cases hb : b = 0
    · obtain ⟨n, rest, rfl, hrest⟩ := ih
      exact ⟨n + 1, rest, by rw [hb, List.replicate_succ, List.cons_append], hrest⟩
    · exact ⟨0, b :: bs, rfl, by simpa using hb⟩

namespace Source

variable {s : Source} {n : Nat} {rest : Bytes}

theorem ahead_advance_zeros (h : s.ahead = List.replicate n 0 ++ rest) :
    (s.advance n).ahead = rest := by
  simpa using ahead_advance_of_append h

theorem readTo_advance_zeros (h : s.ahead = List.replicate n 0 ++ rest) :
    s.readTo (s.advance n) = List.replicate n 0 := by
  rw [readTo_advance, h, List.take_left' List.length_replicate]

end Source

namespace Decoder

variable {s : Source} {n : Nat} {rest : Bytes}

/-- A run of zeros is as long as it looks, if another byte or none follows. -/
theorem length_takeWhile_zeros {bytes : Bytes} (h : bytes = List.replicate n 0 ++ rest)
    (hlast : rest.head? ≠ some 0) : (bytes.takeWhile (· == 0)).length = n := by
  have hrest : rest.takeWhile (· == 0) = [] := by
    cases rest with
    | nil => rfl
    | cons b bs => simpa using hlast
  rw [h, List.takeWhile_append_of_pos (by simp), hrest]
  simp

/-- A run of zeros is read up to another byte or the end of the stream. -/
theorem run_zeros (h : s.ahead = List.replicate n 0 ++ rest) (hlast : rest.head? ≠ some 0)
    (hending : rest = [] → s.ending = .endOfStream) : zeros.run s = (.ok n, s.advance n) := by
  have hahead : (s.advance n).ahead = rest := Source.ahead_advance_zeros h
  simp only [zeros, length_takeWhile_zeros h hlast, hahead]
  split
  · rename_i hfault
    rw [show (s.advance n).ending = s.ending from rfl, hending rfl] at hfault
    cases hfault
  · rfl

/-- A run of zeros that the device fails after is read, and fails. -/
theorem run_zeros_of_fault {cause : String} (h : s.ahead = List.replicate n 0)
    (hending : s.ending = .fault cause) :
    zeros.run s = (.error (.device cause), s.advance n) := by
  have h' : s.ahead = List.replicate n 0 ++ [] := by rw [h, List.append_nil]
  have hahead : (s.advance n).ahead = [] := Source.ahead_advance_zeros h'
  simp only [zeros, length_takeWhile_zeros h' (by simp), hahead,
    show (s.advance n).ending = s.ending from rfl, hending]

end Decoder

end BinaryLog
