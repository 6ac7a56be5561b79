import BinaryLog.Proofs.Entry.Framing
import Mathlib.Algebra.Group.Nat.Defs

namespace BinaryLog

/-!
# Which bytes are a header

A header is written in the narrowest fields, but it is read in whatever fields it has.

* `Header.Form`, a header as it may stand in a stream, with the two deltas that its fields hold;
* `Metadata.consumes_form` and `Metadata.refuses_form`, a form is read as a whole, whether or not
  its timestamp fits, and `Metadata.exists_form_of_run`, nothing but a form is read;
* `Metadata.run_decode_exact`, what is written is read, what is read has a form, and the header that
  is written for the same deltas is read as the same step and no longer.
-/

/-! ### The forms of a header -/

namespace Header

/-- The widths of id deltas, in the order of their codes. -/
theorem getElem?_idWidth {code : Nat} (h : code < 4) :
    [0, 1, 2, 4][code]? = some (idWidth code) := by
  match code with
  | 0 | 1 | 2 | 3 => rfl
  | code + 4 => omega

/-- What a first byte says that announces a header. -/
theorem of_ofByte_eq_ok {b : UInt8} {header : Header} (h : ofByte b = .ok header) :
    b.toNat % 4 = 1 ∧ b.toNat / 16 ≤ maxTimeWidth ∧
      header = { idCode := b.toNat / 4 % 4, timeWidth := b.toNat / 16 } := by
  refine ⟨tag_of_ofByte_eq_ok h, ?_⟩
  simp only [ofByte] at h
  split at h
  · cases h
  · split at h
    · cases h
    · rename_i hwidth
      cases h
      exact ⟨Nat.not_lt.mp hwidth, rfl⟩

/-- A header as it may stand in a stream. Its fields have the widths that its first byte announces,
    which need not be the narrowest. -/
structure Form where
  first : UInt8
  idBytes : Bytes
  timeBytes : Bytes
  /-- The two lowest bits are the message tag. -/
  tag : first.toNat % 4 = 1
  /-- The next two bits select one of four widths of the id delta. -/
  idWidth : [0, 1, 2, 4][first.toNat / 4 % 4]? = some idBytes.length
  /-- The four highest bits are the width of the timestamp delta. -/
  timeWidth : first.toNat / 16 = timeBytes.length
  timeWidth_le : timeBytes.length ≤ 8

namespace Form

def bytes (form : Form) : Bytes := form.first :: (form.idBytes ++ form.timeBytes)

/-- The id delta that is stored. -/
def idDelta (form : Form) : UInt32 := UInt32.ofNat (Word.ofBytes form.idBytes)

/-- The timestamp delta that is stored. -/
def timeDelta (form : Form) : UInt64 := UInt64.ofNat (Word.ofBytes form.timeBytes)

/-- The widths that are announced. -/
def header (form : Form) : Header :=
  { idCode := form.first.toNat / 4 % 4, timeWidth := form.first.toNat / 16 }

/-- The first byte announces the widths of the form. -/
theorem ofByte_first (form : Form) : ofByte form.first = .ok form.header := by
  have hwidth : form.first.toNat / 16 ≤ maxTimeWidth := form.timeWidth ▸ form.timeWidth_le
  rw [ofByte, if_neg (not_not.mpr form.tag), if_neg (Nat.not_lt.mpr hwidth)]
  rfl

/-- The width of the id delta is that of its field. -/
theorem idWidth_header (form : Form) : Header.idWidth form.header.idCode = form.idBytes.length := by
  have hcode : form.first.toNat / 4 % 4 < 4 := Nat.mod_lt _ (by decide)
  have hselected := getElem?_idWidth hcode
  rw [form.idWidth] at hselected
  exact (Option.some.inj hselected).symm

/-- The fields are no wider than the deltas that they stand for. -/
theorem toNat_idDelta (form : Form) : form.idDelta.toNat = Word.ofBytes form.idBytes := by
  have hwidth : form.idBytes.length ≤ 4 := by
    rw [← form.idWidth_header]
    simp only [Header.idWidth]
    split <;> decide
  have hlt := Nat.lt_of_lt_of_le (Word.ofBytes_lt form.idBytes) (Word.capacity_mono hwidth)
  exact Nat.mod_eq_of_lt hlt

/-- The time delta is what its field holds, as the field is no wider than eight bytes. -/
theorem toNat_timeDelta (form : Form) : form.timeDelta.toNat = Word.ofBytes form.timeBytes := by
  have hlt := Nat.lt_of_lt_of_le (Word.ofBytes_lt form.timeBytes)
    (Word.capacity_mono form.timeWidth_le)
  exact Nat.mod_eq_of_lt hlt

theorem timeWidth_header (form : Form) : form.header.timeWidth = form.timeBytes.length :=
  form.timeWidth

/-- The header tells the length of the form. -/
theorem length_bytes (form : Form) : form.bytes.length = form.header.length := by
  rw [bytes, List.length_cons, List.length_append, Header.length, idWidth_header, timeWidth_header]
  omega

/-- The two fields are those of the deltas. -/
theorem fields_eq (form : Form) :
    Word.toBytes (Header.idWidth form.header.idCode) form.idDelta.toNat
      ++ Word.toBytes form.header.timeWidth form.timeDelta.toNat
      = form.idBytes ++ form.timeBytes := by
  rw [idWidth_header, toNat_idDelta, Word.toBytes_ofBytes, timeWidth_header, toNat_timeDelta,
    Word.toBytes_ofBytes]

/-- The id delta fits its field again, also where upper bytes of a wide field were cut off. -/
theorem toNat_idDelta_lt (form : Form) :
    form.idDelta.toNat < Word.capacity (Header.idWidth form.header.idCode) := by
  rw [toNat_idDelta, idWidth_header]
  exact Word.ofBytes_lt form.idBytes

/-- The time delta fits its field again. -/
theorem toNat_timeDelta_lt (form : Form) :
    form.timeDelta.toNat < Word.capacity form.header.timeWidth := by
  rw [toNat_timeDelta, timeWidth_header]
  exact Word.ofBytes_lt form.timeBytes

/-- The shortest header for the same deltas is no longer. -/
theorem length_encode_le (form : Form) :
    (encode form.idDelta form.timeDelta).length ≤ form.bytes.length := by
  have hid := idWidth_idCodeFor_le form.toNat_idDelta_lt
  have htime := Word.width_le_iff.mpr form.toNat_timeDelta_lt
  rw [length_encode, length_bytes, Header.length]
  omega

end Form

/-- Bytes that hold all that a first byte announces begin with a form. -/
theorem exists_form {first : UInt8} {header : Header} {bs : Bytes}
    (h : ofByte first = .ok header)
    (hlength : idWidth header.idCode + header.timeWidth ≤ bs.length) :
    ∃ form : Form, form.bytes <+: first :: bs := by
  obtain ⟨htag, hwide, rfl⟩ := of_ofByte_eq_ok h
  dsimp only at hlength
  -- the fields are cut out of the bytes one after the other
  refine ⟨{ first
            idBytes := bs.take (idWidth (first.toNat / 4 % 4))
            timeBytes := (bs.drop (idWidth (first.toNat / 4 % 4))).take (first.toNat / 16)
            tag := htag
            idWidth := ?_
            timeWidth := ?_
            timeWidth_le := ?_ }, ?_⟩
  · rw [List.length_take_of_le (by omega)]
    exact getElem?_idWidth (Nat.mod_lt _ (by decide))
  · rw [List.length_take_of_le (by rw [List.length_drop]; omega)]
  · rw [List.length_take]
    exact Nat.le_trans (Nat.min_le_left _ _) hwide
  · rw [Form.bytes, ← List.take_add]
    exact (List.prefix_cons_inj _).mpr (List.take_prefix _ _)

end Header

/-! ### Reading a form -/

namespace Metadata

variable {chain : Chain} {s t : Source} {metadata : Metadata}

/-- What a header of `n` bytes with these deltas says of a message that continues the chain. -/
structure Continues (chain : Chain) (idDelta : UInt32) (timeDelta : UInt64) (n : Nat)
    (metadata : Metadata) : Prop where
  formatId :
    metadata.formatId.val.toNat = (chain.formatId.val.toNat + idDelta.toNat) % 2 ^ 32
  timestamp : metadata.timestamp.toNat = chain.timestamp.toNat + timeDelta.toNat
  headerLength : metadata.headerLength = n

/-- The metadata that continue a chain are those of the chain's step. -/
theorem continues_step {idDelta : UInt32} {timeDelta : UInt64}
    (h : chain.timestamp.toNat + timeDelta.toNat < UInt64.size) (n : Nat) :
    Continues chain idDelta timeDelta n
      { formatId := (chain.step idDelta timeDelta).formatId
        timestamp := (chain.step idDelta timeDelta).timestamp
        headerLength := n } where
  formatId := UInt32.toNat_add _ _
  timestamp := (UInt64.toNat_add _ _).trans (Nat.mod_eq_of_lt h)
  headerLength := rfl

/-- One step leaves no choice for the id and the timestamp. -/
theorem Continues.unique {other : Metadata} {idDelta : UInt32} {timeDelta : UInt64} {m n : Nat}
    (h : Continues chain idDelta timeDelta m metadata)
    (h' : Continues chain idDelta timeDelta n other) :
    other.formatId = metadata.formatId ∧ other.timestamp = metadata.timestamp := by
  constructor
  · have hval := UInt32.toNat_inj.mp (h'.formatId.trans h.formatId.symm)
    exact congrArg FormatId.mk hval
  · exact UInt64.toNat_inj.mp (h'.timestamp.trans h.timestamp.symm)

/-- **A form whose timestamp fits** is read as a whole, in front of anything. -/
theorem consumes_form (form : Header.Form)
    (h : chain.timestamp.toNat + form.timeDelta.toNat < UInt64.size) :
    ∃ metadata, (decode chain).Consumes form.bytes metadata ∧
      Continues chain form.idDelta form.timeDelta form.bytes.length metadata := by
  refine ⟨_, ?_, continues_step h _⟩
  rw [decode_eq]
  refine Decoder.Consumes.byte_bind ?_
  rw [form.ofByte_first, ← form.fields_eq, form.length_bytes]
  exact consumes_decodeDeltas (Chain.step?_of_fits form.idDelta h) form.toNat_idDelta_lt
    form.toNat_timeDelta_lt

/-- **A form whose timestamp does not fit** is refused, but read as a whole all the same. -/
theorem refuses_form (form : Header.Form)
    (h : UInt64.size ≤ chain.timestamp.toNat + form.timeDelta.toNat) :
    (decode chain).Refuses form.bytes (.timeReversed chain.timestamp form.timeDelta) := by
  rw [decode_eq, Header.Form.bytes, ← form.fields_eq]
  refine (Decoder.consumes_byte form.first).bind_refuses ?_
  rw [form.ofByte_first]
  exact refuses_decodeDeltas (Chain.step?_of_overflow form.idDelta h) form.toNat_idDelta_lt
    form.toNat_timeDelta_lt

/-- **Nothing but a form is read**, and only one whose timestamp fits. -/
theorem exists_form_of_run (h : (decode chain).run s = (.ok metadata, t)) :
    ∃ form : Header.Form, form.bytes <+: s.ahead ∧
      chain.timestamp.toNat + form.timeDelta.toNat < UInt64.size ∧
      Continues chain form.idDelta form.timeDelta form.bytes.length metadata ∧
      t = s.advance form.bytes.length := by
  obtain ⟨first, header, u, hheader, hahead, hdeltas, -⟩ := run_decode_eq_ok h
  obtain ⟨-, -, -, -, -, -, hlength⟩ := run_decodeDeltas_eq_ok hdeltas
  have hle : Header.idWidth header.idCode + header.timeWidth ≤ u.ahead.length := by
    rw [← hlength]
    exact (List.take_prefix _ _).length_le
  obtain ⟨form, rest, hrest⟩ := Header.exists_form hheader hle
  rw [← hahead] at hrest
  refine ⟨form, ⟨rest, hrest⟩, ?_⟩
  -- a form whose timestamp does not fit would have been refused
  rcases Nat.lt_or_ge (chain.timestamp.toNat + form.timeDelta.toNat) UInt64.size with hfits | hover
  · obtain ⟨read, hconsumes, hcontinues⟩ := consumes_form form hfits
    rw [hconsumes s rest hrest.symm] at h
    cases h
    exact ⟨hfits, hcontinues, rfl⟩
  · rw [refuses_form form hover s rest hrest.symm] at h
    cases h

/-- What was written for two deltas is read as a whole: it continues the chain if the timestamp
    fits, and otherwise it is refused with the timestamp delta. -/
theorem run_decode_encode {idDelta : UInt32} {timeDelta : UInt64} {rest : Bytes}
    (h : s.ahead = Header.encode idDelta timeDelta ++ rest) :
    (chain.timestamp.toNat + timeDelta.toNat < UInt64.size → ∃ metadata,
      (decode chain).run s =
        (.ok metadata, s.advance (Header.encode idDelta timeDelta).length) ∧
      Continues chain idDelta timeDelta (Header.encode idDelta timeDelta).length metadata) ∧
    (UInt64.size ≤ chain.timestamp.toNat + timeDelta.toNat →
      (decode chain).run s = (.error (.timeReversed chain.timestamp timeDelta),
        s.advance (Header.encode idDelta timeDelta).length)) := by
  constructor
  · intro hfits
    have hle : chain.timestamp ≤ (chain.step idDelta timeDelta).timestamp :=
      (Chain.step?_eq_ok_iff.mp (Chain.step?_of_fits idDelta hfits)).1
    have hconsumes := consumes_headerTo hle
    rw [Chain.headerTo_step] at hconsumes
    exact ⟨_, hconsumes s rest h, continues_step hfits _⟩
  · intro hover
    exact refuses_encode (Chain.step?_of_overflow idDelta hover) s rest h

/-- **The header codec is exact and minimal.** What is written for two deltas is read as a whole.
    Bytes are read exactly if they begin with a form whose timestamp fits; and the header that is
    written for the deltas of a form is read as the same step and is no longer. -/
theorem run_decode_exact (chain : Chain) (s : Source) :
    (∀ (idDelta : UInt32) (timeDelta : UInt64) (rest : Bytes),
      s.ahead = Header.encode idDelta timeDelta ++ rest →
      let n := (Header.encode idDelta timeDelta).length
      n = (Header.minimal idDelta timeDelta).length ∧
      (chain.timestamp.toNat + timeDelta.toNat < UInt64.size → ∃ metadata,
        (decode chain).run s = (.ok metadata, s.advance n) ∧
        Continues chain idDelta timeDelta n metadata) ∧
      (UInt64.size ≤ chain.timestamp.toNat + timeDelta.toNat →
        (decode chain).run s =
          (.error (.timeReversed chain.timestamp timeDelta), s.advance n))) ∧
    ((∃ metadata t, (decode chain).run s = (.ok metadata, t)) ↔
      ∃ form : Header.Form, form.bytes <+: s.ahead ∧
        chain.timestamp.toNat + form.timeDelta.toNat < UInt64.size) ∧
    ∀ metadata t, (decode chain).run s = (.ok metadata, t) →
      t = s.advance metadata.headerLength ∧
      ∃ form : Header.Form, form.bytes <+: s.ahead ∧
        Continues chain form.idDelta form.timeDelta form.bytes.length metadata ∧
        (Header.encode form.idDelta form.timeDelta).length ≤ metadata.headerLength ∧
        ∀ (u : Source) (rest : Bytes),
          u.ahead = Header.encode form.idDelta form.timeDelta ++ rest →
          ∃ again, (decode chain).run u =
              (.ok again, u.advance (Header.encode form.idDelta form.timeDelta).length) ∧
            again.formatId = metadata.formatId ∧ again.timestamp = metadata.timestamp := by
  refine ⟨fun idDelta timeDelta rest h => ?_, ⟨?_, ?_⟩, fun metadata t h => ?_⟩
  · exact ⟨Header.length_encode _ _, run_decode_encode h⟩
  · rintro ⟨metadata, t, h⟩
    obtain ⟨form, hprefix, hfits, -, -⟩ := exists_form_of_run h
    exact ⟨form, hprefix, hfits⟩
  -- a form whose timestamp fits is consumed, whatever follows it
  · rintro ⟨form, ⟨rest, hrest⟩, hfits⟩
    obtain ⟨metadata, hconsumes, -⟩ := consumes_form form hfits
    exact ⟨metadata, _, hconsumes s rest hrest.symm⟩
  -- both headers make the same step, so the same deltas are read of the shorter one
  · obtain ⟨form, hprefix, hfits, hcontinues, rfl⟩ := exists_form_of_run h
    refine ⟨by rw [hcontinues.headerLength], form, hprefix, hcontinues, ?_, fun u rest hu => ?_⟩
    · rw [hcontinues.headerLength]
      exact form.length_encode_le
    · obtain ⟨again, hrun, hagain⟩ := (run_decode_encode hu).1 hfits
      exact ⟨again, hrun, hcontinues.unique hagain⟩

/-- The last step that fits, in wider fields than it needs, and the first that does not. -/
theorem run_decode_exact_in_wide_fields :
    let chain : Chain := { formatId := ⟨0xFFFFFFFE⟩, timestamp := 0xFFFFFFFFFFFFFF00 }
    let late := Source.ofBytes (Header.encode 5 0x100 ++ [7])
    let wide := Source.ofBytes [0x3D, 5, 0, 0, 0, 0xFF, 0, 0, 7]
    let narrow := Source.ofBytes (Header.encode 5 0xFF ++ [7])
    let metadata : Metadata :=
      { formatId := ⟨3⟩, timestamp := 0xFFFFFFFFFFFFFFFF, headerLength := 8 }
    (late.ahead = Header.encode 5 0x100 ++ [7] ∧
      UInt64.size ≤ chain.timestamp.toNat + (0x100 : UInt64).toNat ∧
      (decode chain).run late = (.error (.timeReversed chain.timestamp 0x100), late.advance 4)) ∧
    (narrow.ahead = Header.encode 5 0xFF ++ [7] ∧
      chain.timestamp.toNat + (0xFF : UInt64).toNat < UInt64.size ∧
      ∃ metadata, (decode chain).run narrow = (.ok metadata, narrow.advance 3) ∧
        Continues chain 5 0xFF 3 metadata) ∧
    (decode chain).run wide = (.ok metadata, wide.advance 8) ∧
      ∃ form : Header.Form, form.bytes <+: wide.ahead ∧
        Continues chain form.idDelta form.timeDelta form.bytes.length metadata ∧
        (Header.encode form.idDelta form.timeDelta).length ≤ metadata.headerLength := by
  intro chain late wide narrow metadata
  have hover : UInt64.size ≤ chain.timestamp.toNat + (0x100 : UInt64).toNat := by decide
  have hfits : chain.timestamp.toNat + (0xFF : UInt64).toNat < UInt64.size := by decide
  have hwide : (decode chain).run wide = (.ok metadata, wide.advance 8) := by decide +kernel
  have hlate : (Header.encode 5 0x100).length = 4 := by decide +kernel
  have hnarrow : (Header.encode 5 0xFF).length = 3 := by decide +kernel
  refine ⟨⟨rfl, hover, ?_⟩, ⟨rfl, hfits, ?_⟩, hwide, ?_⟩
  · rw [← hlate]
    exact ((run_decode_exact chain late).1 5 0x100 [7] rfl).2.2 hover
  · rw [← hnarrow]
    exact ((run_decode_exact chain narrow).1 5 0xFF [7] rfl).2.1 hfits
  · obtain ⟨-, form, hprefix, hcontinues, hle, -⟩ :=
      (run_decode_exact chain wide).2.2 metadata _ hwide
    exact ⟨form, hprefix, hcontinues, hle⟩

end Metadata

end BinaryLog
