import BinaryLog.Proofs.Argument.Delimiting
import BinaryLog.Proofs.Text.Validity

namespace BinaryLog

/-!
# Packing and unpacking undo each other

What is packed is read back, and what is read can be packed again.

* `Argument.Restores`, what a conversion reads of an argument that was packed, and
  `Template.run_unpack_of_pack`, every argument list comes back so;
* `exists_packed_int`, an integer is packed in no more bytes than its magnitude needs, from which
  `NumbersRead.length_packed_le` follows;
* `Template.Regular`, the payloads whose texts are valid and that announce no negative number to a
  conversion that reads none;
* `Template.exists_pack_of_run_unpack`, whatever is read can be packed again, and a regular payload
  is no shorter than what is packed.
-/

/-! ### What is packed is read back -/

namespace Argument

theorem hasNul_of_isText {a : Argument} (h : a.isText = false) : a.hasNul = false := by
  cases a <;> first | rfl | cases h

/-- What a conversion of the given kind reads of an argument that was packed: the integer of the
    same 64 bits whose sign is that of the conversion, the float of the same bits or the same
    text. -/
inductive Restores : ArgKind → Argument → Argument → Prop
  | signed {a : Argument} {value : Int64} (integer : a.isInteger = true)
      (bits : value.toUInt64 = a.bits) : Restores .signed a (.int value)
  | unsigned {kind : ArgKind} {a : Argument} {value : UInt64}
      (hkind : kind ∈ [ArgKind.unsigned, .char, .pointer]) (integer : a.isInteger = true)
      (bits : value = a.bits) : Restores kind a (.uint value)
  | float {given value : Binary64} (bits : value.bits = given.bits) :
      Restores .float (.float given) (.float value)
  | text (value : String) : Restores .text (.text value) (.text value)

/-- An integer is restored from its bits, as the conversion reads them. -/
theorem restores_ofBits {kind : ArgKind} {a : Argument} (hfits : a.fits kind = true)
    (ha : a.isInteger = true) : Restores kind a (ofBits kind a.bits) := by
  cases kind with
  | signed => exact .signed ha rfl
  | unsigned | char | pointer => exact .unsigned (by decide) ha rfl
  | float =>
    rw [not_isInteger_of_fits_float hfits] at ha
    cases ha
  | text =>
    obtain ⟨-, text, rfl⟩ | ⟨htext, -⟩ := fits_cases hfits
    · cases ha
    · exact absurd rfl htext

/-- What comes back restores the argument. -/
theorem restores_asRead {kind : ArgKind} {a : Argument} (hfits : a.fits kind = true) :
    Restores kind a (a.asRead kind) := by
  cases ha : a.isInteger with
  | true =>
    rw [asRead, if_pos ha]
    exact restores_ofBits hfits ha
  | false =>
    -- what is no integer is taken by the conversions of its own kind alone
    rw [asRead, if_neg (by simp [ha])]
    cases a with
    | float value => cases kind <;> first | exact .float rfl | cases hfits
    | text value => cases kind <;> first | exact .text value | cases hfits
    | int value => cases ha
    | uint value => cases ha

end Argument

/-- Each argument is restored in its own place. -/
theorem restores_asReadAll {kinds : List ArgKind} {args : List Argument}
    (h : List.Forall₂ (fun kind a => Argument.fits a kind = true) kinds args) {i : Nat}
    {kind : ArgKind} (hi : kinds[i]? = some kind) :
    ∃ a b, args[i]? = some a ∧ (asReadAll kinds args)[i]? = some b ∧
      Argument.Restores kind a b := by
  induction h generalizing i with
  | nil => cases hi
  | cons hfits _ ih =>
    cases i with
    | zero =>
      obtain rfl := Option.some.inj hi
      exact ⟨_, _, rfl, rfl, Argument.restores_asRead hfits⟩
    | succ i => exact ih hi

namespace Template

variable {t : Template} {args : List Argument} {payload : Bytes}

/-- **Packed arguments are read back** whatever follows them, one for each directive. -/
theorem run_unpack_of_pack (h : t.pack args = .ok payload) (id : FormatId) {s : Source}
    {rest : Bytes} (hs : s.ahead = payload ++ rest) :
    ∃ read, (t.unpack id).run s = (.ok read, s.advance payload.length) ∧
      (s.advance payload.length).ahead = rest ∧ read.length = t.directives.length ∧
      ∀ (i : Nat) (d : Directive), t.directives[i]? = some d →
        ∃ a b, args[i]? = some a ∧ read[i]? = some b ∧ Argument.Restores d.argKind a b := by
  obtain ⟨hcheck, -, -⟩ := pack_eq_ok h
  have hfits := check_eq_ok_iff_fits.mp hcheck
  refine ⟨asReadAll t.argKinds args, consumes_unpack h id s rest hs,
    Source.ahead_advance_of_append hs, ?_, fun i d hd => ?_⟩
  · rw [asReadAll, List.length_zipWith, ← hfits.length_eq, Nat.min_self, argKinds_eq_map,
      List.length_map]
  · refine restores_asReadAll hfits ?_
    rw [argKinds_eq_map, List.getElem?_map, hd]
    rfl

/-- Integers of the other sign, of which one is packed as it is and one by its magnitude, a NaN and
    a text, in front of two bytes. -/
theorem run_unpack_of_pack_of_other_signs :
    let template : Template :=
      { source := "%d%u%f%s"
        pieces := [.directive { conversion := .decimal }, .directive { conversion := .unsigned },
          .directive { conversion := .fixed false }, .directive { conversion := .text }] }
    let args : List Argument :=
      [.uint 0xFF00000000000000, .int (-2), .float ⟨0x7FF8000000000001⟩, .text "é"]
    let payload : Bytes :=
      [0x98, 8, 0, 0, 0, 0, 0, 0, 0, 0xFF, 2, 1, 0, 0, 0, 0, 0, 0xF8, 0x7F, 0xC3, 0xA9, 0]
    let source := Source.ofBytes (payload ++ [0, 7])
    template.pack args = .ok payload ∧ source.ahead = payload ++ [0, 7] ∧
      ∃ read, (template.unpack ⟨7⟩).run source = (.ok read, source.advance payload.length) ∧
        (source.advance payload.length).ahead = [0, 7] ∧
        read.length = template.directives.length ∧
        ∀ (i : Nat) (d : Directive), template.directives[i]? = some d →
          ∃ a b, args[i]? = some a ∧ read[i]? = some b ∧ Argument.Restores d.argKind a b := by
  intro template args payload source
  have hpack : template.pack args = .ok payload := by decide +kernel
  exact ⟨hpack, rfl, run_unpack_of_pack hpack ⟨7⟩ rfl⟩

end Template

/-! ### Numbers in as few bytes as they need -/

/-- Half a byte is a width code of four bits. -/
theorem splitCodes_lt {bytes : Bytes} : ∀ code ∈ splitCodes bytes, code < 16 := by
  intro code hcode
  obtain ⟨b, -, hb⟩ := List.mem_flatMap.mp hcode
  have hbyte := b.toNat_lt
  simp only [List.mem_cons, List.not_mem_nil, or_false] at hb
  omega

section Numbers

variable {id : FormatId} {kind : ArgKind} {kinds : List ArgKind} {code width : Nat}
  {codes : List Nat} {s u : Source} {number : Argument} {numbers args : List Argument}
  {bits value : UInt64}

/-- **An integer** is packed in no more bytes than its magnitude needs. -/
theorem exists_packed_int (value : Int64) :
    ∃ p, (Argument.int value).packed? = some p ∧
      p.bytes.length ≤ Word.width value.toInt.natAbs := by
  by_cases hneg : value.toInt < 0
  · by_cases hwidth : Word.width value.toInt.natAbs < 8
    · refine ⟨_, by rw [Argument.packed?, if_pos hneg, if_pos hwidth], ?_⟩
      exact Nat.le_of_eq (Word.length_toBytes _ _)
    · -- all the bits are stored, which are no more bytes
      refine ⟨_, by rw [Argument.packed?, if_pos hneg, if_neg hwidth], ?_⟩
      rw [Packed.of, Word.length_toBytes]
      exact Nat.le_of_not_lt hwidth
  · refine ⟨_, by rw [Argument.packed?, if_neg hneg], ?_⟩
    exact Nat.le_of_eq (Word.length_toBytes _ _)

/-- A field of less than eight bytes does not reach the sign. -/
theorem capacity_le_of_lt (hwidth : width < 8) : Word.capacity width ≤ 0x100000000000000 :=
  Word.capacity_mono (Nat.le_of_lt_succ hwidth)

/-- The bits of a field have a magnitude that the field holds. -/
theorem natAbs_toInt_lt (h : bits.toNat < Word.capacity width) (hwidth : width ≤ 8) :
    bits.toInt64.toInt.natAbs < Word.capacity width := by
  have hint := toInt_eq bits.toInt64
  rw [UInt64.toUInt64_toInt64] at hint
  have hbits := bits.toNat_lt
  obtain hfull | hless := Nat.eq_or_lt_of_le hwidth
  · rw [hfull, show Word.capacity 8 = 0x10000000000000000 from rfl]
    split at hint <;> omega
  · have hcapacity := capacity_le_of_lt hless
    split at hint <;> omega

/-- A number that is taken from zero has the magnitude of what is taken, if that is short. -/
theorem natAbs_toInt_zero_sub (h : value.toNat < Word.capacity width) (hwidth : width < 8) :
    (0 - value).toInt64.toInt.natAbs = value.toNat := by
  have hcapacity := capacity_le_of_lt hwidth
  have hint := toInt_eq (0 - value).toInt64
  rw [UInt64.toUInt64_toInt64, UInt64.toNat_sub, UInt64.toNat_zero] at hint
  split at hint <;> omega

/-- An integer that a field holds is packed in no more bytes. -/
theorem exists_packed_ofBits (kind : ArgKind) (h : bits.toNat < Word.capacity width)
    (hwidth : width ≤ 8) :
    ∃ p, (Argument.ofBits kind bits).packed? = some p ∧ p.bytes.length ≤ width := by
  rw [Argument.ofBits]
  split
  · obtain ⟨p, hp, hlength⟩ := exists_packed_int bits.toInt64
    exact ⟨p, hp, Nat.le_trans hlength (Word.width_le_iff.mpr (natAbs_toInt_lt h hwidth))⟩
  · refine ⟨_, rfl, ?_⟩
    rw [Packed.ofNat, Packed.of, Word.length_toBytes]
    exact Word.width_le_iff.mpr h

/-- An integer that is read is packed in no more bytes than it was read from, if a negative number
    is only announced to signed conversions. -/
theorem exists_packed_of_run_readBits (hkind : kind = .signed ∨ code ≤ fullWidth)
    (hcode : code < 16) (h : (readBits code).run s = (.ok bits, u)) :
    ∃ p, (Argument.ofBits kind bits).packed? = some p ∧ p.bytes.length ≤ storedWidth code := by
  obtain ⟨-, value, hvalue, hsign⟩ := run_readBits_eq_ok h
  by_cases hplain : code ≤ fullWidth
  · -- the bits are what was read, so they fit where they came from
    rw [if_pos hplain] at hsign
    rw [storedWidth, if_pos hplain] at hvalue ⊢
    rw [hsign]
    exact exists_packed_ofBits kind hvalue hplain
  · -- the magnitude that was read is packed again
    rw [if_neg hplain] at hsign
    rw [storedWidth, if_neg hplain] at hvalue ⊢
    have hwidth : code - fullWidth < 8 := by
      rw [fullWidth]
      omega
    obtain ⟨p, hp, hlength⟩ := exists_packed_int (0 - value).toInt64
    rw [natAbs_toInt_zero_sub hvalue hwidth] at hlength
    rw [hkind.resolve_right hplain, hsign]
    exact ⟨p, hp, Nat.le_trans hlength (Word.width_le_iff.mpr hvalue)⟩

/-- A number that is read is packed in no more bytes than it was read from, unless it is announced
    as negative to a conversion that reads no negative numbers. -/
theorem exists_packed_of_run_readNumber (htext : kind ≠ .text) (hcode : code < 16)
    (hunsigned : kind ∈ [ArgKind.unsigned, .char, .pointer] → code ≤ fullWidth)
    (h : (readNumber id kind code).run s = (.ok number, u)) :
    ∃ p, number.packed? = some p ∧ p.bytes.length ≤ storedWidth code := by
  by_cases hfloat : kind = .float
  · have hfull := (run_readNumber_eq_ok h).2 hfloat
    rw [hfloat, readNumber_float, if_pos hfull] at h
    obtain ⟨bits, -, rfl⟩ := Decoder.run_map_eq_ok h
    rw [hfull]
    exact ⟨_, rfl, Nat.le_of_eq (Word.length_toBytes _ _)⟩
  · rw [readNumber_of_ne_float hfloat] at h
    obtain ⟨bits, hbits, rfl⟩ := Decoder.run_map_eq_ok h
    refine exists_packed_of_run_readBits ?_ hcode hbits
    cases kind with
    | signed => exact .inl rfl
    | unsigned | char | pointer => exact .inr (hunsigned (by decide))
    | float => exact absurd rfl hfloat
    | text => exact absurd rfl htext

/-- **Numbers** are packed in no more bytes than they were read from, unless one is announced as
    negative to a conversion that reads no negative numbers. -/
theorem NumbersRead.length_packed_le (h : NumbersRead id kinds codes s numbers u)
    (htext : ∀ kind ∈ kinds, kind ≠ .text) (hcodes : ∀ code ∈ codes, code < 16)
    (hsigns : ∀ announced ∈ kinds.zip codes,
      announced.1 ∈ [ArgKind.unsigned, .char, .pointer] → announced.2 ≤ fullWidth) :
    ((numbers.filterMap Argument.packed?).flatMap Packed.bytes).length ≤ valueLength codes := by
  induction h with
  | nil codes s => exact Nat.zero_le _
  | cons first _ ih =>
    obtain ⟨hkind, hkinds⟩ := List.forall_mem_cons.mp htext
    obtain ⟨hcode, hcodes⟩ := List.forall_mem_cons.mp hcodes
    obtain ⟨hsign, hsigns⟩ := List.forall_mem_cons.mp hsigns
    obtain ⟨p, hp, hlength⟩ := exists_packed_of_run_readNumber hkind hcode hsign first
    rw [List.filterMap_cons_some hp, List.flatMap_cons, List.length_append, valueLength_cons]
    exact Nat.add_le_add hlength (ih hkinds hcodes hsigns)

/-- Texts are not packed as numbers. -/
theorem TextsRead.filterMap_packed (h : TextsRead kinds numbers s args u)
    (hnumbers : List.Forall₂ Argument.IsRead (kinds.filter (· != .text)) numbers) :
    args.filterMap Argument.packed? = numbers.filterMap Argument.packed? := by
  induction h with
  | nil numbers s =>
    cases hnumbers
    rfl
  | text _ _ ih => exact ih hnumbers
  | number hkind _ ih =>
    rw [List.filter_cons_of_pos (by simpa using hkind)] at hnumbers
    cases hnumbers with
    | cons _ hnumbers => rw [List.filterMap_cons, List.filterMap_cons, ih hnumbers]

/-- No text that is read holds a NUL. -/
theorem TextsRead.hasNul_eq (h : TextsRead kinds numbers s args u)
    (hnumbers : ∀ number ∈ numbers, number.isText = false) : ∀ a ∈ args, a.hasNul = false := by
  induction h with
  | nil numbers s => exact List.forall_mem_nil _
  | text first _ ih =>
    refine List.forall_mem_cons.mpr ⟨?_, ih hnumbers⟩
    -- a text is read up to the first zero, and decoding makes no NUL of other bytes
    have hzero := Utf8.nul_not_mem_lossyChars fun hmem =>
      (Decoder.run_untilZero_eq_ok first).2 0 hmem rfl
    simpa [Argument.hasNul, Utf8.decodeLossy] using hzero
  | number _ _ ih =>
    obtain ⟨hnumber, hnumbers⟩ := List.forall_mem_cons.mp hnumbers
    refine List.forall_mem_cons.mpr ⟨?_, ih hnumbers⟩
    exact Argument.hasNul_of_isText hnumber

end Numbers

/-! ### What is read is packed again -/

/-- What was read for these conversions is read the same again. -/
theorem asReadAll_of_isRead {kinds : List ArgKind} {args : List Argument}
    (h : List.Forall₂ Argument.IsRead kinds args) : asReadAll kinds args = args := by
  induction h with
  | nil => rfl
  | cons hread _ ih =>
    rw [asReadAll, List.zipWith_cons_cons, hread.asRead]
    exact congrArg _ ih

/-- The bytes of the texts are those of the arguments that are texts. -/
theorem flatMap_textBytes (args : List Argument) :
    args.flatMap Argument.textBytes =
      (args.filterMap Argument.text?).flatMap fun text => Utf8.encode text ++ [0] := by
  induction args with
  | nil => rfl
  | cons a args ih =>
    rw [List.flatMap_cons, ih]
    cases a <;> rfl

namespace Template

variable {t : Template} {id : FormatId} {s u : Source} {args : List Argument}

/-- The payload has valid texts, and no number of it is announced as negative to a conversion that
    reads no negative numbers. -/
structure Regular (t : Template) (payload : Bytes) : Prop where
  texts : ∀ bytes ∈ t.rawTexts payload, ∃ text, Utf8.decode bytes = .ok text
  signs : ∀ announced ∈ t.numberKinds.zip (t.widthCodes payload),
    announced.1 ∈ [ArgKind.unsigned, .char, .pointer] → announced.2 ≤ fullWidth

/-- What is read holds no NUL, and so it can be packed. -/
theorem hasNul_of_run_unpack (h : (t.unpack id).run s = (.ok args, u)) :
    ∀ a ∈ args, a.hasNul = false := by
  obtain ⟨numbers, hnumbers, htexts⟩ := exists_sections h
  exact htexts.hasNul_eq (hnumbers.isText_eq fun _ => ne_text_of_mem_numberKinds)

/-- The numbers that are read from a regular payload are packed in no more bytes. -/
theorem length_packed_le (hregular : t.Regular s.ahead)
    (h : (t.unpack id).run s = (.ok args, u)) :
    ((args.filterMap Argument.packed?).flatMap Packed.bytes).length ≤
      valueLength (t.widthCodes s.ahead) := by
  obtain ⟨numbers, hnumbers, htexts⟩ := exists_sections h
  have hkinds : ∀ kind ∈ t.numberKinds, kind ≠ .text := fun _ => ne_text_of_mem_numberKinds
  have hcodes : ∀ code ∈ t.widthCodes s.ahead, code < 16 := fun code hcode =>
    splitCodes_lt code (List.mem_of_mem_take hcode)
  rw [htexts.filterMap_packed (hnumbers.isRead hkinds)]
  exact hnumbers.length_packed_le hkinds hcodes hregular.signs

/-- Valid texts are packed in the bytes that they were read from. -/
theorem flatMap_textBytes_of_run_unpack (hregular : t.Regular s.ahead)
    (h : (t.unpack id).run s = (.ok args, u)) :
    args.flatMap Argument.textBytes = (t.rawTexts s.ahead).flatMap (· ++ [0]) := by
  rw [flatMap_textBytes, texts_of_run_unpack h, List.flatMap_map]
  refine List.flatMap_congr fun bytes hbytes => ?_
  obtain ⟨text, htext⟩ := hregular.texts bytes hbytes
  rw [Utf8.encode_of_decode htext]

/-- **Whatever is read is packed again**, in a payload that stands for the same arguments and is no
    longer than the one that was read, if that was a regular one. -/
theorem exists_pack_of_run_unpack (h : (t.unpack id).run s = (.ok args, u)) :
    ∃ payload, t.pack args = .ok payload ∧
      (∀ v : Source, v.ahead = payload → (t.unpack id).run v = (.ok args, v.exhaust)) ∧
      (t.Regular s.ahead → s.offset + payload.length ≤ u.offset) := by
  have hpack := pack_of_check (check_of_run_unpack h) (hasNul_of_run_unpack h)
  refine ⟨_, hpack, fun v hv => ?_, fun hregular => ?_⟩
  -- arguments that were read once are read as they are
  · have hread := consumes_unpack hpack id v [] (by rw [hv, List.append_nil])
    rwa [asReadAll_of_isRead (isRead_of_run_unpack h), ← hv] at hread
  -- section by section: as many width codes, no more bytes of numbers, the same texts
  · have hcount := length_numbers (check_eq_ok_iff_fits.mp (check_of_run_unpack h))
    have hnumbers := length_packed_le hregular h
    have htexts := length_endedTexts (t.rawTexts s.ahead)
    rw [← flatMap_textBytes_of_run_unpack hregular h] at htexts
    rw [eq_advance_of_run_unpack h, List.length_append, List.length_append, length_pairCodes,
      List.length_map, hcount]
    simp only [Source.advance, payloadLength, textOffset, codeLength, nonTextCount]
    omega

/-- A payload with a negative zero, numbers with leading zeros and an unused width code. -/
theorem exists_pack_of_run_unpack_of_zeros :
    let template : Template :=
      { source := "%d%u%c%s"
        pieces := [.directive { conversion := .decimal }, .directive { conversion := .unsigned },
          .directive { conversion := .char }, .directive { conversion := .text }] }
    let source := Source.ofBytes [0x3A, 0xF2, 0, 0, 1, 0, 0, 0x41, 0, 0x68, 0, 9]
    let args : List Argument := [.int 0, .uint 1, .uint 0x41, .text "h"]
    (template.unpack ⟨7⟩).run source = (.ok args, source.advance 11) ∧
      template.Regular source.ahead ∧
      ∃ payload, template.pack args = .ok payload ∧
        (∀ v : Source, v.ahead = payload →
          (template.unpack ⟨7⟩).run v = (.ok args, v.exhaust)) ∧
        source.offset + payload.length ≤ (source.advance 11).offset := by
  intro template source args
  have hrun : (template.unpack ⟨7⟩).run source = (.ok args, source.advance 11) := by
    decide +kernel
  have hregular : template.Regular source.ahead := by
    refine ⟨?_, by decide +kernel⟩
    rw [show template.rawTexts source.ahead = [[0x68]] by decide +kernel]
    exact List.forall_mem_singleton.mpr ⟨"h", by decide +kernel⟩
  obtain ⟨payload, hpack, hread, hlength⟩ := exists_pack_of_run_unpack hrun
  exact ⟨hrun, hregular, payload, hpack, hread, hlength hregular⟩

end Template

end BinaryLog
