import BinaryLog.Argument.Packing
import BinaryLog.Proofs.Argument.Rendering
import BinaryLog.Proofs.Decoder.Plain
import BinaryLog.Proofs.Text.Utf8

namespace BinaryLog

/-!
# Packed arguments are read back

The arguments of a message come back from its payload up to the sign of their integers, which is
that of the directive and not that of the argument.

* `Argument.asRead`, an argument as it comes back, which is alike;
* `exists_packed`, `consumes_readNumbers` and `consumes_readTexts`, the numbers and texts of a
  payload, and `Template.consumes_unpack`, the whole of it;
* `Template.plain_unpack`, a payload is read by plain requests, and so the same whatever stands
  around it.
-/

/-! ### Width codes -/

/-- Two width codes share a byte, and an odd one has a byte to itself. -/
theorem length_pairCodes (codes : List Nat) :
    (pairCodes codes).length = (codes.length + 1) / 2 := by
  fun_induction pairCodes codes with
  | case1 => rfl
  | case2 low => rw [List.length_singleton, List.length_singleton]
  | case3 low high codes ih =>
    rw [List.length_cons, List.length_cons, List.length_cons, ih]
    omega

/-- Width codes come back from their bytes, with one more if their number is odd. -/
theorem splitCodes_pairCodes {codes : List Nat} (h : ∀ code ∈ codes, code < 16) :
    ∃ unused, splitCodes (pairCodes codes) = codes ++ unused := by
  fun_induction pairCodes codes with
  | case1 => exact ⟨[], rfl⟩
  | case2 low =>
    have hlow : low < 16 := h low List.mem_cons_self
    have hbyte : (UInt8.ofNat low).toNat = low := Utf8.toNat_ofNat_of_lt (by omega)
    -- the upper half of the last byte is a code that no number has
    refine ⟨[low / 16], ?_⟩
    simp only [splitCodes, List.flatMap_cons, List.flatMap_nil, hbyte, Nat.mod_eq_of_lt hlow]
    rfl
  | case3 low high codes ih =>
    have hlow : low < 16 := h low List.mem_cons_self
    have hhigh : high < 16 := h high (List.mem_cons_of_mem _ List.mem_cons_self)
    obtain ⟨unused, hcodes⟩ :=
      ih fun code hcode => h code (List.mem_cons_of_mem _ (List.mem_cons_of_mem _ hcode))
    -- the two halves of the byte do not mix, as both codes are below 16
    have hbyte : (UInt8.ofNat (low + 16 * high)).toNat = low + 16 * high :=
      Utf8.toNat_ofNat_of_lt (by omega)
    have hfirst : (low + 16 * high) % 16 = low := by omega
    have hsecond : (low + 16 * high) / 16 = high := by omega
    refine ⟨unused, ?_⟩
    rw [splitCodes, List.flatMap_cons, hbyte, hfirst, hsecond, ← splitCodes, hcodes]
    rfl

/-! ### Integers in 64 bits -/

/-- An integer in two's complement, by its bits. -/
theorem toInt_eq (value : Int64) :
    value.toInt =
      if 2 * value.toUInt64.toNat < 0x10000000000000000 then (value.toUInt64.toNat : Int)
      else value.toUInt64.toNat - 0x10000000000000000 :=
  BitVec.toInt_eq_toNat_cond value.toBitVec

/-- The magnitude of an integer that is not negative has its bits. -/
theorem ofNat_natAbs_of_nonneg {value : Int64} (h : ¬ value.toInt < 0) :
    UInt64.ofNat value.toInt.natAbs = value.toUInt64 := by
  have hvalue := toInt_eq value
  have hlt := value.toUInt64.toNat_lt
  apply UInt64.toNat_inj.mp
  rw [UInt64.toNat_ofNat']
  split at hvalue <;> omega

/-- The bits of a negative integer are those of its magnitude, taken from zero. -/
theorem zero_sub_ofNat_natAbs {value : Int64} (h : value.toInt < 0) :
    0 - UInt64.ofNat value.toInt.natAbs = value.toUInt64 := by
  have hvalue := toInt_eq value
  have hlt := value.toUInt64.toNat_lt
  apply UInt64.toNat_inj.mp
  rw [UInt64.toNat_sub, UInt64.toNat_ofNat', UInt64.toNat_zero]
  split at hvalue <;> omega

/-! ### Arguments as they come back -/

namespace Argument

/-- The integer of the given bits that a conversion of the given kind reads. -/
def ofBits (kind : ArgKind) (bits : UInt64) : Argument :=
  if kind = .signed then .int bits.toInt64 else .uint bits

/-- An argument as it is read for a conversion of the given kind. -/
def asRead (kind : ArgKind) (a : Argument) : Argument :=
  if a.isInteger then ofBits kind a.bits else a

/-- Is the argument a text? -/
def isText : Argument → Bool
  | .text _ => true
  | _ => false

/-- What a conversion takes is a text exactly if the conversion is one of texts. -/
theorem fits_cases {kind : ArgKind} {a : Argument} (h : a.fits kind = true) :
    (kind = .text ∧ ∃ text, a = .text text) ∨ (kind ≠ .text ∧ a.isText = false) := by
  cases a with
  | text value =>
    cases kind with
    | text => exact .inl ⟨rfl, value, rfl⟩
    | _ => cases h
  | _ => cases kind <;> first | exact .inr ⟨by decide, rfl⟩ | cases h

theorem isText_asRead (kind : ArgKind) {a : Argument} (h : a.isText = false) :
    (a.asRead kind).isText = false := by
  unfold asRead ofBits
  split
  · split <;> rfl
  · exact h

theorem textBytes_of_isText {a : Argument} (h : a.isText = false) : a.textBytes = [] := by
  cases a <;> first | rfl | cases h

end Argument

/-! ### Numbers -/

open Decoder (consumes_pure)

/-- Reads the bits of an integer whose width code is `code`. -/
def readBits (code : Nat) : Decoder UInt64 :=
  if code ≤ fullWidth then Decoder.word code
  else (fun magnitude => 0 - magnitude) <$> Decoder.word (code - fullWidth)

/-- What is no float is read as the bits of an integer, which the kind of the conversion then
    interprets. -/
theorem readNumber_of_ne_float {kind : ArgKind} (h : kind ≠ .float) (id : FormatId) (code : Nat) :
    readNumber id kind code = Argument.ofBits kind <$> readBits code := by
  cases kind with
  | float => exact absurd rfl h
  | _ => by_cases hcode : code ≤ fullWidth <;> simp only [readNumber, readBits, hcode] <;> rfl

/-- A float is read from eight bytes, and under no other width code. -/
theorem readNumber_float (id : FormatId) (code : Nat) :
    readNumber id .float code =
      if code = fullWidth then (fun bits => .float ⟨bits⟩) <$> Decoder.word 8
      else Decoder.fail (.malformedPayload id (.floatWidth code)) := by
  by_cases hcode : code = fullWidth <;> simp [readNumber, hcode]

/-- A number without a sign is read back from the bytes that its width code counts. -/
theorem consumes_readBits {width value : Nat} (hwidth : width ≤ fullWidth)
    (h : value < Word.capacity width) :
    (readBits width).Consumes (Word.toBytes width value) (UInt64.ofNat value) := by
  rw [readBits, if_pos hwidth]
  exact Decoder.consumes_word h

/-- A magnitude is read back as the negative number. -/
theorem consumes_readBits_negative {width value : Nat} (hwidth : 0 < width)
    (h : value < Word.capacity width) :
    (readBits (fullWidth + width)).Consumes (Word.toBytes width value)
      (0 - UInt64.ofNat value) := by
  have hcode : ¬ fullWidth + width ≤ fullWidth := by omega
  rw [readBits, if_neg hcode, Nat.add_sub_cancel_left]
  exact (Decoder.consumes_word h).map _

/-- An integer is stored under a width code of four bits, from which its bits are read back. -/
theorem exists_packed_of_isInteger {a : Argument} (ha : a.isInteger = true) :
    ∃ p, a.packed? = some p ∧ p.code < 16 ∧ (readBits p.code).Consumes p.bytes a.bits := by
  -- a number without a sign, and the magnitude of one that is not negative
  have hplain {value : Nat} (h : value < Word.capacity 8) :
      (Packed.ofNat value).code < 16 ∧
        (readBits (Packed.ofNat value).code).Consumes (Packed.ofNat value).bytes
          (UInt64.ofNat value) := by
    have hwidth : Word.width value ≤ fullWidth := Word.width_le_iff.mpr h
    exact ⟨Nat.lt_of_le_of_lt hwidth (by decide), consumes_readBits hwidth (Word.lt_of_width value)⟩
  cases a with
  | uint value =>
    obtain ⟨hcode, hread⟩ := hplain (Word.toNat_lt_capacity value)
    rw [UInt64.ofNat_toNat] at hread
    exact ⟨_, rfl, hcode, hread⟩
  | int value =>
    by_cases hneg : value.toInt < 0
    · by_cases hwidth : Word.width value.toInt.natAbs < 8
      · -- the magnitude is shorter than the number itself
        have hpos : 0 < Word.width value.toInt.natAbs := by
          rw [Nat.pos_iff_ne_zero, ne_eq, ← Nat.le_zero, Word.width_le_iff, Word.capacity]
          omega
        have hread := consumes_readBits_negative hpos (Word.lt_of_width value.toInt.natAbs)
        rw [zero_sub_ofNat_natAbs hneg] at hread
        refine ⟨_, by rw [Argument.packed?, if_pos hneg, if_pos hwidth], ?_, hread⟩
        exact Nat.add_lt_add_left hwidth fullWidth
      · -- a magnitude of eight bytes has no code of its own, so all the bits are stored
        have hread := consumes_readBits (Nat.le_refl fullWidth)
          (Word.toNat_lt_capacity value.toUInt64)
        rw [UInt64.ofNat_toNat] at hread
        refine ⟨_, by rw [Argument.packed?, if_pos hneg, if_neg hwidth], ?_, hread⟩
        exact Nat.lt_of_lt_of_le (Nat.lt_succ_self fullWidth) (by decide)
    · have hmagnitude : value.toInt.natAbs < Word.capacity 8 := by
        have hvalue := toInt_eq value
        have hbits := Word.toNat_lt_capacity value.toUInt64
        split at hvalue <;> omega
      obtain ⟨hcode, hread⟩ := hplain hmagnitude
      rw [ofNat_natAbs_of_nonneg hneg] at hread
      exact ⟨_, by rw [Argument.packed?, if_neg hneg], hcode, hread⟩
  | float value => cases ha
  | text value => cases ha

/-- **A number is read back** as an alike argument, from a width code of four bits. -/
theorem exists_packed {kind : ArgKind} {a : Argument} (hfits : a.fits kind = true)
    (htext : a.isText = false) (id : FormatId) :
    ∃ p, a.packed? = some p ∧ p.code < 16 ∧
      (readNumber id kind p.code).Consumes p.bytes (a.asRead kind) := by
  cases ha : a.isInteger with
  | true =>
    have hfloat : kind ≠ .float := by
      rintro rfl
      rw [Argument.not_isInteger_of_fits_float hfits] at ha
      cases ha
    obtain ⟨p, hp, hcode, hread⟩ := exists_packed_of_isInteger ha
    refine ⟨p, hp, hcode, ?_⟩
    rw [readNumber_of_ne_float hfloat, Argument.asRead, if_pos ha]
    exact hread.map _
  | false =>
    -- a number that is no integer is a float, and only a float conversion takes it
    cases a with
    | float value =>
      have hkind : kind = .float := by cases kind <;> first | rfl | cases hfits
      have hread := (Decoder.consumes_word (Word.toNat_lt_capacity value.bits)).map
        fun bits => Argument.float ⟨bits⟩
      rw [UInt64.ofNat_toNat] at hread
      refine ⟨_, rfl, ?_, ?_⟩
      · exact Nat.lt_of_lt_of_le (Nat.lt_succ_self fullWidth) (by decide)
      · rw [hkind, readNumber_float]
        exact hread
    | int value => cases ha
    | uint value => cases ha
    | text value => cases htext

/-! ### Sections -/

/-- Arguments as they come back for conversions of the given kinds. -/
def asReadAll (kinds : List ArgKind) (args : List Argument) : List Argument :=
  List.zipWith Argument.asRead kinds args

/-- The numbers among arguments. -/
def numbersOf (args : List Argument) : List Argument := args.filter fun a => !a.isText

section Sections

variable {kinds : List ArgKind} {args : List Argument}

/-- A width code takes four bits. -/
theorem code_lt (h : List.Forall₂ (fun kind a => Argument.fits a kind = true) kinds args) :
    ∀ code ∈ (args.filterMap Argument.packed?).map Packed.code, code < 16 := by
  induction h with
  | nil => intro code hcode; cases hcode
  | cons hfits _ ih =>
    obtain ⟨rfl, text, rfl⟩ | ⟨-, htext⟩ := Argument.fits_cases hfits
    · exact ih
    · obtain ⟨p, hp, hcode, -⟩ := exists_packed hfits htext ⟨0⟩
      rw [List.filterMap_cons_some hp, List.map_cons]
      intro code hmem
      obtain rfl | hmem := List.mem_cons.mp hmem
      · exact hcode
      · exact ih code hmem

/-- There are as many numbers as conversions that are none of texts. -/
theorem length_numbers (h : List.Forall₂ (fun kind a => Argument.fits a kind = true) kinds args) :
    (args.filterMap Argument.packed?).length = kinds.countP (· != .text) := by
  induction h with
  | nil => rfl
  | cons hfits _ ih =>
    obtain ⟨rfl, text, rfl⟩ | ⟨hkind, htext⟩ := Argument.fits_cases hfits
    · exact ih
    · obtain ⟨p, hp, -⟩ := exists_packed hfits htext ⟨0⟩
      rw [List.filterMap_cons_some hp, List.length_cons, ih,
        List.countP_cons_of_pos (by simpa using hkind)]

/-- The numbers of a payload are read back. -/
theorem consumes_readNumbers (id : FormatId) (unused : List Nat)
    (h : List.Forall₂ (fun kind a => Argument.fits a kind = true) kinds args) :
    (readNumbers id (kinds.filter (· != .text))
        ((args.filterMap Argument.packed?).map Packed.code ++ unused)).Consumes
      ((args.filterMap Argument.packed?).flatMap Packed.bytes)
      (numbersOf (asReadAll kinds args)) := by
  induction h with
  | nil => exact consumes_pure []
  | @cons kind a kinds args hfits _ ih =>
    obtain ⟨rfl, text, rfl⟩ | ⟨hkind, htext⟩ := Argument.fits_cases hfits
    · -- a text has neither a width code nor bytes among the numbers
      exact ih
    · obtain ⟨p, hp, -, hnumber⟩ := exists_packed hfits htext id
      have hread := Argument.isText_asRead kind htext
      rw [List.filterMap_cons_some hp, List.filter_cons_of_pos (by simpa using hkind), asReadAll,
        List.zipWith_cons_cons, numbersOf, List.filter_cons_of_pos (by simp [hread]),
        List.map_cons, List.flatMap_cons, List.cons_append, readNumbers]
      exact hnumber.bind (ih.bind_nil (consumes_pure _))

/-- A number takes its place without reading anything. -/
theorem readTexts_number {kind : ArgKind} (hkind : kind ≠ .text) (number : Argument)
    (numbers : List Argument) :
    readTexts (kind :: kinds) (number :: numbers) =
      readTexts kinds numbers >>= fun args => pure (number :: args) := by
  cases kind with
  | text => exact absurd rfl hkind
  | _ => rfl

/-- The bytes of a text without a NUL are read up to the zero behind them. -/
theorem consumes_textBytes {text : String} (h : (Argument.text text).hasNul = false) :
    Decoder.untilZero.Consumes (Argument.text text).textBytes (Utf8.encode text) := by
  have hzero : 0 ∉ Utf8.encode text :=
    Utf8.zero_not_mem_encode (by simpa [Argument.hasNul] using h)
  refine Decoder.consumes_untilZero ?_
  rintro b hb rfl
  exact hzero hb

/-- The texts of a payload are read back, and take their places between the numbers. -/
theorem consumes_readTexts
    (h : List.Forall₂ (fun kind a => Argument.fits a kind = true) kinds args)
    (hnul : ∀ a ∈ args, a.hasNul = false) :
    (readTexts kinds (numbersOf (asReadAll kinds args))).Consumes
      (args.flatMap Argument.textBytes) (asReadAll kinds args) := by
  induction h with
  | nil => exact consumes_pure []
  | @cons kind a kinds args hfits _ ih =>
    have ih := ih fun b hb => hnul b (List.mem_cons_of_mem _ hb)
    rw [asReadAll, List.zipWith_cons_cons, List.flatMap_cons]
    obtain ⟨rfl, text, rfl⟩ | ⟨hkind, htext⟩ := Argument.fits_cases hfits
    · -- the text comes from its own bytes, up to the zero behind them
      have htext := consumes_textBytes (hnul (.text text) List.mem_cons_self)
      refine htext.bind ?_
      rw [Utf8.decodeLossy_encode]
      exact ih.bind_nil (consumes_pure _)
    · -- a number was read before, and only takes its place
      have hread := Argument.isText_asRead kind htext
      rw [numbersOf, List.filter_cons_of_pos (by simp [hread]), Argument.textBytes_of_isText htext,
        List.nil_append, readTexts_number hkind]
      exact ih.bind_nil (consumes_pure _)

/-! ### Cut payloads -/

/-- A number is read by plain requests; only the width of a float can be wrong. -/
theorem plain_readNumber (id : FormatId) (kind : ArgKind) (code : Nat) :
    (readNumber id kind code).Plain := by
  by_cases hkind : kind = .float
  · rw [hkind, readNumber_float]
    split
    · exact (Decoder.Plain.word 8).map _
    · exact .fail rfl
  · rw [readNumber_of_ne_float hkind, readBits]
    split
    · exact (Decoder.Plain.word _).map _
    · exact ((Decoder.Plain.word _).map _).map _

theorem plain_readNumbers (id : FormatId) (kinds : List ArgKind) (codes : List Nat) :
    (readNumbers id kinds codes).Plain := by
  fun_induction readNumbers id kinds codes with
  | case1 kind kinds code codes ih =>
    exact (plain_readNumber id kind code).bind fun number => ih.bind fun numbers => .succeed _
  | case2 => exact .succeed []

theorem plain_readTexts (kinds : List ArgKind) (numbers : List Argument) :
    (readTexts kinds numbers).Plain := by
  fun_induction readTexts kinds numbers with
  | case1 => exact .succeed []
  | case2 numbers kinds ih =>
    exact Decoder.Plain.untilZero.bind fun bytes => ih.bind fun args => .succeed _
  | case3 numbers kind kinds _ ih => exact ih.bind fun args => .succeed _

end Sections

namespace Template

variable {t : Template} {args : List Argument} {payload : Bytes}

/-- What packing says about arguments and payload where it succeeds. -/
theorem pack_eq_ok (h : t.pack args = .ok payload) :
    t.check args = .ok () ∧ (∀ a ∈ args, a.hasNul = false) ∧
      payload = pairCodes ((args.filterMap Argument.packed?).map Packed.code) ++
        ((args.filterMap Argument.packed?).flatMap Packed.bytes ++
          args.flatMap Argument.textBytes) := by
  unfold pack at h
  cases hcheck : t.check args with
  | error error =>
    rw [hcheck] at h
    cases h
  | ok _ =>
    rw [hcheck] at h
    simp only [bind, Except.bind] at h
    split at h
    · cases h
    · rename_i hnone
      refine ⟨rfl, ?_, ?_⟩
      · -- the search for a NUL looks at each argument with its place
        intro a ha
        obtain ⟨index, hindex⟩ := List.mem_iff_getElem?.mp ha
        have hmem := List.mk_mem_zipIdx_iff_getElem?.mpr hindex
        simpa using List.find?_eq_none.mp hnone _ hmem
      · rw [← List.append_assoc]
        exact (Except.ok.inj h).symm

/-- Arguments that the template takes are packed, unless a text among them holds a NUL. -/
theorem pack_of_check (hcheck : t.check args = .ok ()) (hnul : ∀ a ∈ args, a.hasNul = false) :
    t.pack args = .ok (pairCodes ((args.filterMap Argument.packed?).map Packed.code) ++
      ((args.filterMap Argument.packed?).flatMap Packed.bytes ++
        args.flatMap Argument.textBytes)) := by
  unfold pack
  rw [hcheck]
  simp only [bind, Except.bind]
  split
  · -- the argument that was found would hold a NUL
    rename_i a index hfound
    have hmem := List.mk_mem_zipIdx_iff_getElem?.mp (List.mem_of_find?_eq_some hfound)
    have hhas := List.find?_some hfound
    simp only [hnul a (List.mem_of_getElem? hmem)] at hhas
    cases hhas
  · rw [List.append_assoc]

/-- **A payload is read back.** -/
theorem consumes_unpack (h : t.pack args = .ok payload) (id : FormatId) :
    (t.unpack id).Consumes payload (asReadAll t.argKinds args) := by
  obtain ⟨hcheck, hnul, rfl⟩ := pack_eq_ok h
  have hfits := check_eq_ok_iff_fits.mp hcheck
  obtain ⟨unused, hcodes⟩ := splitCodes_pairCodes (code_lt hfits)
  have hcount := length_numbers hfits
  -- the number of code bytes follows from the template, not from the payload
  have hlength := length_pairCodes ((args.filterMap Argument.packed?).map Packed.code)
  rw [List.length_map, hcount] at hlength
  rw [unpack, nonTextCount, ← hlength]
  refine (Decoder.consumes_bytes _).bind ?_
  rw [hcodes]
  exact (consumes_readNumbers id unused hfits).bind (consumes_readTexts hfits hnul)

/-- **A payload that is cut short is noticed**, and nothing after a payload matters. -/
theorem plain_unpack (t : Template) (id : FormatId) : (t.unpack id).Plain := by
  refine (Decoder.Plain.bytes _).bind fun codes => ?_
  refine (plain_readNumbers id _ _).bind fun numbers => ?_
  exact plain_readTexts t.argKinds numbers

end Template

end BinaryLog
