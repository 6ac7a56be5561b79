import BinaryLog.Proofs.Argument.Packing
import Mathlib.Algebra.Ring.Nat

namespace BinaryLog

/-!
# The sections of a payload

Where a payload can be read, its width codes say how many bytes each number takes, and each text
goes up to the next zero.

* `NumbersRead` and `TextsRead`, what the two sections behind the width codes are read as, with one
  rule for each step;
* `Argument.IsRead`, the arguments that conversions of a kind read;
* `Template.widthCodes` and `Template.rawTexts`, the width codes and the bytes of the texts;
* `Template.exists_sections`, a payload that is read is read section by section, and
  `Template.eq_advance_of_run_unpack`, the bytes that it takes.
-/

/-! ### Width codes -/

/-- Each byte holds two width codes. -/
theorem length_splitCodes (bytes : Bytes) : (splitCodes bytes).length = 2 * bytes.length := by
  induction bytes with
  | nil => rfl
  | cons b bytes ih =>
    rw [splitCodes, List.flatMap_cons, ← splitCodes, List.length_append, ih]
    simp only [List.length_cons, List.length_nil]
    omega

/-- The bytes that a number takes under a width code. -/
def storedWidth (code : Nat) : Nat := if code ≤ fullWidth then code else code - fullWidth

/-- The bytes that numbers take under their width codes. -/
def valueLength (codes : List Nat) : Nat := (codes.map storedWidth).sum

@[simp] theorem valueLength_nil : valueLength [] = 0 := rfl

@[simp] theorem valueLength_cons (code : Nat) (codes : List Nat) :
    valueLength (code :: codes) = storedWidth code + valueLength codes := rfl

/-! ### Arguments that are read -/

namespace Argument

/-- A conversion of the given kind takes the argument, and reads it as it is. -/
structure IsRead (kind : ArgKind) (a : Argument) : Prop where
  fits : a.fits kind = true
  asRead : a.asRead kind = a

/-- An integer of any bits is what its conversion reads. -/
theorem isRead_ofBits {kind : ArgKind} (hfloat : kind ≠ .float) (htext : kind ≠ .text)
    (bits : UInt64) : IsRead kind (ofBits kind bits) := by
  cases kind with
  | float => exact absurd rfl hfloat
  | text => exact absurd rfl htext
  | _ => exact ⟨rfl, rfl⟩

/-- What is read for a number is no text. -/
theorem IsRead.isText_eq {kind : ArgKind} {a : Argument} (h : IsRead kind a)
    (htext : kind ≠ .text) : a.isText = false := by
  obtain ⟨hkind, -⟩ | ⟨-, hnumber⟩ := fits_cases h.fits
  · exact absurd hkind htext
  · exact hnumber

/-- The text that an argument is. -/
def text? : Argument → Option String
  | .text value => some value
  | _ => none

theorem text?_of_isText {a : Argument} (h : a.isText = false) : a.text? = none := by
  cases a <;> first | rfl | cases h

end Argument

/-! ### Numbers -/

/-- The numbers of the given kinds are read under the width codes, one after the other. -/
inductive NumbersRead (id : FormatId) :
    List ArgKind → List Nat → Source → List Argument → Source → Prop
  | nil (codes : List Nat) (s : Source) : NumbersRead id [] codes s [] s
  | cons {kind : ArgKind} {kinds : List ArgKind} {code : Nat} {codes : List Nat} {s t u : Source}
      {number : Argument} {numbers : List Argument}
      (first : (readNumber id kind code).run s = (.ok number, t))
      (rest : NumbersRead id kinds codes t numbers u) :
      NumbersRead id (kind :: kinds) (code :: codes) s (number :: numbers) u

section Numbers

variable {id : FormatId} {kind : ArgKind} {kinds : List ArgKind} {code : Nat} {codes : List Nat}
  {s u : Source} {number : Argument} {numbers : List Argument}

/-- Under enough width codes, a number is read for each kind. -/
theorem numbersRead_of_run (hlength : kinds.length ≤ codes.length)
    (h : (readNumbers id kinds codes).run s = (.ok numbers, u)) :
    NumbersRead id kinds codes s numbers u := by
  fun_induction readNumbers id kinds codes generalizing s numbers with
  | case1 kind kinds code codes ih =>
    obtain ⟨number, t, hnumber, h⟩ := Decoder.run_bind_eq_ok h
    obtain ⟨rest, v, hrest, h⟩ := Decoder.run_bind_eq_ok h
    cases h
    exact .cons hnumber (ih (Nat.le_of_succ_le_succ hlength) hrest)
  | case2 kinds codes hnone =>
    -- there is no kind left, as there would be a code for it
    cases kinds with
    | nil =>
      cases h
      exact .nil codes _
    | cons kind kinds =>
      cases codes with
      | nil => cases hlength
      | cons code codes => exact absurd rfl (hnone kind kinds code codes rfl)

/-- Width codes behind those of the numbers do not matter. -/
theorem readNumbers_take (id : FormatId) (kinds : List ArgKind) (codes : List Nat) :
    readNumbers id kinds (codes.take kinds.length) = readNumbers id kinds codes := by
  induction kinds generalizing codes with
  | nil => rfl
  | cons kind kinds ih =>
    cases codes with
    | nil => rfl
    | cons code codes => rw [List.length_cons, List.take_succ_cons, readNumbers, readNumbers, ih]

/-- The bits of an integer that is read are those of a number that its bytes hold. -/
theorem run_readBits_eq_ok {bits : UInt64} (h : (readBits code).run s = (.ok bits, u)) :
    (s.readTo u).length = storedWidth code ∧
      ∃ value : UInt64, value.toNat < Word.capacity (storedWidth code) ∧
        bits = if code ≤ fullWidth then value else 0 - value := by
  by_cases hcode : code ≤ fullWidth
  · rw [readBits, if_pos hcode] at h
    rw [storedWidth, if_pos hcode]
    obtain ⟨hread, hlt⟩ := Decoder.run_word_eq_ok h
    exact ⟨hread, bits, hlt, (if_pos hcode).symm⟩
  · rw [readBits, if_neg hcode] at h
    rw [storedWidth, if_neg hcode]
    obtain ⟨value, hword, rfl⟩ := Decoder.run_map_eq_ok h
    obtain ⟨hread, hlt⟩ := Decoder.run_word_eq_ok hword
    exact ⟨hread, value, hlt, (if_neg hcode).symm⟩

/-- A number takes the bytes that its width code says, and a float takes eight. -/
theorem run_readNumber_eq_ok (h : (readNumber id kind code).run s = (.ok number, u)) :
    (s.readTo u).length = storedWidth code ∧ (kind = .float → code = fullWidth) := by
  by_cases hfloat : kind = .float
  · rw [hfloat, readNumber_float] at h
    split at h
    · rename_i hcode
      obtain ⟨bits, hword, -⟩ := Decoder.run_map_eq_ok h
      rw [hcode]
      exact ⟨(Decoder.run_word_eq_ok hword).1, fun _ => rfl⟩
    · cases h
  · rw [readNumber_of_ne_float hfloat] at h
    obtain ⟨bits, hbits, -⟩ := Decoder.run_map_eq_ok h
    exact ⟨(run_readBits_eq_ok hbits).1, fun h => absurd h hfloat⟩

/-- A number that is read is what its conversion reads. -/
theorem isRead_of_run_readNumber (htext : kind ≠ .text)
    (h : (readNumber id kind code).run s = (.ok number, u)) : number.IsRead kind := by
  by_cases hfloat : kind = .float
  · rw [hfloat, readNumber_float] at h
    split at h
    · obtain ⟨bits, -, rfl⟩ := Decoder.run_map_eq_ok h
      rw [hfloat]
      exact ⟨rfl, rfl⟩
    · cases h
  · rw [readNumber_of_ne_float hfloat] at h
    obtain ⟨bits, -, rfl⟩ := Decoder.run_map_eq_ok h
    exact Argument.isRead_ofBits hfloat htext bits

namespace NumbersRead

theorem reaches (h : NumbersRead id kinds codes s numbers u) : s.Reaches u := by
  induction h with
  | nil codes s => exact .refl s
  | cons first _ ih => exact (Decoder.reaches_of_run first).trans ih

/-- **Numbers** take the bytes that their width codes say. -/
theorem length_readTo (h : NumbersRead id kinds codes s numbers u) :
    (s.readTo u).length = valueLength (codes.take kinds.length) := by
  induction h with
  | nil codes s => simp
  | cons first rest ih =>
    rw [(Decoder.reaches_of_run first).readTo_append rest.reaches, List.length_append, ih,
      (run_readNumber_eq_ok first).1]
    simp

theorem length_eq (h : NumbersRead id kinds codes s numbers u) :
    kinds.length = numbers.length := by
  induction h with
  | nil codes s => rfl
  | cons first _ ih => simp [ih]

/-- **What is read is taken**, and read the same again. -/
theorem isRead (h : NumbersRead id kinds codes s numbers u) (htext : ∀ kind ∈ kinds, kind ≠ .text) :
    List.Forall₂ Argument.IsRead kinds numbers := by
  induction h with
  | nil codes s => exact .nil
  | cons first _ ih =>
    obtain ⟨hkind, hkinds⟩ := List.forall_mem_cons.mp htext
    exact .cons (isRead_of_run_readNumber hkind first) (ih hkinds)

/-- Numbers are no texts. -/
theorem isText_eq (h : NumbersRead id kinds codes s numbers u)
    (htext : ∀ kind ∈ kinds, kind ≠ .text) : ∀ number ∈ numbers, number.isText = false := by
  induction h with
  | nil codes s => exact List.forall_mem_nil _
  | cons first _ ih =>
    obtain ⟨hkind, hkinds⟩ := List.forall_mem_cons.mp htext
    have hnumber := (isRead_of_run_readNumber hkind first).isText_eq hkind
    exact List.forall_mem_cons.mpr ⟨hnumber, ih hkinds⟩

end NumbersRead

end Numbers

/-! ### Texts -/

/-- Texts are read for the conversions of texts, and numbers take their places between them. -/
inductive TextsRead : List ArgKind → List Argument → Source → List Argument → Source → Prop
  | nil (numbers : List Argument) (s : Source) : TextsRead [] numbers s [] s
  | text {kinds : List ArgKind} {numbers args : List Argument} {s t u : Source} {bytes : Bytes}
      (first : Decoder.untilZero.run s = (.ok bytes, t)) (rest : TextsRead kinds numbers t args u) :
      TextsRead (.text :: kinds) numbers s (.text (Utf8.decodeLossy bytes) :: args) u
  | number {kind : ArgKind} {kinds : List ArgKind} {number : Argument}
      {numbers args : List Argument} {s u : Source} (hkind : kind ≠ .text)
      (rest : TextsRead kinds numbers s args u) :
      TextsRead (kind :: kinds) (number :: numbers) s (number :: args) u

/-- The bytes in front of each of the first `count` zeros. -/
def cutTexts (count : Nat) (bytes : Bytes) : List Bytes := (bytes.splitOn 0).take count

/-- Each text takes its bytes and one more for the zero that ends it. -/
theorem length_endedTexts (texts : List Bytes) :
    (texts.flatMap (· ++ [0])).length = (texts.map fun text => text.length + 1).sum := by
  rw [List.length_flatMap]
  simp only [List.length_append, List.length_singleton]

section Texts

variable {kinds : List ArgKind} {numbers args : List Argument} {s t u : Source} {bytes : Bytes}

/-- Between numbers for all their conversions, texts are read for the others. -/
theorem textsRead_of_run (hlength : kinds.countP (· != .text) = numbers.length)
    (h : (readTexts kinds numbers).run s = (.ok args, u)) : TextsRead kinds numbers s args u := by
  induction kinds generalizing s numbers args with
  | nil =>
    cases h
    exact .nil numbers _
  | cons kind kinds ih =>
    by_cases hkind : kind = .text
    · rw [hkind] at h hlength ⊢
      obtain ⟨bytes, t, hbytes, h⟩ := Decoder.run_bind_eq_ok h
      obtain ⟨rest, v, hrest, h⟩ := Decoder.run_bind_eq_ok h
      cases h
      exact .text hbytes (ih hlength hrest)
    · rw [List.countP_cons_of_pos (by simpa using hkind)] at hlength
      -- a number is left, as the conversion takes one
      obtain ⟨number, numbers, rfl⟩ := List.exists_cons_of_length_eq_add_one hlength.symm
      rw [readTexts_number hkind] at h
      obtain ⟨rest, v, hrest, h⟩ := Decoder.run_bind_eq_ok h
      cases h
      exact .number hkind (ih (Nat.succ.inj hlength) hrest)

/-- The first text is what comes before the first zero. -/
theorem cutTexts_of_run (h : Decoder.untilZero.run s = (.ok bytes, t)) (count : Nat) :
    cutTexts (count + 1) s.ahead = bytes :: cutTexts count t.ahead := by
  obtain ⟨hread, hnonzero⟩ := Decoder.run_untilZero_eq_ok h
  have hzero : 0 ∉ bytes := fun hmem => hnonzero 0 hmem rfl
  rw [cutTexts, (Decoder.reaches_of_run h).ahead_eq, hread, List.append_assoc,
    List.singleton_append, List.splitOn_append_cons_self_of_not_mem hzero, List.take_succ_cons,
    cutTexts]

namespace TextsRead

/-- So are texts; numbers among them are not read again. -/
theorem reaches (h : TextsRead kinds numbers s args u) : s.Reaches u := by
  induction h with
  | nil numbers s => exact .refl s
  | text first _ ih => exact (Decoder.reaches_of_run first).trans ih
  | number _ _ ih => exact ih

/-- **Texts** take the bytes up to the next zero, and the zero. -/
theorem readTo_eq (h : TextsRead kinds numbers s args u) :
    s.readTo u = (cutTexts (kinds.count .text) s.ahead).flatMap (· ++ [0]) := by
  induction h with
  | nil numbers s => simp [cutTexts]
  | text first rest ih =>
    rw [(Decoder.reaches_of_run first).readTo_append rest.reaches, ih, List.count_cons_self,
      cutTexts_of_run first, List.flatMap_cons, (Decoder.run_untilZero_eq_ok first).1]
  | number hkind _ ih => rw [ih, List.count_cons_of_ne hkind]

/-- The texts among the arguments are those of these bytes. -/
theorem texts_eq (h : TextsRead kinds numbers s args u)
    (hnumbers : ∀ number ∈ numbers, number.isText = false) :
    args.filterMap Argument.text? =
      (cutTexts (kinds.count .text) s.ahead).map Utf8.decodeLossy := by
  induction h with
  | nil numbers s => simp [cutTexts]
  | text first rest ih =>
    rw [List.count_cons_self, cutTexts_of_run first, List.map_cons, ← ih hnumbers]
    rfl
  | number hkind _ ih =>
    obtain ⟨hnumber, hrest⟩ := List.forall_mem_cons.mp hnumbers
    rw [List.filterMap_cons_none (Argument.text?_of_isText hnumber), ih hrest,
      List.count_cons_of_ne hkind]

/-- Each argument is what its conversion reads: a text always, and a number if it was read as one.
    -/
theorem isRead (h : TextsRead kinds numbers s args u)
    (hnumbers : List.Forall₂ Argument.IsRead (kinds.filter (· != .text)) numbers) :
    List.Forall₂ Argument.IsRead kinds args := by
  induction h with
  | nil numbers s => exact .nil
  | text first _ ih => exact .cons ⟨rfl, rfl⟩ (ih hnumbers)
  | number hkind _ ih =>
    rw [List.filter_cons_of_pos (by simpa using hkind)] at hnumbers
    cases hnumbers with
    | cons hnumber hnumbers => exact .cons hnumber (ih hnumbers)

end TextsRead

end Texts

/-! ### Whole payloads -/

namespace Template

variable {t : Template} {s u : Source} {id : FormatId} {args : List Argument}

/-- The kinds of the arguments that a payload has a width code for. -/
def numberKinds (t : Template) : List ArgKind := t.argKinds.filter (· != .text)

/-- The bytes of the width codes. -/
def codeLength (t : Template) : Nat := (t.nonTextCount + 1) / 2

/-- The conversions with a width code are those that do not take a text. -/
theorem length_numberKinds (t : Template) : t.numberKinds.length = t.nonTextCount :=
  List.countP_eq_length_filter.symm

theorem ne_text_of_mem_numberKinds {kind : ArgKind} (h : kind ∈ t.numberKinds) : kind ≠ .text := by
  simpa using List.of_mem_filter h

/-- A payload is read section by section: the width codes, the numbers, the texts. -/
theorem unpack_eq (t : Template) (id : FormatId) :
    t.unpack id = Decoder.bytes t.codeLength >>= fun codes =>
      readNumbers id t.numberKinds (splitCodes codes) >>= readTexts t.argKinds := rfl

/-- The width codes of a payload, one for each number. -/
def widthCodes (t : Template) (payload : Bytes) : List Nat :=
  (splitCodes (payload.take t.codeLength)).take t.nonTextCount

/-- The bytes in front of the texts of a payload. -/
def textOffset (t : Template) (payload : Bytes) : Nat :=
  t.codeLength + valueLength (t.widthCodes payload)

/-- The bytes of the texts of a payload, without the zeros that end them. -/
def rawTexts (t : Template) (payload : Bytes) : List Bytes :=
  cutTexts (t.argKinds.count .text) (payload.drop (t.textOffset payload))

/-- The bytes of a payload: those of the width codes, of the numbers and of the texts, each of which
    is ended by a zero. -/
def payloadLength (t : Template) (payload : Bytes) : Nat :=
  t.textOffset payload + ((t.rawTexts payload).map fun text => text.length + 1).sum

/-- There is a width code for each number; that of an odd number of them is padded. -/
theorem length_widthCodes {payload : Bytes} (h : t.codeLength ≤ payload.length) :
    (t.widthCodes payload).length = t.numberKinds.length := by
  rw [widthCodes, List.length_take, length_splitCodes, List.length_take_of_le h,
    length_numberKinds, codeLength]
  omega

/-- A payload that has all its width codes is read by them. -/
theorem run_unpack (h : t.codeLength ≤ s.ahead.length) (id : FormatId) :
    (t.unpack id).run s = (readNumbers id t.numberKinds (t.widthCodes s.ahead) >>=
      readTexts t.argKinds).run (s.advance t.codeLength) := by
  rw [unpack_eq, Decoder.run_bind_ok (Decoder.run_bytes_of_le h), widthCodes, ← length_numberKinds,
    readNumbers_take]

/-- A payload that ends within its width codes is too short. -/
theorem fallsShort_unpack (h : s.ahead.length < t.codeLength) (id : FormatId) :
    s.FallsShort ((t.unpack id).run s) := by
  rw [unpack_eq]
  refine Decoder.fallsShort_bind_of_first ⟨0, t.codeLength, Nat.zero_le _, by omega, ?_⟩
  rw [Decoder.run_bytes_of_lt h, Source.advance_zero]

/-- **A payload that is read** is read section by section. -/
theorem exists_sections (h : (t.unpack id).run s = (.ok args, u)) : ∃ numbers,
    NumbersRead id t.numberKinds (t.widthCodes s.ahead) (s.advance t.codeLength) numbers
        (s.advance (t.textOffset s.ahead)) ∧
      TextsRead t.argKinds numbers (s.advance (t.textOffset s.ahead)) args u := by
  -- a payload that is read has all its width codes
  obtain hshort | hcomplete := Nat.lt_or_ge s.ahead.length t.codeLength
  · obtain ⟨start, needed, -, -, hrun⟩ := fallsShort_unpack hshort id
    rw [hrun] at h
    cases h
  rw [run_unpack hcomplete] at h
  obtain ⟨numbers, w, hnumbers, hargs⟩ := Decoder.run_bind_eq_ok h
  have hlength := length_widthCodes hcomplete
  have hnumbers := numbersRead_of_run (Nat.le_of_eq hlength.symm) hnumbers
  -- the numbers take the bytes that their width codes say
  have hw : w = s.advance (t.textOffset s.ahead) := by
    have hvalues := hnumbers.length_readTo
    rw [← hlength, List.take_length] at hvalues
    rw [hnumbers.reaches.eq_advance, hvalues, Source.advance_advance, textOffset]
  have hcount : t.argKinds.countP (· != .text) = numbers.length := by
    rw [← hnumbers.length_eq, length_numberKinds, nonTextCount]
  rw [hw] at hnumbers hargs
  exact ⟨numbers, hnumbers, textsRead_of_run hcount hargs⟩

/-- **The bytes that a payload takes** are those of its sections. -/
theorem eq_advance_of_run_unpack (h : (t.unpack id).run s = (.ok args, u)) :
    u = s.advance (t.payloadLength s.ahead) := by
  obtain ⟨numbers, -, htexts⟩ := exists_sections h
  have hlength : ((s.advance (t.textOffset s.ahead)).readTo u).length =
      ((t.rawTexts s.ahead).map fun text => text.length + 1).sum := by
    rw [htexts.readTo_eq, length_endedTexts]
    rfl
  rw [htexts.reaches.eq_advance, hlength, Source.advance_advance, payloadLength]

/-- The texts that are read of a payload. -/
theorem texts_of_run_unpack (h : (t.unpack id).run s = (.ok args, u)) :
    args.filterMap Argument.text? = (t.rawTexts s.ahead).map Utf8.decodeLossy := by
  obtain ⟨numbers, hnumbers, htexts⟩ := exists_sections h
  exact htexts.texts_eq (hnumbers.isText_eq fun _ => ne_text_of_mem_numberKinds)

/-- **Whatever is read from a payload** is what the conversions of its template read. -/
theorem isRead_of_run_unpack (h : (t.unpack id).run s = (.ok args, u)) :
    List.Forall₂ Argument.IsRead t.argKinds args := by
  obtain ⟨numbers, hnumbers, htexts⟩ := exists_sections h
  exact htexts.isRead (hnumbers.isRead fun _ => ne_text_of_mem_numberKinds)

end Template

end BinaryLog
