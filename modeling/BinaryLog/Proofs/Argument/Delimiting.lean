import BinaryLog.Proofs.Argument.Unpacking
import BinaryLog.Proofs.Entry.Cutting

namespace BinaryLog

/-!
# Where a payload ends

A stream cannot be entered again behind a payload that is read wrong, so a payload has to say by
itself where it ends, and what cannot be read of it has to be noticed where it stands.

* `exists_run_readNumber` and `exists_run_readNumbers_of_misfit`, numbers are read as far as their
  bytes and their width codes allow;
* `Template.exists_run_unpack_of_misannounces`, and a float that is announced with another width
  code than that of eight bytes is refused there;
* `Template.Delimits` and `Template.Rejects`, what a payload that is read and one that is not read
  say, and `Template.run_unpack_delimits`, every payload is one of the two.
-/

/-! ### Numbers -/

section Numbers

open Decoder (run_map_ok)

variable {id : FormatId} {kind : ArgKind} {kinds : List ArgKind} {code : Nat} {codes : List Nat}
  {s : Source}

/-- A number whose bytes are all there is read, unless it is a float and announced otherwise. -/
theorem exists_run_readNumber (id : FormatId) (hfloat : kind = .float → code = fullWidth)
    (h : storedWidth code ≤ s.ahead.length) :
    ∃ number, (readNumber id kind code).run s = (.ok number, s.advance (storedWidth code)) := by
  have hword {width : Nat} (hwidth : width ≤ s.ahead.length) :
      ∃ value, (Decoder.word width).run s = (.ok value, s.advance width) :=
    ⟨_, Decoder.run_bind_ok (Decoder.run_bytes_of_le hwidth)⟩
  by_cases hkind : kind = .float
  · rw [hfloat hkind] at h ⊢
    obtain ⟨value, hvalue⟩ := hword h
    rw [hkind, readNumber_float, if_pos rfl]
    exact ⟨_, run_map_ok hvalue _⟩
  · rw [readNumber_of_ne_float hkind, readBits]
    by_cases hcode : code ≤ fullWidth
    · rw [storedWidth, if_pos hcode] at h ⊢
      obtain ⟨value, hvalue⟩ := hword h
      rw [if_pos hcode]
      exact ⟨_, run_map_ok hvalue _⟩
    · rw [storedWidth, if_neg hcode] at h ⊢
      obtain ⟨value, hvalue⟩ := hword h
      rw [if_neg hcode]
      exact ⟨_, run_map_ok (run_map_ok hvalue _) _⟩

/-- Numbers are refused at the first float that is not announced by eight bytes, if those before it
    are all there. -/
theorem exists_run_readNumbers_of_misfit {i : Nat}
    (h : FirstMisfit kinds codes s.ahead.length i code) :
    ∃ u, (readNumbers id kinds codes).run s =
      (.error (.malformedPayload id (.floatWidth code)), u) := by
  fun_induction readNumbers id kinds codes generalizing s i with
  | case1 kind kinds first codes ih =>
    cases i with
    | zero =>
      obtain rfl : kind = .float := Option.some.inj h.isFloat
      obtain rfl : first = code := Option.some.inj h.announced
      rw [readNumber_float, if_neg h.wrong]
      exact ⟨s, rfl⟩
    | succ i =>
      -- the numbers left are refused behind the one that is read
      obtain ⟨hfirst, hle, hrest⟩ := h.of_succ
      rw [← List.length_drop] at hrest
      obtain ⟨number, hnumber⟩ := exists_run_readNumber id hfirst hle
      obtain ⟨u, hu⟩ := ih (s := s.advance (storedWidth first)) hrest
      exact ⟨u, by rw [Decoder.run_bind_ok hnumber, Decoder.run_bind_error hu]⟩
  | case2 kinds codes hnone =>
    -- there is a float, and a code for it
    have hkinds := (List.getElem?_eq_some_iff.mp h.isFloat).1
    have hcodes := (List.getElem?_eq_some_iff.mp h.announced).1
    cases kinds with
    | nil => cases hkinds
    | cons kind kinds =>
      cases codes with
      | nil => cases hcodes
      | cons first codes => exact absurd rfl (hnone kind kinds first codes rfl)

end Numbers

/-! ### Payloads -/

namespace Template

variable {t : Template} {id : FormatId} {s u : Source} {args : List Argument} {error : DecodeError}

/-- A payload is refused at the first float that is not announced by eight bytes, if all before it
    is there. -/
theorem exists_run_unpack_of_misannounces (id : FormatId) {i code : Nat}
    (h : t.Misannounces s.ahead i code) :
    ∃ u, (t.unpack id).run s = (.error (.malformedPayload id (.floatWidth code)), u) := by
  rw [run_unpack h.complete]
  have hmisfit := h.first
  rw [← List.length_drop] at hmisfit
  obtain ⟨u, hu⟩ := exists_run_readNumbers_of_misfit (s := s.advance t.codeLength) hmisfit
  exact ⟨u, Decoder.run_bind_error hu⟩

/-- What a payload says that is read as `args`: it ends with its sections, its texts are those of
    its last section, what stands behind it does not matter, and it is noticed if a part of it is
    missing. -/
structure Delimits (t : Template) (id : FormatId) (s : Source) (args : List Argument) : Prop where
  complete : t.payloadLength s.ahead ≤ s.ahead.length
  texts : args.filterMap Argument.text? = (t.rawTexts s.ahead).map Utf8.decodeLossy
  replaced : ∀ rest : Bytes,
    (t.unpack id).run { s with ahead := s.ahead.take (t.payloadLength s.ahead) ++ rest } =
      (.ok args, { s with ahead := rest, offset := s.offset + t.payloadLength s.ahead })
  cut : ∀ k < t.payloadLength s.ahead, ∃ offset needed available u,
    (t.unpack id).run { s with ahead := s.ahead.take k } =
      (.error (.truncated offset needed available), u)

/-- What a payload says that is not read: it is malformed exactly if a float is announced with
    another width code than that of eight bytes and all before the float is there. Otherwise it is
    read to its end, and too short. -/
structure Rejects (t : Template) (id : FormatId) (s : Source) (error : DecodeError) (u : Source) :
    Prop where
  malformed_iff :
    (∃ fault, error = .malformedPayload id fault) ↔ ∃ i code, t.Misannounces s.ahead i code
  announced : ∀ i code, t.Misannounces s.ahead i code →
    error = .malformedPayload id (.floatWidth code)
  truncated : (∀ i code, ¬ t.Misannounces s.ahead i code) →
    (∃ offset needed available, error = .truncated offset needed available) ∧ u = s.exhaust

/-- **A payload that is read delimits itself.** Its length is counted by its own width codes and
    zeros, what follows does not matter, and any cut within it is noticed. -/
theorem delimits_of_run_unpack (hending : s.ending = .endOfStream)
    (h : (t.unpack id).run s = (.ok args, u)) : t.Delimits id s args := by
  have hdelimiting := (plain_unpack t id).selfDelimiting
  have hu := eq_advance_of_run_unpack h
  have hread : s.readTo u = s.ahead.take (t.payloadLength s.ahead) := by
    rw [hu, Source.readTo_advance]
  -- what was read was there
  have hcomplete : t.payloadLength s.ahead ≤ s.ahead.length := by
    have hoffset := (Decoder.reaches_of_run h).length_le_offset
    rw [hu, Source.advance] at hoffset
    exact Nat.le_of_add_le_add_left hoffset
  have hlength := List.length_take_of_le hcomplete
  refine ⟨hcomplete, texts_of_run_unpack h, fun rest => ?_, fun k hk => ?_⟩
  -- whatever stands behind the payload, the same bytes are read again
  · have hconsumes := hdelimiting.determined h
    rw [hread] at hconsumes
    rw [hconsumes _ rest rfl, Source.advance, List.drop_left, hlength]
  · -- the part that is left stops before the payload does
    have hpart : s.ahead.take k <+: s.readTo u := by
      rw [hread]
      exact List.take_prefix_take_left (Nat.le_of_lt hk)
    have hlt : (s.ahead.take k).length < (s.readTo u).length := by
      rw [hread, hlength, List.length_take]
      omega
    have hshort := hdelimiting.fallsShort h { s with ahead := s.ahead.take k } hpart hlt
    obtain ⟨offset, needed, available, hrun, -⟩ := hshort.eq_truncated hending
    exact ⟨offset, needed, available, _, hrun⟩

/-- A payload is not read because bytes are missing or a float is announced wrong. -/
theorem truncated_or_misannounces (hending : s.ending = .endOfStream)
    (h : (t.unpack id).run s = (.error error, u)) :
    ((∃ offset needed available, error = .truncated offset needed available) ∧ u = s.exhaust) ∨
      ∃ i code, t.Misannounces s.ahead i code := by
  have hfails : s.FailsOnlyBy (fun _ => ∃ i code, t.Misannounces s.ahead i code)
      ((t.unpack id).run s) :=
    failsOnlyBy_unpack_of_misannounces fun i code hmisfit => ⟨i, code, hmisfit⟩
  -- without a failure of the device, missing bytes are a truncation
  refine (hfails h).imp_left fun hshort => ?_
  obtain ⟨offset, needed, available, hrun, -⟩ := hshort.eq_truncated hending
  rw [h] at hrun
  obtain ⟨herror, hu⟩ := Prod.mk.inj hrun
  exact ⟨⟨offset, needed, available, Except.error.inj herror⟩, hu⟩

/-- **A payload that is not read** is refused at the first request that cannot be met, in the order
    in which the sections are read. -/
theorem rejects_of_run_unpack (hending : s.ending = .endOfStream)
    (h : (t.unpack id).run s = (.error error, u)) : t.Rejects id s error u := by
  have hannounced : ∀ i code, t.Misannounces s.ahead i code →
      error = .malformedPayload id (.floatWidth code) := by
    intro i code hmisfit
    obtain ⟨v, hv⟩ := exists_run_unpack_of_misannounces id hmisfit
    rw [h] at hv
    exact Except.error.inj (Prod.mk.inj hv).1
  -- both causes cannot be at once, as a misannounced float fails for nothing else
  have hcause := truncated_or_misannounces hending h
  refine ⟨⟨?_, ?_⟩, hannounced, fun hnone => ?_⟩
  · rintro ⟨fault, rfl⟩
    obtain ⟨⟨offset, needed, available, herror⟩, -⟩ | hmisfit := hcause
    · cases herror
    · exact hmisfit
  · rintro ⟨i, code, hmisfit⟩
    exact ⟨_, hannounced i code hmisfit⟩
  · obtain htruncated | ⟨i, code, hmisfit⟩ := hcause
    · exact htruncated
    · exact absurd hmisfit (hnone i code)

/-- **Payloads delimit themselves.** From a device that does not fail, a payload is read up to the
    end of its sections and whatever stands behind it, or it is refused where it has to be. -/
theorem run_unpack_delimits (t : Template) (id : FormatId) {s : Source}
    (hending : s.ending = .endOfStream) :
    (∀ args u, (t.unpack id).run s = (.ok args, u) →
      u = s.advance (t.payloadLength s.ahead) ∧ t.Delimits id s args) ∧
    ∀ error u, (t.unpack id).run s = (.error error, u) → t.Rejects id s error u :=
  ⟨fun _ _ h => ⟨eq_advance_of_run_unpack h, delimits_of_run_unpack hending h⟩,
    fun _ _ h => rejects_of_run_unpack hending h⟩

/-- A negative number, a float and a text in front of another byte, and the same with seven bytes
    announced for the float. -/
theorem run_unpack_delimits_of_seven_bytes :
    let template : Template :=
      { source := "%d%f%s"
        pieces := [.directive { conversion := .decimal },
          .directive { conversion := .fixed false }, .directive { conversion := .text }] }
    let payload : Bytes := [5, 0, 0, 0, 0, 0, 0, 0, 0x40, 0x68, 0x69, 0, 0xFF]
    let right := Source.ofBytes (0x89 :: payload)
    let wrong := Source.ofBytes (0x79 :: payload)
    let args : List Argument := [.int (-5), .float (Binary64.ofNat 2), .text "hi"]
    let error := DecodeError.malformedPayload ⟨7⟩ (.floatWidth 7)
    (right.ending = .endOfStream ∧ (template.unpack ⟨7⟩).run right = (.ok args, right.advance 13) ∧
        template.payloadLength right.ahead = 13 ∧ template.Delimits ⟨7⟩ right args) ∧
      wrong.ending = .endOfStream ∧
        (template.unpack ⟨7⟩).run wrong = (.error error, wrong.advance 2) ∧
        template.Rejects ⟨7⟩ wrong error (wrong.advance 2) := by
  intro template payload right wrong args error
  have hright : (template.unpack ⟨7⟩).run right = (.ok args, right.advance 13) := by
    decide +kernel
  have hwrong : (template.unpack ⟨7⟩).run wrong = (.error error, wrong.advance 2) := by
    decide +kernel
  refine ⟨⟨rfl, hright, by decide +kernel, ?_⟩, rfl, hwrong, ?_⟩
  · exact ((run_unpack_delimits template ⟨7⟩ (s := right) rfl).1 _ _ hright).2
  · exact (run_unpack_delimits template ⟨7⟩ (s := wrong) rfl).2 _ _ hwrong

end Template

end BinaryLog
