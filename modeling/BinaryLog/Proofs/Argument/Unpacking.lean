import BinaryLog.Proofs.Argument.Sections
import BinaryLog.Proofs.Decoder.Failure

namespace BinaryLog

/-!
# Arguments read from any bytes

Whatever bytes a payload holds, the arguments that are read from it are those that its template
takes, so they can always be printed.

* `Template.check_of_run_unpack`, what is read is taken;
* `FirstMisfit`, the first float that is announced with another width code than that of eight bytes,
  and `failsOnlyBy_readNumbers`, numbers that are long enough are read up to it;
* `Template.Misannounces` and `Template.AnnouncesFloat`, the width codes that a payload announces
  its floats with;
* `Template.failsOnlyBy_unpack`, a payload that is long enough can be read unless a float is
  announced with another width code than that of eight bytes.
-/

/-! ### What is read is taken -/

namespace Template

variable {t : Template} {s u : Source} {id : FormatId} {args : List Argument}

/-- **Whatever is read from a payload**, its template takes it. -/
theorem check_of_run_unpack (h : (t.unpack id).run s = (.ok args, u)) : t.check args = .ok () :=
  check_eq_ok_iff_fits.mpr ((isRead_of_run_unpack h).imp fun _ _ hread => hread.fits)

/-- **Unpacked arguments can always be rendered.** -/
theorem exists_write_of_run_unpack (h : (t.unpack id).run s = (.ok args, u)) :
    ∃ text, t.write args = .ok text :=
  ⟨_, write_of_check (check_of_run_unpack h)⟩

end Template

/-! ### What is not read -/

/-- The number at `i` is the first float that is not announced by eight bytes but by `code`, and the
    numbers before it are among the `available` bytes. -/
structure FirstMisfit (kinds : List ArgKind) (codes : List Nat) (available i code : Nat) :
    Prop where
  isFloat : kinds[i]? = some .float
  announced : codes[i]? = some code
  wrong : code ≠ fullWidth
  earlier : ∀ j < i, kinds[j]? = some .float → codes[j]? = some fullWidth
  present : valueLength (codes.take i) ≤ available

namespace FirstMisfit

variable {kind : ArgKind} {kinds : List ArgKind} {first : Nat} {codes : List Nat}
  {available i code : Nat}

/-- A float that its width code does not announce is a misfit in the first place. -/
theorem head (hwrong : code ≠ fullWidth) :
    FirstMisfit (.float :: kinds) (code :: codes) available 0 code where
  isFloat := rfl
  announced := rfl
  wrong := hwrong
  earlier _ h := absurd h (Nat.not_lt_zero _)
  present := Nat.zero_le _

/-- Behind a number that is read, the first misfit is that of the numbers left. -/
theorem succ_iff (hfirst : kind = .float → first = fullWidth) :
    FirstMisfit (kind :: kinds) (first :: codes) (storedWidth first + available) (i + 1) code ↔
      FirstMisfit kinds codes available i code := by
  constructor
  · intro h
    refine ⟨h.isFloat, h.announced, h.wrong, ?_, ?_⟩
    · exact fun j hj => h.earlier (j + 1) (Nat.succ_lt_succ hj)
    · have hpresent := h.present
      rw [List.take_succ_cons, valueLength_cons] at hpresent
      omega
  · intro h
    refine ⟨h.isFloat, h.announced, h.wrong, ?_, ?_⟩
    · rintro (_ | j) hj hkind
      · exact congrArg some (hfirst (Option.some.inj hkind))
      · exact h.earlier j (Nat.lt_of_succ_lt_succ hj) hkind
    · rw [List.take_succ_cons, valueLength_cons]
      exact Nat.add_le_add_left h.present _

/-- A number in front of the first misfit is there, and it is no misfit. -/
theorem of_succ (h : FirstMisfit (kind :: kinds) (first :: codes) available (i + 1) code) :
    (kind = .float → first = fullWidth) ∧ storedWidth first ≤ available ∧
      FirstMisfit kinds codes (available - storedWidth first) i code := by
  have hfirst : kind = .float → first = fullWidth := fun hkind =>
    Option.some.inj (h.earlier 0 (Nat.succ_pos i) (congrArg some hkind))
  have hpresent := h.present
  rw [List.take_succ_cons, valueLength_cons] at hpresent
  have hle : storedWidth first ≤ available := by omega
  exact ⟨hfirst, hle, (succ_iff hfirst).mp (by rwa [Nat.add_sub_cancel' hle])⟩

end FirstMisfit

section Sections

variable {kind : ArgKind} {kinds : List ArgKind} {code : Nat} {codes : List Nat} {s : Source}
  {id : FormatId} {own : DecodeError → Prop}

/-- A number fails for missing bytes, or for the width code of a float. -/
theorem failsOnlyBy_readNumber
    (h : kind = .float → code ≠ fullWidth → own (.malformedPayload id (.floatWidth code))) :
    s.FailsOnlyBy own ((readNumber id kind code).run s) := by
  by_cases hfloat : kind = .float
  · rw [hfloat, readNumber_float]
    split
    · exact Decoder.failsOnlyBy_map _ (Decoder.failsOnlyBy_word 8)
    · exact Decoder.failsOnlyBy_fail (h hfloat ‹_›)
  · rw [readNumber_of_ne_float hfloat, readBits]
    apply Decoder.failsOnlyBy_map
    split
    · exact Decoder.failsOnlyBy_word _
    · exact Decoder.failsOnlyBy_map _ (Decoder.failsOnlyBy_word _)

/-- **Numbers** fail only by the width code of the first float that is not announced by eight
    bytes. -/
theorem failsOnlyBy_readNumbers
    (h : ∀ i code, FirstMisfit kinds codes s.ahead.length i code →
      own (.malformedPayload id (.floatWidth code))) :
    s.FailsOnlyBy own ((readNumbers id kinds codes).run s) := by
  fun_induction readNumbers id kinds codes generalizing s with
  | case1 kind kinds code codes ih =>
    refine Decoder.failsOnlyBy_bind ?_ fun number u hnumber => Decoder.failsOnlyBy_bind ?_ ?_
    · refine failsOnlyBy_readNumber fun hkind hcode => h 0 code ?_
      rw [hkind]
      exact .head hcode
    · -- the numbers left lie ahead behind the one that is read
      obtain ⟨hread, hfloat⟩ := run_readNumber_eq_ok hnumber
      have hahead := (Decoder.reaches_of_run hnumber).ahead_eq
      refine ih fun i other hmisfit => h (i + 1) other ?_
      rw [hahead, List.length_append, hread]
      exact (FirstMisfit.succ_iff hfloat).mpr hmisfit
    · exact fun _ v _ => Source.failsOnlyBy_ok _ v
  | case2 => exact Source.failsOnlyBy_ok _ s

/-- Texts fail only for want of bytes. -/
theorem failsOnlyBy_readTexts (numbers : List Argument) :
    s.FailsOnlyBy own ((readTexts kinds numbers).run s) := by
  fun_induction readTexts kinds numbers generalizing s with
  | case1 => exact Source.failsOnlyBy_ok _ s
  | case2 numbers kinds ih =>
    refine Decoder.failsOnlyBy_bind Decoder.failsOnlyBy_untilZero fun bytes u _ => ?_
    exact Decoder.failsOnlyBy_bind ih fun _ v _ => Source.failsOnlyBy_ok _ v
  | case3 numbers kind kinds _ ih =>
    exact Decoder.failsOnlyBy_bind ih fun _ v _ => Source.failsOnlyBy_ok _ v

end Sections

namespace Template

variable {t : Template} {s : Source} {id : FormatId} {own : DecodeError → Prop} {payload : Bytes}
  {i code : Nat}

/-- The payload has all its width codes and all its numbers before the one at `i`, which is the
    first float that is not announced by eight bytes but by `code`. -/
structure Misannounces (t : Template) (payload : Bytes) (i code : Nat) : Prop where
  complete : t.codeLength ≤ payload.length
  first : FirstMisfit t.numberKinds (t.widthCodes payload) (payload.length - t.codeLength) i code

/-- The payload announces one of the template's floats with this width code. -/
def AnnouncesFloat (t : Template) (payload : Bytes) (code : Nat) : Prop :=
  ∃ i : Nat, t.numberKinds[i]? = some .float ∧
    (splitCodes (payload.take t.codeLength))[i]? = some code

/-- A misannounced float is announced by a width code that is none of a float. -/
theorem Misannounces.announcesFloat (h : t.Misannounces payload i code) :
    t.AnnouncesFloat payload code := by
  refine ⟨i, h.first.isFloat, ?_⟩
  obtain ⟨hi, hcode⟩ := List.getElem?_eq_some_iff.mp h.first.announced
  rw [← hcode]
  simp only [widthCodes, List.getElem_take]
  exact List.getElem?_eq_getElem _

/-- **A payload fails** only by the width code of the first float that is not announced by eight
    bytes. -/
theorem failsOnlyBy_unpack_of_misannounces
    (h : ∀ i code, t.Misannounces s.ahead i code →
      own (.malformedPayload id (.floatWidth code))) :
    s.FailsOnlyBy own ((t.unpack id).run s) := by
  rw [unpack_eq]
  refine Decoder.failsOnlyBy_bind (Decoder.failsOnlyBy_bytes _) fun codes u hcodes => ?_
  refine Decoder.failsOnlyBy_bind ?_ fun numbers v _ => failsOnlyBy_readTexts numbers
  -- the width codes are the first bytes of the payload
  obtain ⟨hlength, hread⟩ := Decoder.run_bytes_eq_ok hcodes
  have hahead := (Decoder.reaches_of_run hcodes).ahead_eq
  rw [hread] at hahead
  have htake : s.ahead.take t.codeLength = codes := by rw [hahead, List.take_left' hlength]
  have hrest : s.ahead.length = t.codeLength + u.ahead.length := by
    rw [hahead, List.length_append, hlength]
  rw [← readNumbers_take, length_numberKinds, ← htake, ← widthCodes]
  refine failsOnlyBy_readNumbers fun i code hmisfit => h i code ⟨by omega, ?_⟩
  rwa [hrest, Nat.add_sub_cancel_left]

/-- A payload fails only by the width code of a float. -/
theorem failsOnlyBy_unpack
    (h : ∀ code, t.AnnouncesFloat s.ahead code → code ≠ fullWidth →
      own (.malformedPayload id (.floatWidth code))) :
    s.FailsOnlyBy own ((t.unpack id).run s) :=
  failsOnlyBy_unpack_of_misannounces fun _ code hmisfit =>
    h code hmisfit.announcesFloat hmisfit.first.wrong

end Template

end BinaryLog
