import BinaryLog.Proofs.Argument.Unpacking
import BinaryLog.Proofs.Catalog.Reading
import BinaryLog.Proofs.Replay.Accounting

namespace BinaryLog

/-!
# What a replay by catalog can fail with

A replay by the routines of a catalog reports nothing that the bytes or the device do not account
for. The byte that an entry is recognized by is the byte that its decoder reads, so no decoder finds
itself in front of another entry; and arguments that were read can be printed.

* `Catalog.Explains`, one rule for each error that can be reported, with what has to be ahead;
* `Metadata.failsOnlyBy_decode`, `Checkpoint.failsOnlyBy_decode` and `Catalog.failsOnlyBy_decode`,
  the parts of an entry, and `Entry.failsOnlyBy_decode`, all kinds of entries;
* `Replayer.explains_calls`, all errors of a replay are explained.
-/

/-! ### The rules -/

/-- A replay by `catalog` whose last message left `chain`, and which goes on in front of `s` and
    fails at `t`, has cause to report this error. -/
inductive Catalog.Explains (catalog : Catalog) (chain : Chain) (s t : Source) : DecodeError → Prop
  /-- The stream ends within a request. -/
  | truncated {start needed : Nat} (ending : s.ending = .endOfStream) (exhausted : t = s.exhaust)
      (inside : start ≤ s.ahead.length) (short : s.ahead.length < start + needed) :
      Explains catalog chain s t
        (.truncated (s.offset + start) needed (s.ahead.length - start))
  /-- The device fails behind the last byte, which has been read. -/
  | device {cause : String} (ending : s.ending = .fault cause) (exhausted : t = s.exhaust) :
      Explains catalog chain s t (.device cause)
  /-- The format of a message is not in the catalog. -/
  | unknownFormat {metadata : Metadata} {payload : Source}
      (header : (Metadata.decode chain).run s = (.ok metadata, payload))
      (unknown : catalog.get? metadata.formatId = none) :
      Explains catalog chain s t (.unknownFormat metadata.formatId)
  /-- The delta in the header of a message leads to a timestamp that does not fit in 64 bits. -/
  | timeReversed {first : UInt8} {rest : Bytes} {header : Header} {idDelta delta : UInt64}
      {u v : Source} (ahead : s.ahead = first :: rest)
      (announced : Header.ofByte first = .ok header)
      (idField : (Decoder.word (Header.idWidth header.idCode)).run (s.advance 1) = (.ok idDelta, u))
      (timeField : (Decoder.word header.timeWidth).run u = (.ok delta, v))
      (overflow : UInt64.size ≤ chain.timestamp.toNat + delta.toNat) :
      Explains catalog chain s t (.timeReversed chain.timestamp delta)
  /-- No entry begins with the next byte. -/
  | unrecognizedTag {tag : UInt8} {rest : Bytes} (ahead : s.ahead = tag :: rest) (nonzero : tag ≠ 0)
      (bits : tag.toNat % 4 = 0 ∨ tag.toNat % 4 = 3) :
      Explains catalog chain s t (.unrecognizedTag tag)
  /-- The next byte begins a message and announces more bytes than a timestamp has. -/
  | wideTimestamp {first : UInt8} {rest : Bytes} {width : Nat} (ahead : s.ahead = first :: rest)
      (message : first.toNat % 4 = 1) (announced : first.toNat / 16 = width) (least : 9 ≤ width)
      (most : width ≤ 15) :
      Explains catalog chain s t (.malformedHeader (.wideTimestamp width))
  /-- A float of a message is announced with another width code than that of eight bytes. -/
  | floatWidth {metadata : Metadata} {payload : Source} {entry : CatalogEntry} {template : Template}
      {code : Nat} (header : (Metadata.decode chain).run s = (.ok metadata, payload))
      (known : catalog.get? metadata.formatId = some (entry, template))
      (announced : template.AnnouncesFloat payload.ahead code) (other : code ≠ 8) :
      Explains catalog chain s t (.malformedPayload metadata.formatId (.floatWidth code))

/-- What is missing is missing at the end of the stream, or where the device fails. -/
theorem Source.FallsShort.explains {α : Type} {s t : Source} {error : DecodeError}
    (h : s.FallsShort ((.error error, t) : Except DecodeError α × Source)) (catalog : Catalog)
    (chain : Chain) : catalog.Explains chain s t error := by
  obtain ⟨start, needed, hinside, hshort, houtcome⟩ := h
  cases houtcome
  cases hending : s.ending with
  | endOfStream =>
    -- the request began among the bytes ahead, and counts what was left of them
    have herror : (s.advance start).shortfall needed =
        .truncated (s.offset + start) needed (s.ahead.length - start) := by
      rw [Source.shortfall, show (s.advance start).ending = s.ending from rfl, hending]
      simp [Source.advance]
    rw [herror]
    exact .truncated hending rfl hinside hshort
  | fault cause =>
    have herror : (s.advance start).shortfall needed = .device cause := by
      rw [Source.shortfall, show (s.advance start).ending = s.ending from rfl, hending]
    rw [herror]
    exact .device hending rfl

/-- A header that cannot be read announces a wide timestamp, and is said to. -/
theorem Catalog.Explains.of_malformedHeader {catalog : Catalog} {chain : Chain} {s t : Source}
    {fault : HeaderFault} (h : catalog.Explains chain s t (.malformedHeader fault)) :
    ∃ width, 9 ≤ width ∧ width ≤ 15 ∧
      fault.message = s!"timestamp delta width {width} exceeds 8" := by
  cases h with
  | wideTimestamp ahead message announced least most => exact ⟨_, least, most, rfl⟩

/-! ### Entries -/

variable {catalog : Catalog} {chain : Chain} {s : Source} {b : UInt8} {bs : Bytes}

/-- A first byte with the message tag is refused only if it announces a wide timestamp. -/
theorem Header.eq_wideTimestamp {fault : HeaderFault} (htag : b.toNat % 4 = 1)
    (h : ofByte b = .error fault) :
    fault = .wideTimestamp (b.toNat / 16) ∧ 9 ≤ b.toNat / 16 ∧ b.toNat / 16 ≤ 15 := by
  rw [ofByte, if_neg (not_not.mpr htag)] at h
  split at h
  · rename_i hwide
    cases h
    have hmax : maxTimeWidth = 8 := rfl
    have hbyte : b.toNat < 256 := b.toNat_lt
    exact ⟨rfl, by omega, by omega⟩
  · cases h

/-- **Why a header is not read**: bytes are missing, its first byte has a reserved width, or its
    time delta does not fit in 64 bits any more. -/
theorem Metadata.failsOnlyBy_decode (t : Source) (h : s.ahead = b :: bs) (htag : b.toNat % 4 = 1) :
    s.FailsOnlyBy (catalog.Explains chain s t) ((Metadata.decode chain).run s) := by
  rw [decode_eq]
  refine Decoder.failsOnlyBy_bind Decoder.failsOnlyBy_byte fun first u hfirst => ?_
  rw [Decoder.consumes_byte b s bs h] at hfirst
  cases hfirst
  cases hheader : Header.ofByte b with
  | error fault =>
    obtain ⟨rfl, hleast, hmost⟩ := Header.eq_wideTimestamp htag hheader
    exact Decoder.failsOnlyBy_fail (.wideTimestamp h htag rfl hleast hmost)
  | ok header =>
    -- the deltas are read under the widths that the first byte announces
    refine Decoder.failsOnlyBy_bind (Decoder.failsOnlyBy_word _) fun idDelta v hid => ?_
    refine Decoder.failsOnlyBy_bind (Decoder.failsOnlyBy_word _) fun timeDelta w htime => ?_
    -- a step is refused only if its sum does not fit
    by_cases hover : UInt64.size ≤ chain.timestamp.toNat + timeDelta.toNat
    · rw [Chain.step?_of_overflow idDelta.toUInt32 hover]
      exact Decoder.failsOnlyBy_fail (.timeReversed h hheader hid htime hover)
    · rw [Chain.step?_of_fits idDelta.toUInt32 (Nat.lt_of_not_le hover)]
      exact Source.failsOnlyBy_ok _ w

/-- A checkpoint is not read only where bytes are missing, once its tag was seen. -/
theorem Checkpoint.failsOnlyBy_decode {own : DecodeError → Prop} (h : s.ahead = b :: bs)
    (htag : b.toNat % 4 = 2) : s.FailsOnlyBy own (Checkpoint.decode.run s) := by
  refine Decoder.failsOnlyBy_bind Decoder.failsOnlyBy_byte fun first u hfirst => ?_
  rw [Decoder.consumes_byte b s bs h] at hfirst
  cases hfirst
  rw [if_neg (not_not.mpr htag)]
  exact Decoder.failsOnlyBy_bind (Decoder.failsOnlyBy_bytes _) fun body u _ =>
    Source.failsOnlyBy_ok _ u

/-- What is read can be printed, so a routine fails only where reading does. -/
theorem Template.failsOnlyBy_routine {template : Template} {id : FormatId}
    {own : DecodeError → Prop} (origin : String)
    (h : ∀ code, template.AnnouncesFloat s.ahead code → code ≠ fullWidth →
      own (.malformedPayload id (.floatWidth code))) :
    s.FailsOnlyBy own ((template.routine origin id).run s) := by
  refine Decoder.failsOnlyBy_bind (failsOnlyBy_unpack h) fun args u hargs => ?_
  obtain ⟨text, htext⟩ := exists_write_of_run_unpack hargs
  rw [htext]
  exact Source.failsOnlyBy_ok _ u

/-- **Why a payload is not read**: its format is unknown, bytes are missing, or a float is announced
    with a wrong width. -/
theorem Catalog.failsOnlyBy_decode {metadata : Metadata} {payload : Source} (showOrigin : Bool)
    (t : Source) (h : (Metadata.decode chain).run s = (.ok metadata, payload)) :
    payload.FailsOnlyBy (catalog.Explains chain s t)
      ((Registry.decode (catalog.registry showOrigin) metadata.formatId).run payload) := by
  rw [Registry.decode, Registry.find, get?_registry]
  cases hentry : catalog.get? metadata.formatId with
  | none =>
    refine Decoder.failsOnlyBy_bind (Decoder.failsOnlyBy_fail (.unknownFormat h hentry)) ?_
    rintro routine u ⟨⟩
  | some entry =>
    refine Decoder.failsOnlyBy_bind (Source.failsOnlyBy_ok _ payload) ?_
    rintro routine u ⟨⟩
    exact Template.failsOnlyBy_routine _ fun code => .floatWidth h hentry

/-- **The first byte and the decoder for it** agree, so whatever an entry fails with is
    explained. -/
theorem Entry.failsOnlyBy_decode (showOrigin : Bool) (t : Source) (h : s.ahead = b :: bs) :
    s.FailsOnlyBy (catalog.Explains chain s t)
      ((Entry.decode (catalog.registry showOrigin) chain (EntryKind.ofByte b)).run s) := by
  -- by the tag: the decoder that it chooses cannot fail for the tag any more
  by_cases hmessage : b.toNat % 4 = 1
  · rw [EntryKind.ofByte, if_pos hmessage, decode_message]
    refine Decoder.failsOnlyBy_bind (Metadata.failsOnlyBy_decode t h hmessage) ?_
    intro metadata payload hheader
    refine Decoder.failsOnlyBy_bind (Catalog.failsOnlyBy_decode showOrigin t hheader) ?_
    exact fun text u _ => Source.failsOnlyBy_ok _ u
  by_cases hcheckpoint : b.toNat % 4 = 2
  · rw [EntryKind.ofByte, if_neg hmessage, if_pos hcheckpoint]
    exact Decoder.failsOnlyBy_map _ (Checkpoint.failsOnlyBy_decode h hcheckpoint)
  rw [EntryKind.ofByte, if_neg hmessage, if_neg hcheckpoint, decode]
  split
  · exact Decoder.failsOnlyBy_map _ Decoder.failsOnlyBy_zeros
  · rename_i hzero
    exact Decoder.failsOnlyBy_fail (.unrecognizedTag h hzero (by omega))

/-! ### Replays -/

namespace Replayer

variable {r s : Replayer} {showOrigin : Bool}

/-- **A call that fails** has cause to. -/
theorem explains_next {error : ReplayError} (hregistry : r.registry = catalog.registry showOrigin)
    (h : r.next = (.error error, s)) :
    catalog.Explains r.chain r.source s.source error.cause := by
  obtain ⟨-, cause, u, rfl, rfl, hfailure⟩ := next_eq_error h
  obtain ⟨hahead, rfl, reason, hending, rfl⟩ | ⟨b, bs, hahead, hrun⟩ := hfailure
  · -- with no byte ahead, all of them have been read
    exact .device hending (by simp [Source.exhaust, hahead, Source.advance_zero])
  · rw [hregistry] at hrun
    obtain hshort | hown := Entry.failsOnlyBy_decode showOrigin u hahead hrun
    · rw [hrun] at hshort
      exact hshort.explains catalog r.chain
    · exact hown

/-- What follows the last byte is the same for all calls that are not over. -/
theorem ending_calls_of_error {error : ReplayError} {n : Nat}
    (h : (calls n r).next = (.error error, s)) :
    (calls n r).source.ending = r.source.ending := by
  obtain ⟨told, htells⟩ := exists_tells_calls (next_eq_error h).1
  exact htells.ending_eq

/-- **Whatever is replayed** by the routines of a catalog, and however often it is called, every
    error is explained by what lies ahead. The device has failed if it is said to have, and a header
    is malformed only by the width of its timestamp. What a template reads from any bytes, it takes
    and prints. -/
theorem explains_calls (catalog : Catalog) (showOrigin : Bool) (source : Source)
    (config : ReplayConfig) :
    let replay := start source (catalog.registry showOrigin) config
    (∀ n error s, (replay.calls n).next = (.error error, s) →
      catalog.Explains (replay.calls n).chain (replay.calls n).source s.source error.cause ∧
        (replay.calls n).source.ending = source.ending ∧
        ∀ fault, error.cause = .malformedHeader fault →
          ∃ width, 9 ≤ width ∧ width ≤ 15 ∧
            fault.message = s!"timestamp delta width {width} exceeds 8") ∧
      ∀ (template : Template) id s args t, (template.unpack id).run s = (.ok args, t) →
        template.check args = .ok () ∧ ∃ text, template.write args = .ok text := by
  intro replay
  refine ⟨fun n error s herror => ?_, fun template id s args t hargs => ?_⟩
  · have hexplains := explains_next (registry_calls n replay) herror
    refine ⟨hexplains, ending_calls_of_error herror, fun fault hfault => ?_⟩
    rw [hfault] at hexplains
    exact hexplains.of_malformedHeader
  · exact ⟨Template.check_of_run_unpack hargs, Template.exists_write_of_run_unpack hargs⟩

/-- A message with an integer and a float, behind which comes a message whose float is announced
    with four bytes, or one with a timestamp of nine. -/
theorem explains_calls_of_bad_widths :
    let template : Template :=
      { source := "%d%f"
        pieces := [.directive { conversion := .decimal },
          .directive { conversion := .fixed false }] }
    let catalog : Catalog := ({} : Catalog).insert ⟨7⟩ ({ id := ⟨7⟩, format := "%d%f" }, template)
    let registry := catalog.registry false
    let payload : Bytes := [0x81, 5, 0, 0, 0, 0, 0, 0, 0, 0x40]
    let args : List Argument := [.int 5, .float (Binary64.ofNat 2)]
    let message : Bytes := [0x15, 7, 100] ++ payload
    let short := (start (.ofBytes (message ++ [0x11, 5, 0x41, 9])) registry {}).calls 1
    let wide := (start (.ofBytes (message ++ [0x91, 5])) registry {}).calls 1
    let chain : Chain := ⟨⟨7⟩, 100⟩
    (template.unpack ⟨7⟩).run (.ofBytes payload) = (.ok args, (Source.ofBytes payload).advance 10) ∧
      template.check args = .ok () ∧
      short.next.1 = .error ⟨.malformedPayload ⟨7⟩ (.floatWidth 4), 13, chain, 1⟩ ∧
      catalog.Explains chain short.source short.next.2.source
        (.malformedPayload ⟨7⟩ (.floatWidth 4)) ∧
      wide.next.1 = .error ⟨.malformedHeader (.wideTimestamp 9), 13, chain, 1⟩ ∧
      ∃ width, 9 ≤ width ∧ width ≤ 15 ∧
        (HeaderFault.wideTimestamp 9).message = s!"timestamp delta width {width} exceeds 8" := by
  intro template catalog registry payload args message short wide chain
  have hargs : (template.unpack ⟨7⟩).run (.ofBytes payload) =
      (.ok args, (Source.ofBytes payload).advance 10) := by decide +kernel
  have hshort : short.next.1 = .error ⟨.malformedPayload ⟨7⟩ (.floatWidth 4), 13, chain, 1⟩ := by
    decide +kernel
  have hwide : wide.next.1 = .error ⟨.malformedHeader (.wideTimestamp 9), 13, chain, 1⟩ := by
    decide +kernel
  -- the first message was read, so the second one continues from it
  have hchain : short.chain = chain := by decide +kernel
  obtain ⟨hexplains, hread⟩ :=
    explains_calls catalog false (.ofBytes (message ++ [0x11, 5, 0x41, 9])) {}
  obtain ⟨hfloat, -, -⟩ := hexplains 1 _ short.next.2 (by rw [← hshort])
  obtain ⟨hwideExplains, -⟩ := explains_calls catalog false (.ofBytes (message ++ [0x91, 5])) {}
  obtain ⟨-, -, hheader⟩ := hwideExplains 1 _ wide.next.2 (by rw [← hwide])
  exact ⟨hargs, (hread template ⟨7⟩ _ args _ hargs).1, hshort, hchain ▸ hfloat, hwide,
    hheader _ rfl⟩

end Replayer

end BinaryLog
