import BinaryLog.Entry.Checkpoint
import BinaryLog.Entry.Header
import BinaryLog.Proofs.Decoder.Plain
import BinaryLog.Proofs.Width

namespace BinaryLog

/-!
# Headers and checkpoints, read as written

The two fixed frames of the format.

* `Chain.headerTo`, the header of a message that continues one chain to another;
* `Metadata.consumes_headerTo`, a header is read back exactly, in front of anything;
* `Metadata.run_decode_eq_ok`, what reading a header does, `Metadata.of_run_decode_eq_ok`, no header
  that continues a chain in the same way is shorter, and `Metadata.headerLength_of_run_decode`, a
  header tells how long it is;
* `Chain.length_headerTo_le_add`, a detour over a third chain costs at least as many bytes;
* `Checkpoint.consumes_encode`, a checkpoint is read back bit for bit.
-/

/-! ### The widths of a header -/

namespace Header

/-- The narrowest of the four widths that holds an id delta, by the size of the delta. -/
theorem idWidth_idCodeFor (delta : UInt32) :
    idWidth (idCodeFor delta) =
      if delta.toNat = 0 then 0 else if delta.toNat < 256 then 1
      else if delta.toNat < 65536 then 2 else 4 := by
  -- over the natural numbers, where the sizes can be compared
  simp only [idCodeFor, ← UInt32.toNat_inj, UInt32.le_iff_toNat_le]
  have hzero : (0 : UInt32).toNat = 0 := rfl
  have hbyte : (0xFF : UInt32).toNat = 255 := rfl
  have htwo : (0xFFFF : UInt32).toNat = 65535 := rfl
  rw [hzero, hbyte, htwo]
  grind [idWidth]

/-- The code of an id delta has two bits. -/
theorem idCodeFor_le (delta : UInt32) : idCodeFor delta ≤ 3 := by
  simp only [idCodeFor]
  grind

/-- The width of a time delta has a code of its own: none of the reserved ones. -/
theorem timeWidthFor_le (delta : UInt64) : timeWidthFor delta ≤ maxTimeWidth :=
  Word.width_toNat_le delta

/-- The field of an id delta's code holds the delta. -/
theorem toNat_lt_capacity_idWidth (delta : UInt32) :
    delta.toNat < Word.capacity (idWidth (idCodeFor delta)) := by
  have h32 : delta.toNat < 4294967296 := delta.toNat_lt
  rw [idWidth_idCodeFor]
  grind [Word.capacity]

/-- No other code whose field holds an id delta has a narrower one. -/
theorem idWidth_idCodeFor_le {delta : UInt32} {code : Nat}
    (h : delta.toNat < Word.capacity (idWidth code)) :
    idWidth (idCodeFor delta) ≤ idWidth code := by
  rw [idWidth_idCodeFor]
  match code with
  | 0 | 1 | 2 | code + 3 =>
    simp only [idWidth, Word.capacity] at h ⊢
    grind

/-- Two steps between ids in one take at most a byte more than apart: one byte and two become
    four. -/
theorem idWidth_idCodeFor_add_le (a b : UInt32) :
    idWidth (idCodeFor (a + b)) ≤ idWidth (idCodeFor a) + idWidth (idCodeFor b) + 1 := by
  rw [idWidth_idCodeFor, idWidth_idCodeFor, idWidth_idCodeFor, UInt32.toNat_add]
  -- a sum that wraps around is smaller than either delta; of the others only 1 + 2 grows to 4
  grind

/-- A header is its first byte and the two fields, each as wide as its delta needs. -/
theorem length_encode (idDelta : UInt32) (timeDelta : UInt64) :
    (encode idDelta timeDelta).length =
      1 + idWidth (idCodeFor idDelta) + Word.width timeDelta.toNat := by
  simp only [encode_eq_cons, minimal, timeWidthFor, List.length_cons, List.length_append,
    Word.length_toBytes]
  omega

/-! ### First bytes -/

/-- The parts of a first byte are read back. -/
theorem ofByte_toByte {header : Header} (hcode : header.idCode ≤ 3)
    (hwidth : header.timeWidth ≤ maxTimeWidth) : ofByte header.toByte = .ok header := by
  have hmax : maxTimeWidth = 8 := rfl
  have hbyte : header.toByte.toNat = 1 + 4 * header.idCode + 16 * header.timeWidth := by
    rw [toByte, UInt8.toNat_ofNat']
    omega
  -- the tag, the code and the width have bits of their own
  have htag : header.toByte.toNat % 4 = 1 := by omega
  have hhigh : header.toByte.toNat / 16 = header.timeWidth := by omega
  have hcode' : header.toByte.toNat / 4 % 4 = header.idCode := by omega
  rw [ofByte, if_neg (by simp [htag]), hhigh, if_neg (Nat.not_lt.mpr hwidth), hcode']

/-- So are those of every header that is written. -/
theorem ofByte_toByte_minimal (idDelta : UInt32) (timeDelta : UInt64) :
    ofByte (minimal idDelta timeDelta).toByte = .ok (minimal idDelta timeDelta) :=
  ofByte_toByte (idCodeFor_le idDelta) (timeWidthFor_le timeDelta)

/-- Only a byte with the message tag announces a header. -/
theorem tag_of_ofByte_eq_ok {b : UInt8} {header : Header} (h : ofByte b = .ok header) :
    b.toNat % 4 = 1 := by
  by_contra hne
  rw [ofByte, if_pos hne] at h
  cases h

end Header

/-! ### Continuing a chain -/

namespace Chain

/-- The header of a message that continues the chain `a` to the chain `b`. -/
def headerTo (a b : Chain) : Bytes :=
  Header.encode (a.formatId.deltaTo b.formatId) (b.timestamp - a.timestamp)

/-- The deltas of a step are found between its two ends, whether or not the timestamp wraps
    around. -/
theorem step_eq_iff {chain next : Chain} {idDelta : UInt32} {timeDelta : UInt64} :
    chain.step idDelta timeDelta = next ↔
      idDelta = chain.formatId.deltaTo next.formatId ∧
        timeDelta = next.timestamp - chain.timestamp := by
  constructor
  · rintro rfl
    have htime : chain.timestamp + timeDelta - chain.timestamp = timeDelta := by
      rw [UInt64.add_comm, UInt64.add_sub_cancel]
    exact ⟨(FormatId.deltaTo_shift _ _).symm, htime.symm⟩
  · rintro ⟨rfl, rfl⟩
    have htime : chain.timestamp + (next.timestamp - chain.timestamp) = next.timestamp := by
      rw [UInt64.add_comm, UInt64.sub_add_cancel]
    rw [step, FormatId.shift_deltaTo, htime]

/-- The deltas of a message continue a chain, unless they reach back in time. -/
theorem step?_eq_ok_iff {chain next : Chain} {idDelta : UInt32} {timeDelta : UInt64} :
    chain.step? idDelta timeDelta = .ok next ↔
      chain.timestamp ≤ next.timestamp ∧ idDelta = chain.formatId.deltaTo next.formatId ∧
        timeDelta = next.timestamp - chain.timestamp := by
  rw [step?, ← step_eq_iff]
  split
  · -- the step is refused, and it does end before it began
    rename_i hlt
    simp only [reduceCtorEq, false_iff]
    rintro ⟨hle, rfl⟩
    exact absurd hlt (UInt64.not_lt.mpr hle)
  · rename_i hle
    rw [Except.ok.injEq]
    constructor
    · rintro rfl
      exact ⟨UInt64.not_lt.mp hle, rfl⟩
    · exact And.right

/-- **The comparison after the sum** tells exactly whether the sum fits in 64 bits. -/
theorem step_timestamp_lt_iff {chain : Chain} {idDelta : UInt32} {timeDelta : UInt64} :
    (chain.step idDelta timeDelta).timestamp < chain.timestamp ↔
      UInt64.size ≤ chain.timestamp.toNat + timeDelta.toNat := by
  have hdelta := timeDelta.toNat_lt
  have htime := chain.timestamp.toNat_lt
  show chain.timestamp + timeDelta < chain.timestamp ↔ _
  rw [UInt64.lt_iff_toNat_lt, UInt64.toNat_add, UInt64.size]
  omega

/-- A step that stays within 64 bits is made. -/
theorem step?_of_fits {chain : Chain} {timeDelta : UInt64} (idDelta : UInt32)
    (h : chain.timestamp.toNat + timeDelta.toNat < UInt64.size) :
    chain.step? idDelta timeDelta = .ok (chain.step idDelta timeDelta) :=
  if_neg (mt step_timestamp_lt_iff.mp (Nat.not_le.mpr h))

/-- A step beyond 64 bits is refused, and names the delta that did not fit. -/
theorem step?_of_overflow {chain : Chain} {timeDelta : UInt64} (idDelta : UInt32)
    (h : UInt64.size ≤ chain.timestamp.toNat + timeDelta.toNat) :
    chain.step? idDelta timeDelta = .error (.timeReversed chain.timestamp timeDelta) :=
  if_pos (step_timestamp_lt_iff.mpr h)

/-- The header of a step has the step's deltas. -/
theorem headerTo_step (chain : Chain) (idDelta : UInt32) (timeDelta : UInt64) :
    chain.headerTo (chain.step idDelta timeDelta) = Header.encode idDelta timeDelta := by
  obtain ⟨hid, htime⟩ := step_eq_iff.mp (rfl : chain.step idDelta timeDelta = _)
  rw [headerTo, ← hid, ← htime]

/-- The bytes of a header, by the distances of the two chains. -/
theorem length_headerTo {a b : Chain} (h : a.timestamp ≤ b.timestamp) :
    (a.headerTo b).length = 1 + Header.idWidth (Header.idCodeFor (a.formatId.deltaTo b.formatId))
      + Word.width (b.timestamp.toNat - a.timestamp.toNat) := by
  rw [headerTo, Header.length_encode, UInt64.toNat_sub_of_le _ _ h]

/-- **No detour is shorter.** The header of one message that skips over another takes no more bytes
    than the headers of both. -/
theorem length_headerTo_le_add {a b c : Chain} (hab : a.timestamp ≤ b.timestamp)
    (hbc : b.timestamp ≤ c.timestamp) :
    (a.headerTo c).length ≤ (a.headerTo b).length + (b.headerTo c).length := by
  have hac : a.timestamp ≤ c.timestamp := UInt64.le_trans hab hbc
  -- id deltas add up even where they wrap around, time deltas since time does not go back
  have hid : a.formatId.deltaTo c.formatId =
      a.formatId.deltaTo b.formatId + b.formatId.deltaTo c.formatId := by
    simp only [FormatId.deltaTo]
    grind
  have hidWidth := Header.idWidth_idCodeFor_add_le (a.formatId.deltaTo b.formatId)
    (b.formatId.deltaTo c.formatId)
  have htime : c.timestamp.toNat - a.timestamp.toNat =
      (b.timestamp.toNat - a.timestamp.toNat) + (c.timestamp.toNat - b.timestamp.toNat) := by
    rw [UInt64.le_iff_toNat_le] at hab hbc
    omega
  have htimeWidth := Word.width_add_le (b.timestamp.toNat - a.timestamp.toNat)
    (c.timestamp.toNat - b.timestamp.toNat)
  rw [length_headerTo hab, length_headerTo hbc, length_headerTo hac, hid, htime]
  -- the first byte of the second header pays for the wider id
  omega

end Chain

/-! ### Headers -/

namespace Metadata

/-- Reads what follows a first byte that announces the given widths. -/
def decodeDeltas (chain : Chain) (header : Header) : Decoder Metadata := do
  let idDelta ← Decoder.word (Header.idWidth header.idCode)
  let timeDelta ← Decoder.word header.timeWidth
  let next ← Decoder.ofExcept (chain.step? idDelta.toUInt32 timeDelta)
  return { formatId := next.formatId, timestamp := next.timestamp, headerLength := header.length }

/-- Reading a header: first the byte that tells the widths, then the two deltas. -/
theorem decode_eq (chain : Chain) :
    decode chain = Decoder.byte >>= fun first =>
      match Header.ofByte first with
      | .error fault => Decoder.fail (.malformedHeader fault)
      | .ok header => decodeDeltas chain header := rfl

/-- Fields that hold two deltas are read back, however wide they are. -/
theorem consumes_decodeDeltas {chain next : Chain} {header : Header} {idDelta : UInt32}
    {timeDelta : UInt64} (hstep : chain.step? idDelta timeDelta = .ok next)
    (hid : idDelta.toNat < Word.capacity (Header.idWidth header.idCode))
    (htime : timeDelta.toNat < Word.capacity header.timeWidth) :
    (decodeDeltas chain header).Consumes
      (Word.toBytes (Header.idWidth header.idCode) idDelta.toNat
        ++ Word.toBytes header.timeWidth timeDelta.toNat)
      { formatId := next.formatId, timestamp := next.timestamp
        headerLength := header.length } := by
  have hidWord : (UInt64.ofNat idDelta.toNat).toUInt32 = idDelta := by
    simp
  refine (Decoder.consumes_word hid).bind ((Decoder.consumes_word htime).bind_nil ?_)
  rw [hidWord, UInt64.ofNat_toNat, hstep]
  exact Decoder.consumes_pure _

/-- **A header is read back exactly**, in front of anything. -/
theorem consumes_headerTo {chain next : Chain} (h : chain.timestamp ≤ next.timestamp) :
    (decode chain).Consumes (chain.headerTo next)
      { formatId := next.formatId, timestamp := next.timestamp
        headerLength := (chain.headerTo next).length } := by
  have hstep := Chain.step?_eq_ok_iff.mpr ⟨h, rfl, rfl⟩
  rw [decode_eq, show (chain.headerTo next).length = (Header.minimal _ _).length from
    Header.length_encode _ _, Chain.headerTo, Header.encode_eq_cons]
  refine Decoder.Consumes.byte_bind ?_
  rw [Header.ofByte_toByte_minimal]
  -- the widths are the least ones whose fields hold the deltas
  exact consumes_decodeDeltas hstep (Header.toNat_lt_capacity_idWidth _) (Word.lt_of_width _)

/-- Fields that hold two deltas are read, even if the step they make is refused. -/
theorem refuses_decodeDeltas {chain : Chain} {header : Header} {idDelta : UInt32}
    {timeDelta : UInt64} {error : DecodeError}
    (hstep : chain.step? idDelta timeDelta = .error error)
    (hid : idDelta.toNat < Word.capacity (Header.idWidth header.idCode))
    (htime : timeDelta.toNat < Word.capacity header.timeWidth) :
    (decodeDeltas chain header).Refuses
      (Word.toBytes (Header.idWidth header.idCode) idDelta.toNat
        ++ Word.toBytes header.timeWidth timeDelta.toNat) error := by
  have hidWord : (UInt64.ofNat idDelta.toNat).toUInt32 = idDelta := by
    simp
  refine (Decoder.consumes_word hid).bind_refuses
    ((Decoder.consumes_word htime).bind_refuses_nil ?_)
  rw [hidWord, UInt64.ofNat_toNat, hstep]
  exact (Decoder.refuses_fail error).bind _

/-- **A header whose step is refused** is read as a whole all the same. -/
theorem refuses_encode {chain : Chain} {idDelta : UInt32} {timeDelta : UInt64}
    {error : DecodeError} (h : chain.step? idDelta timeDelta = .error error) :
    (decode chain).Refuses (Header.encode idDelta timeDelta) error := by
  rw [decode_eq, Header.encode_eq_cons]
  refine (Decoder.consumes_byte _).bind_refuses ?_
  rw [Header.ofByte_toByte_minimal]
  exact refuses_decodeDeltas h (Header.toNat_lt_capacity_idWidth _) (Word.lt_of_width _)

/-- A header is read by plain requests, and refused only for its first byte or for time that goes
    back. -/
theorem plain_decode (chain : Chain) : (decode chain).Plain := by
  refine Decoder.Plain.byte.bind fun first => ?_
  split
  · exact .fail rfl
  · refine (Decoder.Plain.word _).bind fun idDelta => ?_
    refine (Decoder.Plain.word _).bind fun timeDelta => ?_
    refine (Decoder.Plain.ofExcept fun error h => ?_).bind fun next => .succeed _
    -- a step is refused for nothing but time that goes back
    rw [Chain.step?] at h
    split at h <;> cases h
    rfl

/-- What reading the deltas does where it succeeds: it reads two fields, and makes the step that
    they hold. -/
theorem run_decodeDeltas_eq_ok {chain : Chain} {header : Header} {s t : Source}
    {metadata : Metadata} (h : (decodeDeltas chain header).run s = (.ok metadata, t)) :
    ∃ idDelta timeDelta : UInt64,
      chain.step? idDelta.toUInt32 timeDelta = .ok metadata.chain ∧
      metadata.headerLength = header.length ∧
      idDelta.toNat < Word.capacity (Header.idWidth header.idCode) ∧
      timeDelta.toNat < Word.capacity header.timeWidth ∧
      (s.readTo t).length = Header.idWidth header.idCode + header.timeWidth := by
  obtain ⟨idDelta, u, hid, h⟩ := Decoder.run_bind_eq_ok h
  obtain ⟨timeDelta, v, htime, h⟩ := Decoder.run_bind_eq_ok h
  cases hstep : chain.step? idDelta.toUInt32 timeDelta with
  | error error =>
    rw [hstep] at h
    cases h
  | ok next =>
    rw [hstep] at h
    cases h
    obtain ⟨hidLength, hidLt⟩ := Decoder.run_word_eq_ok hid
    obtain ⟨htimeLength, htimeLt⟩ := Decoder.run_word_eq_ok htime
    refine ⟨idDelta, timeDelta, hstep, rfl, hidLt, htimeLt, ?_⟩
    rw [(Decoder.reaches_of_run hid).readTo_append (Decoder.reaches_of_run htime),
      List.length_append, hidLength, htimeLength]

/-- Time does not go back, and the shortest header for the same step has no wider fields. -/
theorem of_run_decodeDeltas_eq_ok {chain : Chain} {header : Header} {s t : Source}
    {metadata : Metadata} (h : (decodeDeltas chain header).run s = (.ok metadata, t)) :
    chain.timestamp ≤ metadata.timestamp ∧
      (chain.headerTo metadata.chain).length ≤ 1 + (s.readTo t).length := by
  obtain ⟨idDelta, timeDelta, hstep, -, hidLt, htimeLt, hlength⟩ := run_decodeDeltas_eq_ok h
  obtain ⟨hle, hidDelta, htimeDelta⟩ := Chain.step?_eq_ok_iff.mp hstep
  refine ⟨hle, ?_⟩
  rw [hlength, Chain.headerTo, Header.length_encode]
  -- a field that was read holds its delta, and the shortest field for it is no wider
  have hidLt' : idDelta.toUInt32.toNat < Word.capacity (Header.idWidth header.idCode) := by
    rw [UInt64.toNat_toUInt32]
    exact Nat.lt_of_le_of_lt (Nat.mod_le _ _) hidLt
  have hidWidth := Header.idWidth_idCodeFor_le hidLt'
  have htimeWidth := Word.width_le_iff.mpr htimeLt
  rw [hidDelta] at hidWidth
  rw [htimeDelta] at htimeWidth
  omega

/-- What reading a header does where it succeeds: it reads a first byte, then the deltas. -/
theorem run_decode_eq_ok {chain : Chain} {s t : Source} {metadata : Metadata}
    (h : (decode chain).run s = (.ok metadata, t)) :
    ∃ first header u, Header.ofByte first = .ok header ∧ s.ahead = first :: u.ahead ∧
      (decodeDeltas chain header).run u = (.ok metadata, t) ∧
      (s.readTo t).length = 1 + (u.readTo t).length := by
  rw [decode_eq] at h
  obtain ⟨first, u, hfirst, h⟩ := Decoder.run_bind_eq_ok h
  have hreach := Decoder.reaches_of_run hfirst
  have hread := Decoder.run_byte_eq_ok hfirst
  cases hheader : Header.ofByte first with
  | error fault =>
    rw [hheader] at h
    cases h
  | ok header =>
    rw [hheader] at h
    refine ⟨first, header, u, hheader, ?_, h, ?_⟩
    · rw [hreach.ahead_eq, hread, List.singleton_append]
    · rw [hreach.readTo_append (Decoder.reaches_of_run h), hread, List.length_append,
        List.length_singleton]

/-- The first byte of a header has the message tag, time does not go back, and the shortest header
    for the same step is no longer. -/
theorem of_run_decode_eq_ok {chain : Chain} {s t : Source} {metadata : Metadata}
    (h : (decode chain).run s = (.ok metadata, t)) :
    (∃ b bs, s.ahead = b :: bs ∧ b.toNat % 4 = 1) ∧ chain.timestamp ≤ metadata.timestamp ∧
      (chain.headerTo metadata.chain).length ≤ (s.readTo t).length := by
  obtain ⟨first, header, u, hheader, hahead, hdeltas, hlength⟩ := run_decode_eq_ok h
  obtain ⟨hle, hshortest⟩ := of_run_decodeDeltas_eq_ok hdeltas
  rw [hlength]
  exact ⟨⟨first, u.ahead, hahead, Header.tag_of_ofByte_eq_ok hheader⟩, hle, hshortest⟩

/-- **A header tells how long it is**, whoever wrote it. -/
theorem headerLength_of_run_decode {chain : Chain} {s t : Source} {metadata : Metadata}
    (h : (decode chain).run s = (.ok metadata, t)) :
    metadata.headerLength = (s.readTo t).length := by
  obtain ⟨first, header, u, -, -, hdeltas, hlength⟩ := run_decode_eq_ok h
  obtain ⟨-, -, -, htold, -, -, hwidths⟩ := run_decodeDeltas_eq_ok hdeltas
  rw [htold, hlength, hwidths, Header.length, Nat.add_assoc]

end Metadata

/-! ### Checkpoints -/

namespace Checkpoint

/-- A checkpoint takes the same bytes whatever it holds. -/
theorem length_encode (c : Checkpoint) : c.encode.length = length := by
  simp [encode_eq_cons, length, bodyLength]

/-- The bytes of a checkpoint after the first. -/
def body (c : Checkpoint) : Bytes :=
  Word.toBytes 8 c.cycleCounter.toNat ++ Word.toBytes 8 c.unixTime.toNat
    ++ Word.toBytes 8 c.rate.bits.toNat

theorem length_body (c : Checkpoint) : c.body.length = bodyLength := by
  simp [body, bodyLength]

/-- The three fields are read back from their places. -/
theorem ofBody_body (c : Checkpoint) : ofBody c.body = c := by
  have hword (n : UInt64) (rest : Bytes) :
      UInt64.ofNat (Word.ofBytes ((Word.toBytes 8 n.toNat ++ rest).take 8)) = n := by
    rw [List.take_left' (Word.length_toBytes 8 n.toNat),
      Word.ofBytes_toBytes_of_lt (Word.toNat_lt_capacity n), UInt64.ofNat_toNat]
  have hskip (n : UInt64) (rest : Bytes) : (Word.toBytes 8 n.toNat ++ rest).drop 8 = rest :=
    List.drop_left' (Word.length_toBytes 8 n.toNat)
  have hlast (n : UInt64) : UInt64.ofNat (Word.ofBytes ((Word.toBytes 8 n.toNat).take 8)) = n := by
    rw [← List.append_nil (Word.toBytes 8 n.toNat), hword]
  -- each field is found behind the ones before it
  simp only [ofBody, body, List.append_assoc, Nat.mul_zero, List.drop_zero, Nat.mul_one,
    Nat.reduceMul, hword, hskip]
  rw [show 16 = 8 + 8 from rfl, ← List.drop_drop, hskip, hskip, hlast]

/-- **A checkpoint is read back bit for bit**, in front of anything. -/
theorem consumes_encode (c : Checkpoint) : decode.Consumes c.encode c := by
  rw [encode_eq_cons]
  refine Decoder.Consumes.byte_bind ?_
  rw [if_neg (by decide)]
  have hbody := Decoder.consumes_bytes c.body
  rw [length_body] at hbody
  refine hbody.bind_nil ?_
  rw [ofBody_body]
  exact Decoder.consumes_pure c

/-- A checkpoint is read by plain requests. -/
theorem plain_decode : decode.Plain := by
  refine Decoder.Plain.byte.bind fun first => ?_
  split
  · exact .fail rfl
  · exact (Decoder.Plain.bytes _).bind fun _ => .succeed _

/-- What reading a checkpoint does where it succeeds. -/
theorem of_run_decode_eq_ok {s t : Source} {c : Checkpoint} (h : decode.run s = (.ok c, t)) :
    (∃ b bs, s.ahead = b :: bs ∧ b.toNat % 4 = 2) ∧ (s.readTo t).length = length := by
  obtain ⟨first, u, hfirst, h⟩ := Decoder.run_bind_eq_ok h
  have hreach := Decoder.reaches_of_run hfirst
  have hread := Decoder.run_byte_eq_ok hfirst
  split at h
  · cases h
  · rename_i htag
    obtain ⟨body, v, hbody, h⟩ := Decoder.run_bind_eq_ok h
    cases h
    refine ⟨⟨first, u.ahead, ?_, by omega⟩, ?_⟩
    · rw [hreach.ahead_eq, hread, List.singleton_append]
    · obtain ⟨hlength, hbodyRead⟩ := Decoder.run_bytes_eq_ok hbody
      rw [hreach.readTo_append (Decoder.reaches_of_run hbody), hread, hbodyRead,
        List.length_append, hlength]
      rfl

end Checkpoint

end BinaryLog
