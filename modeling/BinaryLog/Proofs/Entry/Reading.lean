import BinaryLog.Entry.Basic
import BinaryLog.Proofs.Entry.Framing

namespace BinaryLog

/-!
# Entries as they are read

What reading an entry can do, said once.

* `Entry.Read`, one rule for each kind of entry;
* `Entry.read_of_decode` and `Entry.Read.decode_eq_ok`, these rules are what the first byte and the
  decoder for it come to;
* `Registry.run_decode_eq_ok_iff`, what it takes to read a payload.
-/

/-! ### Payloads -/

/-- A payload is read if its format is known and the routine of that format reads it. -/
theorem Registry.run_decode_eq_ok_iff {registry : Registry} {id : FormatId} {s t : Source}
    {text : String} :
    (registry.decode id).run s = (.ok text, t) ↔
      ∃ routine, registry.get? id = some routine ∧ (routine id).run s = (.ok text, t) := by
  cases hroutine : registry.get? id with
  | none =>
    have hfind : registry.find id = .error (.unknownFormat id) := by rw [find, hroutine]
    rw [decode, hfind]
    constructor
    · intro h
      cases h
    · rintro ⟨routine, h, -⟩
      cases h
  | some routine =>
    have hfind : registry.find id = .ok routine := by rw [find, hroutine]
    rw [decode, hfind]
    constructor
    · exact fun h => ⟨routine, rfl, h⟩
    · rintro ⟨_, ⟨⟩, h⟩
      exact h

/-! ### The rules -/

namespace Entry

variable {registry : Registry} {chain : Chain} {s t : Source} {entry : Entry}

/-- An entry is read from `s`, which is left as `t`. -/
inductive Read (registry : Registry) (chain : Chain) (s : Source) : Entry → Source → Prop
  /-- A header, then what the routine of its format reads. -/
  | message {metadata : Metadata} {text : String} {u t : Source}
      (header : (Metadata.decode chain).run s = (.ok metadata, u))
      (payload : (registry.decode metadata.formatId).run u = (.ok text, t)) :
      Read registry chain s (.message metadata text) t
  | checkpoint {c : Checkpoint} {t : Source} (body : Checkpoint.decode.run s = (.ok c, t)) :
      Read registry chain s (.checkpoint c) t
  /-- All zeros up to another byte or the end of the stream. -/
  | padding {length : Nat} {rest : Bytes} (nonempty : 0 < length)
      (ahead : s.ahead = List.replicate length 0 ++ rest) (last : rest.head? ≠ some 0)
      (ending : rest = [] → s.ending = .endOfStream) :
      Read registry chain s (.padding length) (s.advance length)

/-- A message is read as its header, and then by the routine of its format. -/
theorem decode_message :
    decode registry chain .message = Metadata.decode chain >>= fun metadata =>
      registry.decode metadata.formatId >>= fun text => pure (.message metadata text) := rfl

/-- A zero byte announces a padding. -/
theorem decode_zero :
    decode registry chain (EntryKind.ofByte 0) = Entry.padding <$> Decoder.zeros := rfl

/-- **What is read as the first byte says** follows the rules. -/
theorem read_of_decode {b : UInt8} {bs : Bytes} (hs : s.ahead = b :: bs)
    (h : (decode registry chain (EntryKind.ofByte b)).run s = (.ok entry, t)) :
    Read registry chain s entry t := by
  by_cases hmessage : b.toNat % 4 = 1
  · rw [EntryKind.ofByte, if_pos hmessage, decode_message] at h
    obtain ⟨metadata, u, hheader, h⟩ := Decoder.run_bind_eq_ok h
    obtain ⟨text, v, hpayload, h⟩ := Decoder.run_bind_eq_ok h
    cases h
    exact .message hheader hpayload
  by_cases hcheckpoint : b.toNat % 4 = 2
  · rw [EntryKind.ofByte, if_neg hmessage, if_pos hcheckpoint] at h
    obtain ⟨c, hbody, rfl⟩ := Decoder.run_map_eq_ok h
    exact .checkpoint hbody
  rw [EntryKind.ofByte, if_neg hmessage, if_neg hcheckpoint] at h
  by_cases hzero : b = 0
  · rw [decode, if_pos hzero] at h
    obtain ⟨length, hzeros, rfl⟩ := Decoder.run_map_eq_ok h
    obtain ⟨n, rest, hahead, hlast⟩ := exists_zeros s.ahead
    -- the first byte is one of the run
    have hpos : 0 < n := by
      apply Nat.pos_of_ne_zero
      rintro rfl
      exact hlast (by simpa [hs, hzero] using congrArg List.head? hahead.symm)
    -- a device that failed right after the zeros would have failed the run
    have hending : rest = [] → s.ending = .endOfStream := by
      rintro rfl
      cases hfault : s.ending with
      | endOfStream => rfl
      | fault cause =>
        rw [List.append_nil] at hahead
        rw [Decoder.run_zeros_of_fault hahead hfault] at hzeros
        cases hzeros
    rw [Decoder.run_zeros hahead hlast hending] at hzeros
    cases hzeros
    exact .padding hpos hahead hlast hending
  · rw [decode, if_neg hzero] at h
    cases h

/-- What the rules read, the first byte announces. -/
theorem Read.decode_eq_ok (h : Read registry chain s entry t) :
    ∃ b bs, s.ahead = b :: bs ∧
      (decode registry chain (EntryKind.ofByte b)).run s = (.ok entry, t) := by
  cases h with
  | message hheader hpayload =>
    obtain ⟨⟨b, bs, hs, htag⟩, _, _⟩ := Metadata.of_run_decode_eq_ok hheader
    refine ⟨b, bs, hs, ?_⟩
    rw [EntryKind.ofByte, if_pos htag, decode_message, Decoder.run_bind_ok hheader,
      Decoder.run_bind_ok hpayload]
    rfl
  | checkpoint hbody =>
    obtain ⟨⟨b, bs, hs, htag⟩, _⟩ := Checkpoint.of_run_decode_eq_ok hbody
    refine ⟨b, bs, hs, ?_⟩
    rw [EntryKind.ofByte, if_neg (by omega), if_pos htag]
    exact Decoder.run_map_ok hbody _
  | @padding length rest hpos hahead hlast hending =>
    -- a padding has a first zero to be announced by
    obtain ⟨n, rfl⟩ := Nat.exists_eq_succ_of_ne_zero (Nat.ne_of_gt hpos)
    refine ⟨0, List.replicate n 0 ++ rest, ?_, ?_⟩
    · rw [hahead, List.replicate_succ, List.cons_append]
    · rw [decode_zero]
      exact Decoder.run_map_ok (Decoder.run_zeros hahead hlast hending) _

theorem Read.reaches (h : Read registry chain s entry t) : s.Reaches t := by
  obtain ⟨_, _, _, hrun⟩ := h.decode_eq_ok
  exact Decoder.reaches_of_run hrun

end Entry

end BinaryLog
