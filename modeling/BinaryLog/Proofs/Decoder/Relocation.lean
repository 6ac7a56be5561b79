import BinaryLog.Proofs.Decoder.Consumption

namespace BinaryLog

/-!
# Bytes in other surroundings

Decoders look at the bytes ahead. How many bytes came before these, and what follows the last of
them, shows only where more is asked for than is there. So bytes that stand elsewhere are read in
the same way, up to the wording of that error.

* `Relocation`, a change of what surrounds the bytes ahead;
* `Relocation.shift`, bytes that stand further back, and `Relocation.outage`, bytes after which the
  device fails;
* `Decoder.Relocatable`, the decoders that read the same in all surroundings, with one lemma for
  each request and `Relocatable.bind` for their composition.
-/

/-! ### Errors -/

namespace DecodeError

/-- Does the error say that fewer bytes were there than asked for? -/
def isShortfall : DecodeError → Bool
  | .truncated _ _ _ | .device _ => true
  | _ => false

/-- Does the error say that the stream ended too early? -/
def isTruncation : DecodeError → Bool
  | .truncated _ _ _ => true
  | _ => false

/-- The error where everything stands `n` bytes further back. -/
def shift (n : Nat) : DecodeError → DecodeError
  | .truncated offset needed available => .truncated (offset + n) needed available
  | error => error

end DecodeError

/-! ### Relocations -/

/-- A failure of the device in place of the end of the stream. -/
def Ending.orFault (cause : String) : Ending → Ending
  | .endOfStream => .fault cause
  | .fault other => .fault other

/-- A change of what surrounds the bytes ahead. -/
structure Relocation where
  /-- The source in its new surroundings. -/
  move : Source → Source
  /-- How an error is reported there. -/
  report : DecodeError → DecodeError
  ahead_move (s : Source) : (move s).ahead = s.ahead
  move_advance (s : Source) (n : Nat) : move (s.advance n) = (move s).advance n
  shortfall_move (s : Source) (n : Nat) : (move s).shortfall n = report (s.shortfall n)
  /-- Only a shortfall is reported differently. -/
  report_eq {error : DecodeError} (h : error.isShortfall = false) : report error = error

namespace Relocation

/-- Everything stands `n` bytes further back. -/
def shift (n : Nat) : Relocation where
  move s := { s with offset := s.offset + n }
  report := DecodeError.shift n
  ahead_move _ := rfl
  move_advance s m := by simp only [Source.advance, Nat.add_right_comm]
  shortfall_move s needed := by
    rcases s with ⟨ahead, offset, _ | cause⟩ <;> rfl
  report_eq {error} h := by
    cases error <;> first | rfl | cases h

/-- Where the stream would end, the device fails. -/
def outage (cause : String) : Relocation where
  move s := { s with ending := s.ending.orFault cause }
  report error := if error.isTruncation then .device cause else error
  ahead_move _ := rfl
  move_advance _ _ := rfl
  shortfall_move s needed := by
    rcases s with ⟨ahead, offset, _ | other⟩ <;> rfl
  report_eq {error} h := by
    cases error <;> first | rfl | cases h

/-- A stream that ends too early is a failure of the device instead. -/
theorem report_outage_of_truncation {cause : String} {error : DecodeError}
    (h : error.isTruncation = true) : (outage cause).report error = .device cause := if_pos h

/-- Any other error is the same as before. -/
theorem report_outage_of_not_truncation {cause : String} {error : DecodeError}
    (h : error.isTruncation = false) : (outage cause).report error = error :=
  if_neg (Bool.eq_false_iff.mp h)

variable {α : Type} (m : Relocation) (s : Source)

/-- The outcome of a decoder, moved to the new surroundings. -/
def outcome (result : Except DecodeError α × Source) : Except DecodeError α × Source :=
  (result.1.mapError m.report, m.move result.2)

@[simp] theorem outcome_ok (a : α) : m.outcome (.ok a, s) = (.ok a, m.move s) := rfl

@[simp] theorem outcome_error (error : DecodeError) :
    m.outcome (.error error, s) = ((.error (m.report error) : Except DecodeError α), m.move s) :=
  rfl

/-- Reading all that is left leads to the same place, before or after the move. -/
theorem move_exhaust : m.move s.exhaust = (m.move s).exhaust := by
  rw [Source.exhaust, Source.exhaust, m.ahead_move, m.move_advance]

end Relocation

/-! ### Decoders -/

namespace Decoder

variable {α β : Type}

/-- A decoder that reads the same in all surroundings. -/
def Relocatable (d : Decoder α) : Prop :=
  ∀ (m : Relocation) (s : Source), d.run (m.move s) = m.outcome (d.run s)

/-- Where a decoder succeeds, it reads the same in other surroundings. -/
theorem Relocatable.run_ok {d : Decoder α} (h : d.Relocatable) (m : Relocation) {s t : Source}
    {a : α} (hrun : d.run s = (.ok a, t)) : d.run (m.move s) = (.ok a, m.move t) := by
  rw [h, hrun, m.outcome_ok]

/-- Where a decoder fails, it fails for the same cause in other surroundings. -/
theorem Relocatable.run_error {d : Decoder α} (h : d.Relocatable) (m : Relocation) {s t : Source}
    {error : DecodeError} (hrun : d.run s = (.error error, t)) :
    d.run (m.move s) = (.error (m.report error), m.move t) := by
  rw [h, hrun, m.outcome_error]

theorem relocatable_pure (a : α) : (pure a : Decoder α).Relocatable := fun _ _ => rfl

/-- What a decoder fails with by itself is reported as it is. -/
theorem relocatable_fail {error : DecodeError} (h : error.isShortfall = false) :
    (fail error : Decoder α).Relocatable := by
  intro m s
  rw [run_fail, run_fail, m.outcome_error, m.report_eq h]

/-- **Composition.** The second part begins where the first one ends, also after a move. -/
theorem Relocatable.bind {d : Decoder α} {f : α → Decoder β} (h : d.Relocatable)
    (h' : ∀ a, (f a).Relocatable) : (d >>= f).Relocatable := by
  intro m s
  rcases hrun : d.run s with ⟨error | a, t⟩
  · rw [run_bind_error hrun, run_bind_error (h.run_error m hrun)]
    rfl
  · rw [run_bind_ok hrun, run_bind_ok (h.run_ok m hrun), h' a]

/-- Requests for bytes are relocatable: how many are ahead does not depend on where they stand. -/
theorem relocatable_bytes (n : Nat) : (bytes n).Relocatable := by
  intro m s
  simp only [bytes, m.ahead_move]
  split
  · rw [m.outcome_ok, m.move_advance]
  · rw [m.outcome_error, m.shortfall_move, m.move_exhaust]

theorem relocatable_byte : byte.Relocatable := by
  intro m s
  simp only [byte, m.ahead_move]
  split
  · rw [m.outcome_ok, m.move_advance]
  · rw [m.outcome_error, m.shortfall_move]

theorem relocatable_untilZero : untilZero.Relocatable := by
  intro m s
  simp only [untilZero, m.ahead_move]
  split
  · rw [m.outcome_ok, m.move_advance]
  · rw [m.outcome_error, ← m.move_exhaust, m.shortfall_move]

end Decoder

end BinaryLog
