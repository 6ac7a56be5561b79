import BinaryLog.Proofs.Decoder.Relocation

namespace BinaryLog.Decoder

/-!
# Plain decoders

A plain decoder is put together from requests for bytes. It neither looks ahead nor asks where it
stands, and what it fails with by itself is not that bytes are missing. Whatever holds of the
requests and is kept by composition holds of all plain decoders.

* `Plain`, with one constructor for each request;
* `Plain.selfDelimiting` and `Plain.relocatable`, plain decoders depend on nothing but the bytes
  they read.
-/

/-- A decoder that is put together from requests for bytes. -/
inductive Plain : {α : Type} → Decoder α → Prop
  | succeed {α : Type} (a : α) : Plain (pure a)
  | fail {α : Type} {error : DecodeError} (own : error.isShortfall = false) :
      Plain (fail error : Decoder α)
  | bytes (n : Nat) : Plain (bytes n)
  | byte : Plain byte
  | untilZero : Plain untilZero
  | bind {α β : Type} {d : Decoder α} {f : α → Decoder β} (first : Plain d)
      (second : ∀ a, Plain (f a)) : Plain (d >>= f)

namespace Plain

variable {α β : Type} {d : Decoder α}

theorem map (h : Plain d) (f : α → β) : Plain (f <$> d) := by
  rw [← bind_pure_comp]
  exact h.bind fun a => succeed (f a)

/-- A field is read by a plain request. -/
theorem word (width : Nat) : Plain (Decoder.word width) :=
  (bytes width).bind fun _ => succeed _

/-- A result that was found without reading is plain, unless its error pretends to be a shortfall.
    -/
theorem ofExcept {outcome : Except DecodeError α}
    (h : ∀ error, outcome = .error error → error.isShortfall = false) :
    Plain (Decoder.ofExcept outcome) := by
  cases outcome with
  | ok a => exact succeed a
  | error error => exact fail (h error rfl)

/-- **Plain decoders** are determined by the bytes they read, and notice when these are cut
    short. -/
theorem selfDelimiting (h : Plain d) : d.SelfDelimiting := by
  induction h with
  | succeed a => exact selfDelimiting_pure a
  | fail own => exact selfDelimiting_fail _
  | bytes n => exact selfDelimiting_bytes n
  | byte => exact selfDelimiting_byte
  | untilZero => exact selfDelimiting_untilZero
  | bind first second ihfirst ihsecond => exact ihfirst.bind ihsecond

/-- **Plain decoders** read the same in all surroundings. -/
theorem relocatable (h : Plain d) : d.Relocatable := by
  induction h with
  | succeed a => exact relocatable_pure a
  | fail own => exact relocatable_fail own
  | bytes n => exact relocatable_bytes n
  | byte => exact relocatable_byte
  | untilZero => exact relocatable_untilZero
  | bind first second ihfirst ihsecond => exact ihfirst.bind ihsecond

end Plain

end BinaryLog.Decoder
