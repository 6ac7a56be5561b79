import BinaryLog.Source.Basic

namespace BinaryLog

/-!
# Decoders

A decoder reads something from a source, or fails. Either way it leaves the source at or after where
it found it, and what it read before a failure stays read. That it only moves forward is part of the
type, so whatever is composed from decoders keeps it. The main definitions are

* `Decoder`, with its monad;
* `peek`, `atEnd`, `bytes`, `byte` and `word`, the basic requests;
* `zeros` and `untilZero`, the two runs whose length only the bytes tell.
-/

/-- A way to read an `α` from a source. -/
structure Decoder (α : Type) where
  /-- The outcome on a source, and the source as it is left. -/
  run : Source → Except DecodeError α × Source
  /-- The source is only moved forward. -/
  forward (s : Source) : s.Reaches (run s).2

namespace Decoder

variable {α β : Type}

@[ext] theorem ext {d e : Decoder α} (h : ∀ s, d.run s = e.run s) : d = e := by
  cases d
  cases e
  simp only [mk.injEq]
  exact funext h

/-! ### Composition -/

/-- Reads nothing and yields `a`. -/
def succeed (a : α) : Decoder α where
  run s := (.ok a, s)
  forward s := .refl s

/-- Reads nothing and fails. -/
def fail (error : DecodeError) : Decoder α where
  run s := (.error error, s)
  forward s := .refl s

/-- Reads with `d`, then with what `f` makes of its result. -/
def andThen (d : Decoder α) (f : α → Decoder β) : Decoder β where
  run s :=
    match d.run s with
    | (.ok a, t) => (f a).run t
    | (.error error, t) => (.error error, t)
  forward s := by
    have h := d.forward s
    split <;> rename_i t hd
    · rw [hd] at h
      exact h.trans ((f _).forward t)
    · rw [hd] at h
      exact h

instance : Monad Decoder where
  pure := succeed
  bind := andThen

@[simp] theorem run_pure (a : α) (s : Source) : (pure a : Decoder α).run s = (.ok a, s) := rfl

@[simp] theorem run_fail (error : DecodeError) (s : Source) :
    (fail error : Decoder α).run s = (.error error, s) := rfl

theorem run_bind (d : Decoder α) (f : α → Decoder β) (s : Source) :
    (d >>= f).run s = match d.run s with
      | (.ok a, t) => (f a).run t
      | (.error error, t) => (.error error, t) := rfl

/-- Where the first part succeeds, the second goes on from there. -/
theorem run_bind_ok {d : Decoder α} {f : α → Decoder β} {s t : Source} {a : α}
    (h : d.run s = (.ok a, t)) : (d >>= f).run s = (f a).run t := by
  simp [run_bind, h]

/-- Where the first part fails, so does the whole. -/
theorem run_bind_error {d : Decoder α} {f : α → Decoder β} {s t : Source} {error : DecodeError}
    (h : d.run s = (.error error, t)) : (d >>= f).run s = (.error error, t) := by
  simp [run_bind, h]

instance : LawfulMonad Decoder := LawfulMonad.mk' Decoder
  (fun d => by
    ext s : 1
    show (d >>= fun a => pure a).run s = d.run s
    rw [run_bind]
    split <;> simp_all)
  (fun _ _ => rfl)
  (fun d f g => by
    ext s : 1
    simp only [run_bind]
    rcases d.run s with ⟨_ | _, _⟩ <;> rfl)

/-- Reads nothing; the outcome is given. -/
def ofExcept : Except DecodeError α → Decoder α
  | .ok a => pure a
  | .error error => fail error

/-! ### Requests -/

/-- The next byte, which stays ahead, or nothing at the end of the stream. -/
def peek : Decoder (Option UInt8) where
  run s :=
    match s.ahead, s.ending with
    | b :: _, _ => (.ok (some b), s)
    | [], .endOfStream => (.ok none, s)
    | [], .fault cause => (.error (.device cause), s)
  forward s := by split <;> exact .refl s

/-- Is the stream at its end? -/
def atEnd : Decoder Bool := Option.isNone <$> peek

/-- The next `n` bytes. When fewer are ahead, all of them are read and the request fails. -/
def bytes (n : Nat) : Decoder Bytes where
  run s :=
    if n ≤ s.ahead.length then (.ok (s.ahead.take n), s.advance n)
    else (.error (s.shortfall n), s.exhaust)
  forward s := by
    split
    · exact Source.reaches_advance ‹_›
    · exact s.reaches_exhaust

/-- The next byte. -/
def byte : Decoder UInt8 where
  run s :=
    match s.ahead with
    | b :: _ => (.ok b, s.advance 1)
    | [] => (.error (s.shortfall 1), s)
  forward s := by
    split <;> rename_i h
    · exact Source.reaches_advance (by simp [h])
    · exact .refl s

/-- The number in the next `width` bytes, least significant byte first. -/
def word (width : Nat) : Decoder UInt64 :=
  return UInt64.ofNat (Word.ofBytes (← bytes width))

/-! ### Runs -/

/-- The number of zero bytes up to the next other byte or the end of the stream, which are read. -/
def zeros : Decoder Nat where
  run s :=
    let run := s.ahead.takeWhile (· == 0)
    let t := s.advance run.length
    match t.ahead, t.ending with
    | [], .fault cause => (.error (.device cause), t)
    | _, _ => (.ok run.length, t)
  forward s := by
    have h := s.reaches_advance (List.takeWhile_prefix (· == 0)).length_le
    dsimp only
    split <;> exact h

/-- The bytes up to the next zero byte, which is read too but left out. -/
def untilZero : Decoder Bytes where
  run s :=
    let text := s.ahead.takeWhile (· != 0)
    if text.length < s.ahead.length then (.ok text, s.advance (text.length + 1))
    else (.error (s.exhaust.shortfall 1), s.exhaust)
  forward s := by
    dsimp only
    split
    · exact Source.reaches_advance ‹_›
    · exact s.reaches_exhaust

end Decoder

end BinaryLog
