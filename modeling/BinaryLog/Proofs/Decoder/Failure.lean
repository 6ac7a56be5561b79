import BinaryLog.Proofs.Decoder.Consumption

namespace BinaryLog

/-!
# Why decoders fail

A request fails where too few bytes are left. Whatever else a decoder fails with is an error of its
own.

* `Source.FailsOnlyBy s own outcome`, the outcome in front of `s` is no error unless too few bytes
  are left or the error is one of `own`;
* `Decoder.failsOnlyBy_bind`, what composition keeps of this, with one lemma for each request.
-/

namespace Source

variable {α β : Type} {s : Source} {own : DecodeError → Prop}

/-- If the outcome of a reader is an error, it has found too few bytes or the error is one of its
    own. -/
def FailsOnlyBy (s : Source) (own : DecodeError → Prop)
    (outcome : Except DecodeError α × Source) : Prop :=
  ∀ ⦃error : DecodeError⦄ ⦃t : Source⦄, outcome = (.error error, t) →
    s.FallsShort outcome ∨ own error

theorem failsOnlyBy_ok (a : α) (t : Source) : s.FailsOnlyBy own (.ok a, t) := by
  rintro error u ⟨⟩

/-- Missing bytes are a cause that needs no other. -/
theorem FallsShort.failsOnlyBy {outcome : Except DecodeError α × Source}
    (h : s.FallsShort outcome) : s.FailsOnlyBy own outcome :=
  fun _ _ _ => .inl h

/-- What is missing behind the last byte is missing. -/
theorem fallsShort_of_ahead_eq_nil (h : s.ahead = []) :
    s.FallsShort ((.error (s.shortfall 1), s) : Except DecodeError α × Source) :=
  ⟨0, 1, Nat.zero_le _, by simp [h], by simp [exhaust, h, advance_zero]⟩

end Source

namespace Decoder

open Source (failsOnlyBy_ok)

variable {α β : Type} {s : Source} {own : DecodeError → Prop}

/-- **Composition** adds no errors. -/
theorem failsOnlyBy_bind {d : Decoder α} {f : α → Decoder β} (h : s.FailsOnlyBy own (d.run s))
    (h' : ∀ a t, d.run s = (.ok a, t) → t.FailsOnlyBy own ((f a).run t)) :
    s.FailsOnlyBy own ((d >>= f).run s) := by
  intro error u herror
  rcases hd : d.run s with ⟨cause | a, t⟩
  · rw [run_bind_error hd] at herror
    cases herror
    exact (h hd).imp_left fallsShort_bind_of_first
  · rw [run_bind_ok hd] at herror
    obtain ⟨n, hn, rfl⟩ := reaches_of_run hd
    exact (h' a _ hd herror).imp_left (fallsShort_bind_of_second hn hd)

theorem failsOnlyBy_map {d : Decoder α} (f : α → β) (h : s.FailsOnlyBy own (d.run s)) :
    s.FailsOnlyBy own ((f <$> d).run s) := by
  rw [← bind_pure_comp]
  exact failsOnlyBy_bind h fun a t _ => failsOnlyBy_ok (f a) t

theorem failsOnlyBy_fail {error : DecodeError} (h : own error) :
    s.FailsOnlyBy own ((fail error : Decoder α).run s) := by
  rintro found t ⟨⟩
  exact .inr h

/-- A request for bytes fails only where there are fewer. -/
theorem failsOnlyBy_bytes (n : Nat) : s.FailsOnlyBy own ((bytes n).run s) := by
  simp only [bytes]
  split
  · exact failsOnlyBy_ok _ _
  · rename_i hlt
    refine Source.FallsShort.failsOnlyBy ⟨0, n, Nat.zero_le _, by omega, ?_⟩
    rw [Source.advance_zero]

theorem failsOnlyBy_word (width : Nat) : s.FailsOnlyBy own ((word width).run s) :=
  failsOnlyBy_bind (failsOnlyBy_bytes width) fun _ t _ => failsOnlyBy_ok _ t

/-- A request for one byte fails only at the end. -/
theorem failsOnlyBy_byte : s.FailsOnlyBy own (byte.run s) := by
  simp only [byte]
  split
  · exact failsOnlyBy_ok _ _
  · rename_i hahead
    exact (Source.fallsShort_of_ahead_eq_nil hahead).failsOnlyBy

/-- A search for a zero fails only where there is none. -/
theorem failsOnlyBy_untilZero : s.FailsOnlyBy own (untilZero.run s) := by
  simp only [untilZero]
  split
  · exact failsOnlyBy_ok _ _
  · -- the zero is asked for behind the last byte
    exact Source.FallsShort.failsOnlyBy
      ⟨s.ahead.length, 1, Nat.le_refl _, Nat.lt_succ_self _, rfl⟩

/-- A run of zeros fails only with the device, right behind it. -/
theorem failsOnlyBy_zeros : s.FailsOnlyBy own (zeros.run s) := by
  obtain ⟨n, rest, hahead, hlast⟩ := exists_zeros s.ahead
  by_cases hending : rest = [] → s.ending = .endOfStream
  · rw [run_zeros hahead hlast hending]
    exact failsOnlyBy_ok _ _
  · obtain ⟨rfl, hfault⟩ := Classical.not_imp.mp hending
    rw [List.append_nil] at hahead
    have hlength : s.ahead.length = n := by rw [hahead, List.length_replicate]
    cases hcause : s.ending with
    | endOfStream => exact absurd hcause hfault
    | fault cause =>
      -- the byte that would end the run is asked for behind the last zero
      rw [run_zeros_of_fault hahead hcause]
      refine Source.FallsShort.failsOnlyBy ⟨n, 1, by omega, by omega, ?_⟩
      rw [Source.exhaust, hlength, Source.shortfall, show (s.advance n).ending = s.ending from rfl,
        hcause]

end Decoder

end BinaryLog
