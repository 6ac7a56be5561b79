import BinaryLog.Proofs.Replay.Accounting

namespace BinaryLog

/-!
# The rate in effect

A replay turns cycles into time at a rate that is a positive number, whatever the checkpoints of a
log say.

* `Binary64.Usable`, the numbers that are rates, and `Binary64.isPositiveFinite_iff`, the test of
  bit patterns recognizes them;
* `TimeConversion.inEffect`, the rate that settings come to after what has been told;
* `Replayer.rate_calls`, a replay has this rate, which is usable, and computes with it.
-/

/-! ### Usable rates -/

namespace Binary64

/-- A number, neither infinite nor negative, and above zero. -/
structure Usable (x : Binary64) : Prop where
  isNaN : x.isNaN = false
  isInfinite : x.isInfinite = false
  negative : x.negative = false
  /-- The number is `numerator / denominator`. -/
  positive : 0 < x.numerator

/-- A magnitude is zero only if its bits are. -/
theorem numerator_pos_iff (x : Binary64) : 0 < x.numerator ↔ x.magnitudeBits ≠ 0 := by
  have hweight : 0 < exponentWeight := by decide
  have hsplit := Nat.div_add_mod x.magnitudeBits exponentWeight
  have hpower : 0 < Nat.pow 2 x.exponent.toNat := Nat.two_pow_pos _
  rw [numerator, Nat.mul_pos_iff_of_pos_right hpower, significand]
  split
  · -- without an exponent the fraction is the whole magnitude
    rename_i hexponent
    rw [exponentField] at hexponent
    rw [hexponent, Nat.mul_zero, Nat.zero_add] at hsplit
    rw [fraction, hsplit, Nat.pos_iff_ne_zero]
  · rename_i hexponent
    refine ⟨fun _ hzero => hexponent ?_, fun _ => Nat.add_pos_left hweight _⟩
    rw [exponentField, hzero, Nat.zero_div]

/-- **The test of bit patterns** recognizes the usable rates. -/
theorem isPositiveFinite_iff (x : Binary64) : x.isPositiveFinite = true ↔ x.Usable := by
  have hzero : x.isZero = false ↔ 0 < x.numerator := by
    rw [numerator_pos_iff, isZero, beq_eq_false_iff_ne]
  rw [isPositiveFinite, Bool.and_eq_true, Bool.and_eq_true, Bool.not_eq_true', Bool.not_eq_true',
    isFinite_iff, hzero]
  constructor
  · rintro ⟨⟨⟨hnan, hinfinite⟩, hpositive⟩, hnegative⟩
    exact ⟨hnan, hinfinite, hnegative, hpositive⟩
  · rintro ⟨hnan, hinfinite, hnegative, hpositive⟩
    exact ⟨⟨⟨hnan, hinfinite⟩, hpositive⟩, hnegative⟩

instance (x : Binary64) : Decidable x.Usable := decidable_of_iff _ x.isPositiveFinite_iff

end Binary64

/-! ### What settings come to -/

/-- The rate of a checkpoint, if it is usable. -/
def Event.usableRate? : Event → Option Binary64
  | .checkpoint c => if c.rate.Usable then some c.rate else none
  | _ => none

namespace TimeConversion

/-- The rate after these events: the one that is given, or the last usable one of a checkpoint, if
    there is one. -/
def inEffect (told : List Event) : TimeConversion → Binary64
  | .fixed rate => rate
  | .checkpoints fallback => (told.filterMap Event.usableRate?).getLast?.getD fallback

variable {told : List Event}

theorem inEffect_nil (conversion : TimeConversion) :
    conversion.inEffect [] = conversion.initialRate := by
  cases conversion <;> rfl

/-- An event that has no usable rate changes nothing. -/
theorem inEffect_concat_of_none (conversion : TimeConversion) {event : Event}
    (h : event.usableRate? = none) :
    conversion.inEffect (told ++ [event]) = conversion.inEffect told := by
  cases conversion with
  | fixed rate => rfl
  | checkpoints fallback =>
    rw [inEffect, inEffect, List.filterMap_append, List.filterMap_cons_none h, List.filterMap_nil,
      List.append_nil]

/-- A usable rate takes effect where checkpoints are followed. -/
theorem inEffect_concat_of_some (conversion : TimeConversion) {event : Event} {rate : Binary64}
    (h : event.usableRate? = some rate) :
    conversion.inEffect (told ++ [event]) =
      if conversion.followsCheckpoints then rate else conversion.inEffect told := by
  cases conversion with
  | fixed given => rfl
  | checkpoints fallback =>
    rw [inEffect, List.filterMap_append, List.filterMap_cons_some h, List.filterMap_nil,
      List.getLast?_concat]
    rfl

/-- A rate that an event calibrates to is usable. -/
theorem usable_of_usableRate? {event : Event} {rate : Binary64}
    (h : event.usableRate? = some rate) : rate.Usable := by
  unfold Event.usableRate? at h
  split at h
  · split at h
    · cases h
      assumption
    · cases h
  · cases h

/-- No checkpoint brings an unusable rate into effect. -/
theorem usable_inEffect {conversion : TimeConversion} (h : conversion.initialRate.Usable)
    (told : List Event) : (conversion.inEffect told).Usable := by
  cases conversion with
  | fixed rate => exact h
  | checkpoints fallback =>
    rw [inEffect]
    cases hlast : (told.filterMap Event.usableRate?).getLast? with
    | none => exact h
    | some rate =>
      -- the rate in effect is one that an event had, and was tested there
      obtain ⟨event, -, hrate⟩ := List.mem_filterMap.mp (List.mem_of_getLast? hlast)
      exact usable_of_usableRate? hrate

end TimeConversion

namespace Replayer

variable {r s replay : Replayer} {event : Event} {told : List Event}

/-! ### One call -/

/-- A replay that has come to the rate that its settings come to after these events. -/
def Calibrated (told : List Event) (r : Replayer) : Prop :=
  r.rate = r.config.conversion.inEffect told

theorem calibrated_start (source : Source) (registry : Registry) (config : ReplayConfig) :
    Calibrated [] (start source registry config) :=
  config.conversion.inEffect_nil.symm

/-- **A call that tells an event** takes its rate into account. -/
theorem Calibrated.tell (h : Calibrated told r) (hnext : r.next = (.ok (some event), s)) :
    Calibrated (told ++ [event]) s := by
  obtain ⟨-, entry, u, -, rfl, rfl⟩ := next_eq_event_iff.mp hnext
  rw [Calibrated, rate_after, config_after]
  cases entry with
  | message metadata text => exact h.trans (TimeConversion.inEffect_concat_of_none _ rfl).symm
  | padding length => exact h.trans (TimeConversion.inEffect_concat_of_none _ rfl).symm
  | checkpoint c =>
    show r.rateAfter c = _
    rw [rateAfter, Checkpoint.hasUsableRate]
    -- a rate that is not usable is told, but does not take effect
    by_cases hrate : c.rate.Usable
    · have hevent : (Event.checkpoint c).usableRate? = some c.rate := if_pos hrate
      have htold : r.told (.checkpoint c) = .checkpoint c := rfl
      rw [c.rate.isPositiveFinite_iff.mpr hrate, Bool.and_true, htold,
        TimeConversion.inEffect_concat_of_some _ hevent, ← h]
    · have hevent : (Event.checkpoint c).usableRate? = none := if_neg hrate
      have htest : c.rate.isPositiveFinite = false :=
        Bool.eq_false_iff.mpr (mt c.rate.isPositiveFinite_iff.mp hrate)
      rw [htest, Bool.and_false]
      exact h.trans (TimeConversion.inEffect_concat_of_none _ hevent).symm

/-- A message is told with the time that its cycles take at the rate before it. -/
theorem elapsedNanos_of_event {m : Message} (h : r.next = (.ok (some (.message m)), s)) :
    m.elapsedNanos = elapsedNanos m.elapsedCycles r.rate := by
  obtain ⟨-, entry, u, -, htold, -⟩ := next_eq_event_iff.mp h
  cases entry with
  | message metadata text =>
    cases htold
    rfl
  | checkpoint c => cases htold
  | padding length => cases htold

/-! ### Many calls -/

/-- **After any number of calls** the rate is that of the last usable checkpoint. -/
theorem Calibrated.calls (h : Calibrated [] r) (n : Nat) :
    Calibrated (r.toldBy n) (r.calls n) := by
  refine calls_induction h ?_ ?_ n
  · intro told s event t ih hnext
    exact ih.tell hnext
  · exact fun told s source phase ih => ih

/-- Settings that pass the check begin with a usable rate. -/
theorem of_start?_eq_ok {source : Source} {registry : Registry} {config : ReplayConfig}
    (h : start? source registry config = .ok replay) :
    replay = start source registry config ∧ config.conversion.initialRate.Usable := by
  rw [start?, ReplayConfig.check] at h
  split at h
  · cases h
  · split at h
    · rename_i hrate
      cases h
      exact ⟨rfl, (Binary64.isPositiveFinite_iff _).mp hrate⟩
    · cases h

/-- **The rate in effect** is a positive number after any number of calls: the one that is given, or
    where checkpoints are followed that of the last one told so far whose rate is such a number, if
    there is one. The time of each message is computed with the rate in effect before it. -/
theorem rate_calls {source : Source} {registry : Registry} {config : ReplayConfig}
    (h : start? source registry config = .ok replay) (n : Nat) :
    (replay.calls n).rate.Usable ∧
      (replay.calls n).rate = config.conversion.inEffect (replay.toldBy n) ∧
      ∀ m, (replay.calls n).event? = some (.message m) →
        m.elapsedNanos =
          elapsedNanos m.elapsedCycles (config.conversion.inEffect (replay.toldBy n)) := by
  obtain ⟨rfl, husable⟩ := of_start?_eq_ok h
  have hrate : _ = _ := (calibrated_start source registry config).calls n
  rw [config_calls] at hrate
  refine ⟨?_, hrate, fun m hm => ?_⟩
  · rw [hrate]
    exact TimeConversion.usable_inEffect husable _
  · rw [elapsedNanos_of_event (next_of_event?_eq_some hm), hrate]
    rfl

/-- Checkpoints with a NaN, a zero and a negative rate, and one with a rate of twice the fallback,
    around two messages. -/
theorem rate_calls_of_unusable_checkpoints :
    let registry : Registry := ({} : FormatTable Routine).insert ⟨7⟩ Routine.singleByte
    let checkpoint (rate : Binary64) : Bytes := Checkpoint.encode ⟨0, 0, rate⟩
    let fast := Binary64.ofNat 2000000000
    let bytes := checkpoint .nan ++ checkpoint (.ofMagnitudeBits true 0) ++ [0x15, 7, 100, 1] ++
      checkpoint fast ++ checkpoint (.ofMagnitudeBits true fast.magnitudeBits) ++ [0x11, 100, 2]
    let config : ReplayConfig := { conversion := .checkpoints defaultRate }
    let replay := start (.ofBytes bytes) registry config
    let first : Message := ⟨0, ⟨7⟩, 100, 100, elapsedNanos 100 defaultRate, "fmt7:1"⟩
    let second : Message := ⟨1, ⟨7⟩, 200, 100, elapsedNanos 100 fast, "fmt7:2"⟩
    start? (.ofBytes bytes) registry config = .ok replay ∧
      (replay.calls 2).event? = some (.message first) ∧ (replay.calls 2).rate = defaultRate ∧
      (replay.calls 5).event? = some (.message second) ∧ (replay.calls 5).rate = fast ∧
      (replay.calls 5).rate.Usable ∧
      second.elapsedNanos = elapsedNanos 100 (config.conversion.inEffect (replay.toldBy 5)) := by
  intro registry checkpoint fast bytes config replay first second
  have hconfig : config.check = .ok () := by decide +kernel
  have hstart : start? (.ofBytes bytes) registry config = .ok replay := by
    rw [start?, hconfig]
    rfl
  have hfirst : (replay.calls 2).event? = some (.message first) := by decide +kernel
  have hsecond : (replay.calls 5).event? = some (.message second) := by decide +kernel
  have hslow : config.conversion.inEffect (replay.toldBy 2) = defaultRate := by decide +kernel
  have hfast : config.conversion.inEffect (replay.toldBy 5) = fast := by decide +kernel
  obtain ⟨-, hbefore, -⟩ := rate_calls hstart 2
  obtain ⟨husable, hafter, helapsed⟩ := rate_calls hstart 5
  exact ⟨hstart, hfirst, hbefore.trans hslow, hsecond, hafter.trans hfast, husable,
    helapsed second hsecond⟩

end Replayer

end BinaryLog
