import BinaryLog.Replay.Replayer

namespace BinaryLog

/-!
# A replay makes progress

Every entry takes at least one byte, so a replay of a finite source ends. The main definitions are

* `Decoder.Strict`, the decoders that read something where something is ahead;
* `Replayer.pending`, a bound on the calls that still tell something, which every such call lowers.
-/

namespace Decoder

variable {α β : Type}

/-- A decoder that reads at least a byte if there is one, also if it fails. -/
def Strict (d : Decoder α) : Prop :=
  ∀ s : Source, s.ahead ≠ [] → (d.run s).2.ahead.length < s.ahead.length

theorem strict_byte : Strict byte := by
  intro s hs
  cases h : s.ahead with
  | nil => exact absurd h hs
  | cons b bs => simp [byte, h, Source.advance]

/-- A composition reads at least what its first part does. -/
theorem Strict.bind {d : Decoder α} (h : Strict d) (f : α → Decoder β) : Strict (d >>= f) := by
  intro s hs
  have hd := h s hs
  rw [run_bind]
  split <;> rename_i t ht
  · rw [ht] at hd
    exact Nat.lt_of_le_of_lt ((f _).forward t).length_le hd
  · rwa [ht] at hd

theorem Strict.map {d : Decoder α} (h : Strict d) (f : α → β) : Strict (f <$> d) := by
  rw [← bind_pure_comp]
  exact h.bind _

/-- A run of zeros that begins with one is not empty. -/
theorem zeros_lt {s : Source} {bs : Bytes} (h : s.ahead = 0 :: bs) :
    (zeros.run s).2.ahead.length < s.ahead.length := by
  have hs : (zeros.run s).2 = s.advance (s.ahead.takeWhile (· == 0)).length := by
    simp only [zeros]
    split <;> rfl
  rw [hs, Source.advance, h, List.takeWhile_cons]
  simp only [beq_self_eq_true, if_true, List.length_cons, List.length_drop]
  omega

end Decoder

/-- An entry takes at least one byte. -/
theorem Entry.decode_lt {registry : Registry} {chain : Chain} {s t : Source} {b : UInt8}
    {bs : Bytes} {entry : Entry} (hs : s.ahead = b :: bs)
    (h : (decode registry chain (EntryKind.ofByte b)).run s = (.ok entry, t)) :
    t.ahead.length < s.ahead.length := by
  have hne : s.ahead ≠ [] := by simp [hs]
  have ht : t = ((decode registry chain (EntryKind.ofByte b)).run s).2 := by rw [h]
  rw [ht]
  simp only [decode]
  split
  · exact ((Decoder.strict_byte.bind _).bind _) s hne
  · exact ((Decoder.strict_byte.bind _).map _) s hne
  -- neither tag fits, so the byte begins a padding or nothing at all
  · rename_i c hc
    have hcb : b = c := by
      simp only [EntryKind.ofByte] at hc
      split at hc
      · cases hc
      · split at hc
        · cases hc
        · exact EntryKind.invalid.inj hc
    subst hcb
    by_cases h0 : b = 0
    · subst h0
      rw [if_pos rfl, ← bind_pure_comp, Decoder.run_bind]
      have hz := Decoder.zeros_lt hs
      split <;> rename_i hrun <;> rw [hrun] at hz <;> exact hz
    · rw [hc, decode, if_neg h0] at h
      cases h

namespace Replayer

/-- A bound on the calls of `next` that still tell something: one for each byte ahead, and one for
    an error. -/
def pending (r : Replayer) : Nat := if r.phase.isTerminal then 0 else r.source.ahead.length + 1

@[simp] theorem source_settle (r : Replayer) : r.settle.source = r.source := by
  simp only [settle]
  split <;> rfl

@[simp] theorem source_account (r : Replayer) (offset : Nat) (entry : Entry) :
    (r.account offset entry).2.source = r.source := by
  cases entry <;> rfl

/-- There is at most one call more than there are bytes ahead. -/
theorem pending_le (r : Replayer) : r.pending ≤ r.source.ahead.length + 1 := by
  simp only [pending]
  split <;> omega

/-- A call that tells something leaves less to tell. -/
theorem pending_next_lt {r s : Replayer} {told : Except ReplayError (Option Event)}
    (h : r.next = (told, s)) (htold : told ≠ .ok none) : s.pending < r.pending := by
  by_cases hphase : r.phase.isTerminal
  · rw [next, if_pos hphase] at h
    cases h
    exact absurd rfl htold
  · have hr : r.pending = r.source.ahead.length + 1 := by rw [pending, if_neg hphase]
    rw [hr]
    rw [next, if_neg hphase, EntryKind.run_upcoming] at h
    cases hahead : r.source.ahead with
    | nil =>
      cases hending : r.source.ending <;> simp only [hahead, hending] at h <;> cases h <;>
        simp [pending, Phase.isTerminal]
    | cons b bs =>
      simp only [hahead] at h
      simp only [finish, enter] at h
      split at h <;> rename_i hrun <;> cases h
      · -- an entry that is told takes its first byte at least
        have hlt := Entry.decode_lt hahead hrun
        refine Nat.lt_of_le_of_lt (pending_le _) ?_
        rw [hahead] at hlt
        simpa only [source_settle, source_account, Nat.add_lt_add_iff_right] using hlt
      · simp [pending, Phase.isTerminal]

end Replayer

end BinaryLog
