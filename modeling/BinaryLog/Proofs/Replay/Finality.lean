import BinaryLog.Proofs.Replay.Running
import BinaryLog.Routine

namespace BinaryLog

/-!
# How a replay fails and ends

A call that fails has read on, and nothing else has changed. After it, as after the end, nothing
happens any more. So an error is told once, and last.

* `Replayer.of_next_error`, what a call that fails leaves behind, and `Replayer.phase_next`, where
  calls leave a replay;
* `Replayer.answers`, what a number of calls answer, and `Replayer.Orderly`, events before one error
  at most before nothing;
* `Replayer.orderly_answers`, calls answer in this order;
* `Replayer.next_atomic_final`, all of this for a replay in any state.
-/

/-- There are two ways for a replay to be over. -/
theorem Phase.isTerminal_iff {phase : Phase} :
    phase.isTerminal = true ↔ phase = .done ∨ phase = .failed := by
  cases phase <;> simp [isTerminal]

namespace Replayer

variable {r s : Replayer}

/-! ### One call -/

/-- **A call that fails** changes the source and the phase and nothing else, and its error says what
    had been told before. -/
theorem of_next_error {error : ReplayError} (h : r.next = (.error error, s)) :
    s = { r with source := s.source, phase := .failed } ∧
      error = r.errorAt r.source.offset error.cause := by
  obtain ⟨-, cause, u, rfl, rfl, -⟩ := next_eq_error h
  exact ⟨rfl, rfl⟩

/-- An entry that was read leaves the replay between two entries, or at its end. -/
theorem phase_after (r : Replayer) (entry : Entry) (u : Source) :
    (r.after entry u).phase = .scanning ∨ (r.after entry u).phase = .done := by
  unfold after settle
  split
  · exact .inr rfl
  · exact .inl rfl

/-- No call leaves the replay inside of an entry. -/
theorem phase_next (r : Replayer) :
    r.next.2.phase = .scanning ∨ r.next.2.phase = .done ∨ r.next.2.phase = .failed := by
  rcases h : r.next with ⟨answer, s⟩
  cases call_of_next h with
  | finished hterminal =>
    -- nothing has changed, so the phase is the terminal one of before
    exact .inr (Phase.isTerminal_iff.mp hterminal)
  | ended => exact .inr (.inl rfl)
  | fault => exact .inr (.inr rfl)
  | failure => exact .inr (.inr rfl)
  | @told entry u =>
    obtain hscanning | hdone := phase_after r entry u
    · exact .inl hscanning
    · exact .inr (.inl hdone)

/-! ### Many calls -/

/-- Calls after the end change nothing. -/
theorem calls_of_terminal (h : r.phase.isTerminal = true) (n : Nat) : calls n r = r := by
  induction n with
  | zero => rfl
  | succ n ih => rw [calls_succ, ih, next_of_terminal h]

/-- What the first `n` calls answer. -/
def answers (n : Nat) (r : Replayer) : List (Except ReplayError (Option Event)) :=
  (List.range n).map fun i => (calls i r).next.1

theorem answers_succ (n : Nat) (r : Replayer) :
    answers (n + 1) r = r.next.1 :: answers n r.next.2 := by
  rw [answers, List.range_succ_eq_map, List.map_cons, List.map_map]
  rfl

/-- A replay that is over answers with nothing, for ever. -/
theorem answers_of_terminal (h : r.phase.isTerminal = true) (n : Nat) :
    answers n r = List.replicate n (.ok none) := by
  rw [answers, List.eq_replicate_iff]
  refine ⟨by simp, ?_⟩
  intro answer hanswer
  obtain ⟨i, -, rfl⟩ := List.mem_map.mp hanswer
  rw [calls_of_terminal h, next_of_terminal h]

/-- Answers that tell events, then one error at most, and nothing after that. -/
inductive Orderly : List (Except ReplayError (Option Event)) → Prop
  | over (n : Nat) : Orderly (List.replicate n (.ok none))
  | error (error : ReplayError) (n : Nat) : Orderly (.error error :: List.replicate n (.ok none))
  | event (event : Event) {answers : List (Except ReplayError (Option Event))}
      (rest : Orderly answers) : Orderly (.ok (some event) :: answers)

/-- **Calls answer in order.** An error is told once, and nothing comes after it. -/
theorem orderly_answers (n : Nat) (r : Replayer) : Orderly (answers n r) := by
  induction n generalizing r with
  | zero => exact .over 0
  | succ n ih =>
    rw [answers_succ]
    rcases h : r.next with ⟨error | _ | event, s⟩
    · -- the replay has failed, so the other calls come after its end
      have hterminal : s.phase.isTerminal = true := by rw [phase_of_next_error h]; rfl
      rw [answers_of_terminal hterminal]
      exact .error error n
    · rw [answers_of_terminal (isTerminal_of_none h)]
      exact .over (n + 1)
    · exact .event event (ih s)

/-- **A failure is atomic, told once, and final**, whatever state a replay is in. A call that fails
    has moved the source on and leaves all else as it was, which is also what the error reports. No
    call ends inside of an entry. After the end, calls answer nothing and change nothing, and so one
    error at most is told, after all events. -/
theorem next_atomic_final (r : Replayer) :
    (∀ error s, r.next = (.error error, s) →
      s = { r with source := s.source, phase := .failed } ∧
        error.chain = r.chain ∧ error.messages = r.messages ∧
          error.entryOffset = r.source.offset) ∧
      (r.next.2.phase = .scanning ∨ r.next.2.phase = .done ∨ r.next.2.phase = .failed) ∧
      (r.phase = .done ∨ r.phase = .failed →
        ∀ n, calls n r = r ∧ answers n r = List.replicate n (.ok none)) ∧
      ∀ n, Orderly (answers n r) := by
  refine ⟨?_, phase_next r, ?_, fun n => orderly_answers n r⟩
  · intro error s h
    obtain ⟨hs, herror⟩ := of_next_error h
    refine ⟨hs, ?_⟩
    rw [herror]
    exact ⟨rfl, rfl, rfl⟩
  · intro hphase n
    have hterminal := Phase.isTerminal_iff.mpr hphase
    exact ⟨calls_of_terminal hterminal n, answers_of_terminal hterminal n⟩

/-- A message, a checkpoint and a padding, and a message in whose payload the device fails. -/
theorem next_atomic_final_in_payload :
    let registry : Registry := ({} : FormatTable Routine).insert ⟨7⟩ Routine.singleByte
    let rate := Binary64.ofNat 2000000000
    let checkpoint : Checkpoint := { cycleCounter := 100, unixTime := 5, rate }
    let bytes : Bytes := [0x15, 7, 100, 1] ++ checkpoint.encode ++ [0, 0, 0x11, 20, 3]
    let config : ReplayConfig := { conversion := .checkpoints defaultRate }
    let replay := start (.failingAfter bytes 33 "device gone") registry config
    let before := replay.calls 3
    let error : ReplayError := ⟨.device "device gone", 31, ⟨⟨7⟩, 100⟩, 1⟩
    let failed := before.next.2
    before.checkpoints = 1 ∧ before.padBytes = 2 ∧ before.rate = rate ∧
      before.next.1 = .error error ∧ failed.source.offset = 33 ∧
      failed = { before with source := failed.source, phase := .failed } ∧
      failed.calls 5 = failed ∧ Orderly (replay.answers 9) := by
  intro registry rate checkpoint bytes config replay before error failed
  have herror : before.next.1 = .error error := by decide +kernel
  have hnext : before.next = (.error error, failed) := by rw [← herror]
  obtain ⟨hkept, -⟩ := (next_atomic_final before).1 error failed hnext
  have hphase : failed.phase = .failed := phase_of_next_error hnext
  exact ⟨by decide +kernel, by decide +kernel, by decide +kernel, herror, by decide +kernel, hkept,
    ((next_atomic_final failed).2.2.1 (.inr hphase) 5).1, (next_atomic_final replay).2.2.2 9⟩

end Replayer

end BinaryLog
