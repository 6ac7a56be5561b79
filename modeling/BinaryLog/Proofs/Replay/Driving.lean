import BinaryLog.Proofs.Replay.Telling

namespace BinaryLog.Replayer

/-!
# Ways to drive a replay

A replay can be called by hand, handed a sink, or iterated over. Each way goes through the same
calls, up to the first that tells no event.

* `PlaysOut r told outcome last`, what the calls of a whole replay tell and how they end, and
  `exists_playsOut`, every replay plays out;
* `PlaysOut.run_eq`, what a sink is handed;
* `PlaysOut.events_eq` and `PlaysOut.item?_pulled`, what an iterator yields, and what it yields when
  it is asked again.
-/

variable {r s last : Replayer} {told : List Event} {outcome : Except ReplayError Unit}

/-- Called again and again, the replay `r` tells the events `told`. Then one call tells no event and
    leaves the replay as `last`; its outcome is an error if it fails. -/
inductive PlaysOut : Replayer → List Event → Except ReplayError Unit → Replayer → Prop
  | silent {r last : Replayer} {outcome : Except ReplayError Unit}
      (silence : r.next = (outcome.map fun _ => none, last)) : PlaysOut r [] outcome last
  | tell {r s last : Replayer} {event : Event} {told : List Event}
      {outcome : Except ReplayError Unit} (first : r.next = (.ok (some event), s))
      (rest : PlaysOut s told outcome last) : PlaysOut r (event :: told) outcome last

/-- Calls that tell events, and one more that does not, are a replay played out. -/
theorem Tells.playsOut (h : Tells r told s) (hs : s.next = (outcome.map fun _ => none, last)) :
    PlaysOut r told outcome last := by
  induction h with
  | refl => exact .silent hs
  | step first _ ih => exact .tell first (ih hs)

/-- **Every replay plays out**, as the bytes ahead are used up. -/
theorem exists_playsOut (r : Replayer) : ∃ told outcome last, PlaysOut r told outcome last := by
  obtain ⟨told, s, htells, ⟨last, hlast⟩ | ⟨error, last, hlast⟩⟩ := exists_tells r
  · exact ⟨told, .ok (), last, htells.playsOut hlast⟩
  · exact ⟨told, .error error, last, htells.playsOut hlast⟩

/-- A replay that is played out tells its events up to a last call. -/
theorem PlaysOut.exists_tells (h : PlaysOut r told outcome last) :
    ∃ s, Tells r told s ∧ s.next = (outcome.map fun _ => none, last) := by
  induction h with
  | silent silence => exact ⟨_, .refl _, silence⟩
  | tell first _ ih =>
    obtain ⟨s, htells, hs⟩ := ih
    exact ⟨s, .step first htells, hs⟩

/-- A call that tells no event leaves nothing to tell. -/
theorem isTerminal_of_silence (h : r.next = (outcome.map fun _ => none, last)) :
    last.phase.isTerminal = true := by
  cases outcome with
  | ok _ => exact isTerminal_of_none h
  | error error => rw [phase_of_next_error h]; rfl

/-! ### Handing events to a sink -/

section Run

variable {σ : Type} (sink : σ → Event → σ) (state : σ)

/-- A run hands an event to the sink and goes on. -/
theorem run_of_event {event : Event} (h : r.next = (.ok (some event), s)) :
    r.run sink state = s.run sink (sink state event) := by
  rw [run]
  split <;> simp_all

/-- A run stops at the first call that tells no event. -/
theorem run_of_silence (h : r.next = (outcome.map fun _ => none, last)) :
    r.run sink state = (outcome.map fun _ => last.summary, state, last) := by
  rw [run]
  cases outcome <;> simp only [Except.map] at h <;> split <;> simp_all [Except.map]

/-- **A sink is handed** the events in order, and the totals or the error come back. -/
theorem PlaysOut.run_eq (h : PlaysOut r told outcome last) :
    r.run sink state = (outcome.map fun _ => last.summary, told.foldl sink state, last) := by
  induction h generalizing state with
  | silent silence => exact run_of_silence sink state silence
  | tell first _ ih => rw [run_of_event sink state first, ih, List.foldl_cons]

end Run

/-! ### Iterating -/

/-- What an iterator over a replay yields that tells these events: the events, and an error behind
    them if there is one. -/
def itemsOf (told : List Event) (outcome : Except ReplayError Unit) :
    List (Except ReplayError Event) :=
  told.map .ok ++ match outcome with
    | .ok _ => []
    | .error error => [.error error]

/-- Iterating tells the same events, and the error of the last call. -/
theorem PlaysOut.events_eq (h : PlaysOut r told outcome last) :
    r.events = (itemsOf told outcome, last) := by
  induction h with
  | @silent r last outcome silence =>
    cases outcome with
    | ok _ => exact events_of_none silence
    | error error => exact events_of_error silence
  | tell first _ ih => rw [events_of_event first, ih]; rfl

/-- The replay after an iterator over it was asked `n` times. -/
def pulled : Nat → Replayer → Replayer
  | 0, r => r
  | n + 1, r => pulled n r.item?.2

theorem item?_of_terminal (h : r.phase.isTerminal = true) : r.item? = (none, r) := by
  rw [item?, next_of_terminal h]

theorem pulled_of_terminal (h : r.phase.isTerminal = true) (n : Nat) : pulled n r = r := by
  induction n with
  | zero => rfl
  | succ n ih => rw [pulled, item?_of_terminal h, ih]

/-- An iterator that has yielded all items yields nothing, however often it is asked. -/
theorem item?_pulled_of_terminal (h : r.phase.isTerminal = true) (n : Nat) :
    (pulled n r).item?.1 = none := by
  rw [pulled_of_terminal h, item?_of_terminal h]

/-- **An iterator yields** one item after the other, and nothing more behind them. -/
theorem PlaysOut.item?_pulled (h : PlaysOut r told outcome last) (n : Nat) :
    (pulled n r).item?.1 = (itemsOf told outcome)[n]? := by
  induction h generalizing n with
  | @silent r last outcome silence =>
    have hlast := isTerminal_of_silence silence
    have hitem : r.item? = ((itemsOf [] outcome)[0]?, last) := by
      rw [item?, silence]
      cases outcome <;> rfl
    cases n with
    | zero => rw [pulled, hitem]
    | succ n =>
      rw [pulled, hitem, item?_pulled_of_terminal hlast]
      cases outcome <;> rfl
  | @tell r s last event told outcome first _ ih =>
    have hitem : r.item? = (some (.ok event), s) := by rw [item?, first]
    cases n with
    | zero => rw [pulled, hitem]; rfl
    | succ n => rw [pulled, hitem, ih]; rfl

end BinaryLog.Replayer
