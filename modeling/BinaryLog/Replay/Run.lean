import BinaryLog.Replay.Progress

namespace BinaryLog.Replayer

/-!
# Replaying to the end

Two ways to call `Replayer.next` until nothing more is told: `run` hands the events to a sink one by
one, and `events` collects what an iterator over the replay yields.
-/

/-! ### Handing events to a sink -/

/-- Hands every event to `sink`, which folds them into a state. Yields the totals, or the error that
    ended the replay, with the sink's last state. -/
def run {σ : Type} (sink : σ → Event → σ) (state : σ) (r : Replayer) :
    Except ReplayError Summary × σ × Replayer :=
  match _h : r.next with
  | (.ok (some event), s) => run sink (sink state event) s
  | (.ok none, s) => (.ok s.summary, state, s)
  | (.error error, s) => (.error error, state, s)
termination_by r.pending
decreasing_by exact pending_next_lt _h (by simp)

/-! ### Iterating -/

/-- What an iterator over the replay yields next: an event, an error, or nothing at the end. -/
def item? (r : Replayer) : Option (Except ReplayError Event) × Replayer :=
  match r.next with
  | (.ok (some event), s) => (some (.ok event), s)
  | (.ok none, s) => (none, s)
  | (.error error, s) => (some (.error error), s)

/-- An item leaves less to tell. -/
theorem pending_item_lt {r s : Replayer} {item : Except ReplayError Event}
    (h : r.item? = (some item, s)) : s.pending < r.pending := by
  rw [item?] at h
  split at h <;> rename_i hnext
  · cases h
    exact pending_next_lt hnext (by simp)
  · cases h
  · cases h
    exact pending_next_lt hnext (by simp)

/-- All items of an iterator over the replay, and the replay after the last one. -/
def events (r : Replayer) : List (Except ReplayError Event) × Replayer :=
  match _h : r.item? with
  | (some item, s) =>
    let (items, last) := events s
    (item :: items, last)
  | (none, s) => ([], s)
termination_by r.pending
decreasing_by exact pending_item_lt _h

end BinaryLog.Replayer
