import BinaryLog.Sink

namespace BinaryLog.Sink

/-!
# What a sink stores

A sink with a bound stores what fits and then nothing more.

* `write_of_fits`, what fits is stored as a whole, and `stored_write_of_bounded`, of the rest a sink
  has as much as there is room for;
* `writeEach_eq`, what comes in pieces is stored as if it came at once;
* `IsFull`, a sink without any room, which is what a failed write leaves (`isFull_write`).
-/

variable {s : Sink} {bytes : Bytes}

theorem fits_nil (s : Sink) : s.fits [] = true := by
  unfold fits
  split <;> simp

theorem fits_of_unbounded (h : s.capacity = none) : s.fits bytes = true := by
  rw [fits, room, h]
  rfl

theorem write_nil (s : Sink) : s.write [] = s := by
  unfold write
  split <;> simp

/-- What does not fit is longer than the room that its bound leaves. -/
theorem exists_capacity_of_not_fits (h : s.fits bytes = false) :
    ∃ capacity, s.capacity = some capacity ∧ capacity - s.stored.length < bytes.length := by
  cases hcapacity : s.capacity with
  | none =>
    rw [fits_of_unbounded hcapacity] at h
    cases h
  | some capacity => exact ⟨capacity, rfl, by simpa [fits, room, hcapacity] using h⟩

/-- What fits is stored as a whole. -/
theorem write_of_fits (h : s.fits bytes = true) :
    s.write bytes = { s with stored := s.stored ++ bytes } := by
  unfold write
  unfold fits at h
  split
  · rfl
  · rename_i room hroom
    rw [hroom] at h
    rw [List.take_of_length_le (of_decide_eq_true h)]

/-- After a part that fits, the rest is treated as if all had come at once. -/
theorem write_append_of_fits (h : s.fits bytes = true) (more : Bytes) :
    (s.write bytes).fits more = s.fits (bytes ++ more) ∧
      (s.write bytes).write more = s.write (bytes ++ more) := by
  rw [write_of_fits h]
  cases hcapacity : s.capacity with
  | none => simp [fits, write, room, hcapacity]
  | some capacity =>
    have hle : bytes.length ≤ capacity - s.stored.length := by
      simpa [fits, room, hcapacity] using h
    constructor
    · simp only [fits, room, hcapacity, Option.map_some, List.length_append, decide_eq_decide]
      omega
    · simp only [write, room, hcapacity, Option.map_some, List.length_append, List.take_append,
        List.take_of_length_le hle, List.append_assoc, Nat.sub_add_eq]

/-- Nothing that is stored is lost. -/
theorem exists_stored_write (s : Sink) (bytes : Bytes) :
    ∃ more, (s.write bytes).stored = s.stored ++ more := by
  unfold write
  split <;> exact ⟨_, rfl⟩

@[simp] theorem capacity_write (s : Sink) (bytes : Bytes) :
    (s.write bytes).capacity = s.capacity := by
  unfold write
  split <;> rfl

/-- A sink stays within its bound, and has what fits of anything that is written to it. -/
theorem stored_write_of_bounded {capacity : Nat} (hcapacity : s.capacity = some capacity)
    (hle : s.stored.length ≤ capacity) (bytes : Bytes) :
    (s.write bytes).stored = (s.stored ++ bytes).take capacity := by
  rw [List.take_append, List.take_of_length_le hle]
  simp only [write, room, hcapacity, Option.map_some]

/-- Where the first part does not fit, nothing of the rest is stored. -/
theorem write_append_of_not_fits (h : s.fits bytes = false) (more : Bytes) :
    s.fits (bytes ++ more) = false ∧ s.write (bytes ++ more) = s.write bytes := by
  obtain ⟨capacity, hcapacity, hlt⟩ := exists_capacity_of_not_fits h
  constructor
  · simp only [fits, room, hcapacity, Option.map_some, List.length_append, decide_eq_false_iff_not]
    omega
  · simp only [write, room, hcapacity, Option.map_some,
      List.take_append_of_le_length (Nat.le_of_lt hlt)]

/-- There is no room for anything. -/
def IsFull (s : Sink) : Prop := s.room = some 0

/-- Into a full sink fits nothing but nothing. -/
theorem IsFull.fits_iff (h : s.IsFull) : s.fits bytes = true ↔ bytes = [] := by
  rw [fits, show s.room = some 0 from h]
  simp

theorem IsFull.write_eq (h : s.IsFull) (bytes : Bytes) : s.write bytes = s := by
  rw [write, show s.room = some 0 from h]
  simp

/-- What does not fit leaves no room. -/
theorem isFull_write (h : s.fits bytes = false) : (s.write bytes).IsFull := by
  obtain ⟨capacity, hcapacity, hlt⟩ := exists_capacity_of_not_fits h
  simp only [IsFull, write, room, hcapacity, Option.map_some, List.length_append,
    List.length_take, Option.some.injEq]
  omega

/-- **Pieces make no difference.** Bytes that are handed over in pieces are stored as if they came
    at once, wherever the sink stops in them. -/
theorem writeEach_eq (s : Sink) (pieces : List Bytes) :
    s.writeEach pieces = (s.fits pieces.flatten, s.write pieces.flatten) := by
  induction pieces generalizing s with
  | nil => rw [writeEach, List.flatten_nil, fits_nil, write_nil]
  | cons piece pieces ih =>
    rw [writeEach, List.flatten_cons]
    cases h : s.fits piece with
    | true =>
      obtain ⟨hfits, hwrite⟩ := write_append_of_fits h pieces.flatten
      rw [if_pos rfl, ih, hfits, hwrite]
    | false =>
      obtain ⟨hfits, hwrite⟩ := write_append_of_not_fits h pieces.flatten
      rw [hfits, hwrite]
      rfl

end BinaryLog.Sink
