import BinaryLog.FormatId

namespace BinaryLog

/-!
# Tables by format id

A table holds at most one value per format id and keeps the order in which ids were first given.
Giving a new value to an id leaves the id in its place. The main definitions are

* `FormatTable`, with `insert`, `get?`, `contains` and `ids`;
* `FormatTable.ids_insert` and `FormatTable.get?_insert`, what inserting does to the two views.
-/

/-- Values by format id, in order of first insertion. -/
structure FormatTable (α : Type) where
  entries : List (FormatId × α) := []
  distinct : (entries.map Prod.fst).Nodup := by simp

namespace FormatTable

variable {α : Type}

/-- Replaces the value of `id` in its place, or adds it at the end. -/
def put (id : FormatId) (a : α) : List (FormatId × α) → List (FormatId × α)
  | [] => [(id, a)]
  | (key, b) :: rest => if key = id then (key, a) :: rest else (key, b) :: put id a rest

/-- A put changes the ids only where its own is new. -/
theorem map_fst_put (id : FormatId) (a : α) (entries : List (FormatId × α)) :
    (put id a entries).map Prod.fst =
      if id ∈ entries.map Prod.fst then entries.map Prod.fst
      else entries.map Prod.fst ++ [id] := by
  induction entries with
  | nil => simp [put]
  | cons entry rest ih =>
    obtain ⟨key, b⟩ := entry
    by_cases h : key = id
    · simp [put, h]
    · have h' : ¬ id = key := fun e => h e.symm
      simp only [put, h, if_false, List.map_cons, ih, List.mem_cons, h', false_or]
      split <;> simp

/-- No id is ever listed twice. -/
theorem nodup_put {id : FormatId} {a : α} {entries : List (FormatId × α)}
    (h : (entries.map Prod.fst).Nodup) : ((put id a entries).map Prod.fst).Nodup := by
  rw [map_fst_put]
  split
  · exact h
  · rw [List.nodup_append]
    refine ⟨h, by simp, ?_⟩
    intro x hx y hy hxy
    rw [List.mem_singleton] at hy
    exact absurd (hy ▸ hxy ▸ hx) ‹_›

/-- Gives `id` the value `a`. -/
def insert (t : FormatTable α) (id : FormatId) (a : α) : FormatTable α where
  entries := put id a t.entries
  distinct := nodup_put t.distinct

/-- The value of `id`. -/
def get? (t : FormatTable α) (id : FormatId) : Option α := t.entries.lookup id

/-- The ids that have a value, in order of first insertion. -/
def ids (t : FormatTable α) : List FormatId := t.entries.map Prod.fst

/-- Does `id` have a value? -/
def contains (t : FormatTable α) (id : FormatId) : Bool := id ∈ t.ids

/-- The number of ids that have a value. -/
def size (t : FormatTable α) : Nat := t.entries.length

/-- Does no id have a value? -/
def isEmpty (t : FormatTable α) : Bool := t.entries.isEmpty

/-- The table with every value changed by `f`, which also sees the id. -/
def map {β : Type} (f : FormatId → α → β) (t : FormatTable α) : FormatTable β where
  entries := t.entries.map fun entry => (entry.1, f entry.1 entry.2)
  distinct := by
    have h : (t.entries.map fun entry => (entry.1, f entry.1 entry.2)).map Prod.fst =
        t.entries.map Prod.fst := by simp
    rw [h]
    exact t.distinct

/-! ### What inserting does -/

/-- A new id comes last; a known one keeps its place. -/
theorem ids_insert (t : FormatTable α) (id : FormatId) (a : α) :
    (t.insert id a).ids = if id ∈ t.ids then t.ids else t.ids ++ [id] :=
  map_fst_put id a t.entries

/-- A put is found under its id and changes nothing under the others. -/
theorem lookup_put (id other : FormatId) (a : α) (entries : List (FormatId × α)) :
    (put id a entries).lookup other = if other = id then some a else entries.lookup other := by
  induction entries with
  | nil =>
    by_cases h : other = id
    · simp [put, h]
    · have h' : (other == id) = false := by simp [h]
      simp [put, List.lookup_cons, h, h']
  | cons entry rest ih =>
    obtain ⟨key, b⟩ := entry
    by_cases ho : other = key
    · subst ho
      by_cases hk : other = id <;> simp [put, hk]
    · have ho' : (other == key) = false := by simp [ho]
      by_cases hk : key = id
      · subst hk
        simp [put, ho, ho', List.lookup_cons]
      · simp [put, hk, ih, ho', List.lookup_cons]

/-- What is inserted is found again, in place of what was there before. -/
theorem get?_insert (t : FormatTable α) (id other : FormatId) (a : α) :
    (t.insert id a).get? other = if other = id then some a else t.get? other :=
  lookup_put id other a t.entries

@[simp] theorem ids_map {β : Type} (f : FormatId → α → β) (t : FormatTable α) :
    (t.map f).ids = t.ids := by
  simp [map, ids]

end FormatTable

end BinaryLog
