import BinaryLog.Argument.Rendering
import Mathlib.Data.List.Infix

namespace BinaryLog

/-!
# Boundaries between characters

A text is cut down to a number of bytes by a search that goes backwards from there to the next place
where no character is split.

* `LongestWithin`, the longest beginning of a text within a number of bytes, of which there is one;
* `SearchStops`, where a search for a boundary stops and how many steps that takes;
* `Directive.longestWithin_takeBytes`, a text that is cut down is the longest beginning, and
  `SearchStops.steps_le_three`, why the search is short.
-/

/-! ### Beginnings of a text -/

section Beginnings

variable {text part other : String}

theorem exists_eq_append (h : part.toList <+: text.toList) :
    ∃ rest, text = part ++ rest := by
  obtain ⟨cs, hcs⟩ := h
  refine ⟨String.ofList cs, String.toList_injective ?_⟩
  rw [String.toList_append, String.toList_ofList, hcs]

theorem begins_append (part rest : String) : part.toList <+: (part ++ rest).toList := by
  rw [String.toList_append]
  exact List.prefix_append _ _

/-- Of two beginnings, the one that takes fewer bytes begins the other one. -/
theorem begins_of_utf8ByteSize_le (hpart : part.toList <+: text.toList)
    (hother : other.toList <+: text.toList) (h : part.utf8ByteSize ≤ other.utf8ByteSize) :
    part.toList <+: other.toList := by
  obtain hbegins | hbegins := List.prefix_or_prefix_of_prefix hpart hother
  · exact hbegins
  · -- nothing can follow the other one, as every character takes bytes
    obtain ⟨rest, rfl⟩ := exists_eq_append hbegins
    rw [String.utf8ByteSize_append] at h
    have hrest : rest = "" := String.utf8ByteSize_eq_zero_iff.mp (by omega)
    rw [hrest, String.append_empty]

end Beginnings

/-- The longest beginning of a text, in whole characters, that takes at most `limit` bytes. -/
structure LongestWithin (limit : ℕ) (text part : String) : Prop where
  isPrefix : part.toList <+: text.toList
  size_le : part.utf8ByteSize ≤ limit
  longest : ∀ other : String, other.toList <+: text.toList → other.utf8ByteSize ≤ limit →
    other.toList <+: part.toList

namespace LongestWithin

variable {limit more : ℕ} {text part other : String}

/-- With more bytes, no less is kept. -/
theorem mono (hpart : LongestWithin limit text part) (hother : LongestWithin more text other)
    (h : limit ≤ more) : part.toList <+: other.toList :=
  hother.longest part hpart.isPrefix (hpart.size_le.trans h)

/-- **There is one longest part** within a limit. -/
theorem unique (hpart : LongestWithin limit text part)
    (hother : LongestWithin limit text other) : part = other := by
  have hle := (hother.mono hpart (Nat.le_refl limit)).length_le
  exact String.toList_injective
    ((hpart.mono hother (Nat.le_refl limit)).eq_of_length_le hle)

/-- A text that fits is kept as a whole. -/
theorem self (h : text.utf8ByteSize ≤ limit) : LongestWithin limit text text :=
  ⟨List.prefix_rfl, h, fun _ hbegins _ => hbegins⟩

end LongestWithin

/-! ### Searching for a boundary -/

/-- A search for a boundary that starts at byte `limit` and goes backwards stops after `steps`
    steps, and so does not leave the text. -/
structure SearchStops (text : String) (limit steps : ℕ) : Prop where
  steps_le : steps ≤ limit
  isValid : String.Pos.Raw.IsValid text ⟨limit - steps⟩
  not_isValid : ∀ i < steps, ¬ String.Pos.Raw.IsValid text ⟨limit - i⟩

namespace SearchStops

variable {text : String} {limit steps : ℕ}

/-- A step back from where the search cannot stop. -/
theorem succ (h : SearchStops text limit steps)
    (hnot : ¬ String.Pos.Raw.IsValid text ⟨limit + 1⟩) :
    SearchStops text (limit + 1) (steps + 1) := by
  refine ⟨Nat.succ_le_succ h.steps_le, ?_, ?_⟩
  · rw [Nat.add_sub_add_right]
    exact h.isValid
  · intro i hi
    cases i with
    | zero => exact hnot
    | succ i =>
      rw [Nat.add_sub_add_right]
      exact h.not_isValid i (Nat.lt_of_succ_lt_succ hi)

/-- No boundary lies between where the search starts and where it stops. -/
theorem le_of_isValid (h : SearchStops text limit steps) {index : ℕ} (hindex : index ≤ limit)
    (hvalid : String.Pos.Raw.IsValid text ⟨index⟩) : index ≤ limit - steps := by
  by_contra hlt
  refine h.not_isValid (limit - index) (by omega) ?_
  rwa [Nat.sub_sub_self hindex]

/-- **The search is short**: the next boundary behind the one where it stops is at most four bytes
    away, and the search starts in front of it. -/
theorem steps_le_three (h : SearchStops text limit steps) (hlimit : limit < text.utf8ByteSize) :
    steps ≤ 3 := by
  obtain ⟨before, after, rfl, hbefore⟩ := String.Pos.Raw.isValid_iff_exists_append.mp h.isValid
  have hsize : limit - steps = before.utf8ByteSize := congrArg String.Pos.Raw.byteIdx hbefore
  cases hafter : after.toList with
  | nil =>
    -- the search starts inside the text, so something follows
    rw [String.toList_eq_nil_iff] at hafter
    rw [hafter, String.append_empty] at hlimit
    omega
  | cons c cs =>
    have hnext : String.Pos.Raw.IsValid (before ++ after) ⟨before.utf8ByteSize + c.utf8Size⟩ := by
      refine String.Pos.Raw.isValid_iff_exists_append.mpr
        ⟨before ++ String.singleton c, String.ofList cs, String.toList_injective ?_, ?_⟩
      · simp [hafter]
      · simp [String.Pos.Raw.ext_iff]
    have hpos := c.utf8Size_pos
    have hfour := c.utf8Size_le_four
    have hsteps := h.steps_le
    by_contra hfar
    have hinside : before.utf8ByteSize + c.utf8Size ≤ limit := by omega
    have hbound := h.le_of_isValid hinside hnext
    omega

end SearchStops

namespace Directive

/-- **Where the search stops** is the boundary that is found. -/
theorem exists_searchStops (text : String) (limit : ℕ) :
    ∃ steps, SearchStops text limit steps ∧
      (boundaryBefore text limit).offset.byteIdx = limit - steps := by
  induction limit with
  | zero => exact ⟨0, ⟨Nat.le_refl 0, String.Pos.Raw.isValid_zero, nofun⟩, rfl⟩
  | succ limit ih =>
    unfold boundaryBefore
    split
    · rename_i hvalid
      exact ⟨0, ⟨Nat.zero_le _, hvalid, nofun⟩, rfl⟩
    · rename_i hnot
      obtain ⟨steps, hstops, hoffset⟩ := ih
      refine ⟨steps + 1, hstops.succ hnot, ?_⟩
      rw [hoffset, Nat.add_sub_add_right]

/-- A text that is cut down ends at the boundary that is found. -/
theorem takeBytes_splits {text : String} {limit : ℕ} (h : limit < text.utf8ByteSize) :
    ∃ rest, text = takeBytes limit text ++ rest ∧
      (takeBytes limit text).utf8ByteSize = (boundaryBefore text limit).offset.byteIdx := by
  have hsplits := (boundaryBefore text limit).splits
  rw [takeBytes, if_pos h]
  exact ⟨_, hsplits.eq_append, (congrArg String.Pos.Raw.byteIdx hsplits.offset_eq_rawEndPos).symm⟩

/-- **A text that is cut down** is the longest beginning that takes no more bytes. -/
theorem longestWithin_takeBytes (limit : ℕ) (text : String) :
    LongestWithin limit text (takeBytes limit text) := by
  by_cases h : limit < text.utf8ByteSize
  · obtain ⟨rest, happend, hsize⟩ := takeBytes_splits h
    obtain ⟨steps, hstops, hoffset⟩ := exists_searchStops text limit
    have hbegins : (takeBytes limit text).toList <+: text.toList := by
      rw [congrArg String.toList happend]
      exact begins_append _ _
    refine ⟨hbegins, ?_, ?_⟩
    · rw [hsize, hoffset]
      exact Nat.sub_le _ _
    · intro other hother hle
      -- every beginning ends at a boundary, so none that fits goes past the one that is found
      refine begins_of_utf8ByteSize_le hother hbegins ?_
      obtain ⟨more, hmore⟩ := exists_eq_append hother
      rw [hsize, hoffset]
      exact hstops.le_of_isValid hle
        (String.Pos.Raw.isValid_iff_exists_append.mpr ⟨other, more, hmore, rfl⟩)
  · rw [takeBytes, if_neg h]
    exact .self (Nat.le_of_not_lt h)

end Directive

end BinaryLog
