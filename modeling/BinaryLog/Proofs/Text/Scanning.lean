namespace BinaryLog

/-!
# Scanning for the end of a class of characters

`Stops accepts cs` says that no character of a class stands at the front of `cs`. What is taken of a
text while its characters are of the class, and what is dropped, then ends right before `cs`.
-/

variable {accepts : Char → Bool} {xs ys : List Char}

/-- No character of a class stands at the front. -/
def Stops (accepts : Char → Bool) (cs : List Char) : Prop := ∀ c ∈ cs.head?, accepts c = false

/-- What stops in front stops; where nothing is in front, what follows has to. -/
theorem Stops.append (h : Stops accepts xs) (h' : xs = [] → Stops accepts ys) :
    Stops accepts (xs ++ ys) := by
  cases xs with
  | nil => exact h' rfl
  | cons x xs => exact h

/-- **Scanning ends** where the accepted characters end. -/
theorem Stops.takeWhile (h : Stops accepts ys) (hxs : ∀ c ∈ xs, accepts c = true) :
    (xs ++ ys).takeWhile accepts = xs := by
  rw [List.takeWhile_append_of_pos hxs]
  cases ys with
  | nil => exact List.append_nil xs
  | cons c cs => rw [List.takeWhile_cons_of_neg (by simp [h c rfl]), List.append_nil]

/-- What is left is what it stopped in front of. -/
theorem Stops.dropWhile (h : Stops accepts ys) (hxs : ∀ c ∈ xs, accepts c = true) :
    (xs ++ ys).dropWhile accepts = ys := by
  rw [List.dropWhile_append_of_pos hxs]
  cases ys with
  | nil => rfl
  | cons c cs => exact List.dropWhile_cons_of_neg (by simp [h c rfl])

/-- A text that stops does not begin with an accepted character. -/
theorem Stops.ne_cons {c : Char} (h : Stops accepts xs) (hc : accepts c = true)
    (tail : List Char) : xs ≠ c :: tail := by
  rintro rfl
  rw [h c rfl] at hc
  cases hc

/-- A text without accepted characters stops at once. -/
theorem stops_of_forall (h : ∀ c ∈ xs, accepts c = false) : Stops accepts xs :=
  fun c hc => h c (List.mem_of_mem_head? hc)

end BinaryLog
