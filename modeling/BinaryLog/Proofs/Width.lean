import BinaryLog.Word

namespace BinaryLog.Word

/-!
# How many bytes a number takes

`Word.width` is the least width whose field holds a number, so everything about it follows from one
equivalence with `Word.capacity`:

* `width_le_iff`, a field holds a number exactly if it is no narrower than the number's width;
* `width_add_le`, a sum takes no more bytes than its summands together;
* `ofBytes_toBytes_of_lt`, a field that holds a number gives it back.
-/

/-! ### Capacities -/

theorem capacity_pos (width : Nat) : 0 < capacity width := by
  induction width with
  | zero => decide
  | succ width ih =>
    rw [capacity]
    omega

/-- A field of two parts tells apart as many numbers as the parts do together. -/
theorem capacity_add (m n : Nat) : capacity (m + n) = capacity m * capacity n := by
  induction m with
  | zero => rw [Nat.zero_add, capacity, Nat.one_mul]
  | succ m ih => rw [Nat.succ_add, capacity, capacity, ih, Nat.mul_assoc]

theorem capacity_mono {m n : Nat} (h : m ≤ n) : capacity m ≤ capacity n := by
  obtain ⟨k, rfl⟩ := Nat.exists_eq_add_of_le h
  rw [capacity_add]
  exact Nat.le_mul_of_pos_right _ (capacity_pos k)

/-! ### Widths -/

/-- **The least width.** A field holds a number exactly if it has at least `width value` bytes. -/
theorem width_le_iff {value w : Nat} : width value ≤ w ↔ value < capacity w := by
  constructor
  · intro h
    exact Nat.lt_of_lt_of_le (lt_of_width value) (capacity_mono h)
  · intro h
    fun_induction width value generalizing w with
    | case1 => exact Nat.zero_le w
    | case2 value hne ih =>
      cases w with
      | zero =>
        rw [capacity] at h
        omega
      | succ w =>
        rw [capacity] at h
        exact Nat.succ_le_succ (ih (by omega))

/-- A sum takes no more bytes than its summands together. -/
theorem width_add_le (a b : Nat) : width (a + b) ≤ width a + width b := by
  rw [width_le_iff, capacity_add]
  -- `a ≤ A` and `b ≤ B` give `a + b ≤ A + B ≤ A * B + A + B < (A + 1) * (B + 1)`.
  obtain ⟨A, hA⟩ := Nat.exists_eq_succ_of_ne_zero (Nat.ne_of_gt (capacity_pos (width a)))
  obtain ⟨B, hB⟩ := Nat.exists_eq_succ_of_ne_zero (Nat.ne_of_gt (capacity_pos (width b)))
  have ha := lt_of_width a
  have hb := lt_of_width b
  rw [hA] at ha ⊢
  rw [hB] at hb ⊢
  rw [Nat.succ_mul, Nat.mul_succ]
  omega

/-! ### Reading fields back -/

/-- A field that holds a number gives it back. -/
theorem ofBytes_toBytes_of_lt {width value : Nat} (h : value < capacity width) :
    ofBytes (toBytes width value) = value := by
  rw [ofBytes_toBytes, Nat.mod_eq_of_lt h]

/-- Eight bytes hold every word of 64 bits. -/
theorem toNat_lt_capacity (n : UInt64) : n.toNat < capacity 8 := n.toNat_lt

theorem width_toNat_le (n : UInt64) : width n.toNat ≤ 8 := width_le_iff.mpr (toNat_lt_capacity n)

end BinaryLog.Word
