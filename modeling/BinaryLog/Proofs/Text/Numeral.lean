import BinaryLog.Text.Numeral
import Mathlib.Data.List.Basic
import Mathlib.Data.List.Induction
import Mathlib.Tactic.Ring

namespace BinaryLog.Numeral

/-!
# Reading numerals

* `value`, the number that digits stand for in a base;
* `Spells`, the numeral of a number: digits of one case, without zeros in front;
* `spells_chars` and `spells_upperChars`, the numerals that are written are those;
* `value_zeros_append`, zeros in front do not change the number;
* `value_lt` and `le_value`, how many digits a number has;
* `readInt?_ofInt`, integers are read back from their numerals.
-/

/-- The digits of the bases up to sixteen, in order. -/
def alphabet (upper : Bool) : List Char :=
  (if upper then "0123456789ABCDEF" else "0123456789abcdef").toList

/-- The value of a digit of either case. -/
def digitValue (c : Char) : Nat := (alphabet false).idxOf c.toLower

/-- The number that digits stand for. No digits stand for zero. -/
def value (base : Nat) (cs : List Char) : Nat :=
  cs.foldl (fun n c => base * n + digitValue c) 0

/-- The digits are the numeral of `n`, which begins with a zero only if it is one. -/
structure Spells (base : Nat) (upper : Bool) (n : Nat) (cs : List Char) : Prop where
  digits : ∀ c ∈ cs, c ∈ (alphabet upper).take base
  nonempty : cs ≠ []
  shortest : cs.head? = some '0' → cs = ['0']
  value_eq : value base cs = n

variable {base n : Nat} {upper : Bool} {cs : List Char}

/-! ### Values -/

/-- The last digit counts once, and those before it count for the base as often. -/
theorem value_append_singleton (base : Nat) (cs : List Char) (c : Char) :
    value base (cs ++ [c]) = base * value base cs + digitValue c := by
  rw [value, List.foldl_append]
  rfl

theorem value_singleton (base : Nat) (c : Char) : value base [c] = digitValue c := by
  simp [value]

/-- **Zeros in front** do not change the number. -/
theorem value_zeros_append (base least : Nat) (cs : List Char) :
    value base (List.replicate least '0' ++ cs) = value base cs := by
  induction least with
  | zero => rfl
  | succ least ih =>
    rw [List.replicate_succ, List.cons_append, value, List.foldl_cons]
    exact ih

/-- The digits behind others count less. -/
theorem value_append (base : Nat) (cs ds : List Char) :
    value base (cs ++ ds) = value base cs * base ^ ds.length + value base ds := by
  induction ds using List.reverseRecOn with
  | nil => simp [value]
  | append_singleton ds d ih =>
    rw [← List.append_assoc, value_append_singleton, ih, value_append_singleton,
      List.length_append, List.length_singleton, Nat.pow_succ]
    ring

theorem value_zeros (base count : Nat) : value base (List.replicate count '0') = 0 := by
  rw [← List.append_nil (List.replicate count '0'), value_zeros_append]
  rfl

theorem extend_eq (least : Nat) (cs : List Char) :
    extend least cs = List.replicate (least - cs.length) '0' ++ cs := rfl

/-! ### Numerals -/

/-- The digits of a base are those that stand at the places below it. -/
theorem mem_take_alphabet_iff {c : Char} : c ∈ (alphabet upper).take base ↔
    ∃ i < base, (alphabet upper)[i]? = some c := by
  simp only [List.mem_iff_getElem?, List.getElem?_take, Option.ite_none_right_eq_some]

/-- The digits of both cases stand at the places of their values. -/
theorem digitValue_of_getElem? {c : Char} (h : (alphabet upper)[n]? = some c) :
    digitValue c = n := by
  -- sixteen digits of two cases are few enough to be tried
  have hvalue : ∀ upper, ∀ n < 16, (alphabet upper)[n]?.map digitValue = some n := by decide
  have hn : n < 16 := by
    have hlength : (alphabet upper).length = 16 := by cases upper <;> rfl
    exact hlength ▸ (List.getElem?_eq_some_iff.mp h).1
  have hmap := hvalue upper n hn
  rw [h] at hmap
  exact Option.some.inj hmap

/-- The core library's digits are the ones of lower case. -/
theorem getElem?_digitChar (hn : n < 16) : (alphabet false)[n]? = some n.digitChar := by
  revert n
  decide

/-- A numeral is a digit, or the numeral of the quotient with the digit of the remainder behind it.
    -/
theorem chars_eq_if (hbase : 1 < base) : chars base n =
    if n < base then [n.digitChar] else chars base (n / base) ++ [(n % base).digitChar] :=
  Nat.toDigits_eq_if hbase

/-- A number above zero has no zero in front. -/
theorem Spells.head?_ne_zero (h : Spells base upper n cs) (hn : n ≠ 0) : cs.head? ≠ some '0' := by
  intro hhead
  have hzero := h.value_eq
  rw [h.shortest hhead] at hzero
  exact hn hzero.symm

/-- A number below the base is spelled by its digit, also where that is a zero. -/
theorem spells_digit (hn : n < base) (hbase : base ≤ 16) : Spells base false n [n.digitChar] where
  digits c hc := by
    rw [List.mem_singleton.mp hc]
    exact mem_take_alphabet_iff.mpr ⟨n, hn, getElem?_digitChar (Nat.lt_of_lt_of_le hn hbase)⟩
  nonempty := List.cons_ne_nil _ _
  shortest hhead := by rw [Option.some.inj hhead]
  value_eq := by
    rw [value_singleton]
    exact digitValue_of_getElem? (getElem?_digitChar (Nat.lt_of_lt_of_le hn hbase))

/-- A digit behind the numeral of a number above zero makes another numeral. -/
theorem Spells.append_digit {d : Nat} (h : Spells base false n cs) (hn : n ≠ 0) (hd : d < base)
    (hbase : base ≤ 16) : Spells base false (base * n + d) (cs ++ [d.digitChar]) where
  digits c hc := by
    obtain hc | hc := List.mem_append.mp hc
    · exact h.digits c hc
    · exact (spells_digit hd hbase).digits c hc
  nonempty := by simp
  shortest hhead := by
    rw [List.head?_append_of_ne_nil _ h.nonempty] at hhead
    exact absurd hhead (h.head?_ne_zero hn)
  value_eq := by
    rw [value_append_singleton, h.value_eq, ← value_singleton base,
      (spells_digit hd hbase).value_eq]

/-- **The numeral that is written** is the shortest one. -/
theorem spells_chars (hbase : 1 < base) (hbase' : base ≤ 16) (n : Nat) :
    Spells base false n (chars base n) := by
  -- all digits but the last spell the quotient, which is a smaller number
  induction n using Nat.strongRecOn with
  | ind n ih =>
  rw [chars_eq_if hbase]
  split
  · rename_i hn
    exact spells_digit hn hbase'
  · rename_i hn
    have hpos : 0 < n / base := Nat.div_pos (by omega) (by omega)
    have hfront := ih (n / base) (Nat.div_lt_self (by omega) hbase)
    have hall := hfront.append_digit (Nat.ne_of_gt hpos) (Nat.mod_lt n (by omega)) hbase'
    rwa [Nat.div_add_mod] at hall

/-- Zero is the only digit of value zero. -/
theorem eq_zero_of_digitValue {c : Char} (hc : c ∈ (alphabet upper).take base)
    (hzero : digitValue c = 0) : c = '0' := by
  obtain ⟨n, -, hget⟩ := mem_take_alphabet_iff.mp hc
  obtain rfl : 0 = n := by rw [← digitValue_of_getElem? hget, hzero]
  cases upper <;> cases hget <;> rfl

/-- A digit keeps its place and its value in upper case. -/
theorem toUpper_of_mem_take {c : Char} (hc : c ∈ (alphabet false).take base) :
    c.toUpper ∈ (alphabet true).take base ∧ digitValue c.toUpper = digitValue c := by
  obtain ⟨n, hn, hget⟩ := mem_take_alphabet_iff.mp hc
  have hupper : (alphabet true)[n]? = some c.toUpper := by
    rw [show alphabet true = (alphabet false).map Char.toUpper by rfl, List.getElem?_map, hget]
    rfl
  refine ⟨mem_take_alphabet_iff.mpr ⟨n, hn, hupper⟩, ?_⟩
  rw [digitValue_of_getElem? hupper, digitValue_of_getElem? hget]

/-- A numeral in upper case spells the same number. -/
theorem Spells.map_toUpper (h : Spells base false n cs) :
    Spells base true n (cs.map Char.toUpper) where
  digits c hc := by
    obtain ⟨c, hmem, rfl⟩ := List.mem_map.mp hc
    exact (toUpper_of_mem_take (h.digits c hmem)).1
  nonempty := by simpa using h.nonempty
  shortest hhead := by
    obtain ⟨c, hc, hupper⟩ := Option.map_eq_some_iff.mp (List.head?_map ▸ hhead)
    have hmem := h.digits c (List.mem_of_mem_head? hc)
    have hzero : digitValue c = 0 := by rw [← (toUpper_of_mem_take hmem).2, hupper]; rfl
    rw [h.shortest (eq_zero_of_digitValue hmem hzero ▸ hc)]
    rfl
  value_eq := by
    rw [value, List.foldl_map, ← h.value_eq, value]
    refine List.foldl_ext _ _ _ fun n c hc => ?_
    rw [(toUpper_of_mem_take (h.digits c hc)).2]

/-- So is the one that is written in upper case. -/
theorem spells_upperChars (hbase : 1 < base) (hbase' : base ≤ 16) (n : Nat) :
    Spells base true n (upperChars base n) := (spells_chars hbase hbase' n).map_toUpper

/-! ### The number of digits -/

theorem digitValue_lt {c : Char} (hc : c ∈ (alphabet upper).take base) : digitValue c < base := by
  obtain ⟨n, hn, hget⟩ := mem_take_alphabet_iff.mp hc
  rwa [digitValue_of_getElem? hget]

/-- A number is below the power that its digits count up to. -/
theorem value_lt (h : ∀ c ∈ cs, c ∈ (alphabet upper).take base) :
    value base cs < base ^ cs.length := by
  induction cs using List.reverseRecOn with
  | nil => exact Nat.one_pos
  | append_singleton cs c ih =>
    have hfront := ih fun d hd => h d (List.mem_append_left _ hd)
    have hlast : digitValue c < base := digitValue_lt (h c (by simp))
    rw [value_append_singleton, List.length_append, List.length_singleton, Nat.pow_succ]
    calc base * value base cs + digitValue c
        < base * value base cs + base := Nat.add_lt_add_left hlast _
      _ = (value base cs + 1) * base := by ring
      _ ≤ base ^ cs.length * base := Nat.mul_le_mul_right base hfront

/-- Without a zero in front, a number reaches the power of its first digit. -/
theorem le_value (h : ∀ c ∈ cs, c ∈ (alphabet upper).take base) (hne : cs ≠ [])
    (hhead : cs.head? ≠ some '0') : base ^ (cs.length - 1) ≤ value base cs := by
  obtain ⟨c, cs, rfl⟩ := List.exists_cons_of_ne_nil hne
  -- the first digit is no zero, so it counts its power of the base at least once
  have hpos : 0 < digitValue c := by
    apply Nat.pos_of_ne_zero
    intro hzero
    exact hhead (congrArg some (eq_zero_of_digitValue (h c List.mem_cons_self) hzero))
  rw [← List.singleton_append, value_append, value_singleton, List.length_append,
    List.length_singleton, Nat.add_sub_cancel_left]
  calc base ^ cs.length ≤ digitValue c * base ^ cs.length := Nat.le_mul_of_pos_left _ hpos
    _ ≤ _ := Nat.le_add_right _ _

/-- **The digits of a number** between two powers of the base, without zeros in front. -/
theorem length_eq_of_value (hbase : 1 < base) (h : ∀ c ∈ cs, c ∈ (alphabet upper).take base)
    (hhead : cs.head? ≠ some '0') {k : Nat} (hle : base ^ k ≤ value base cs)
    (hlt : value base cs < base ^ (k + 1)) : cs.length = k + 1 := by
  have hne : cs ≠ [] := by
    rintro rfl
    exact absurd hle (Nat.not_le.mpr (Nat.pow_pos (Nat.zero_lt_of_lt hbase)))
  have hmore : k < cs.length :=
    (Nat.pow_lt_pow_iff_right hbase).mp (Nat.lt_of_le_of_lt hle (value_lt h))
  have hless : cs.length - 1 < k + 1 :=
    (Nat.pow_lt_pow_iff_right hbase).mp (Nat.lt_of_le_of_lt (le_value h hne hhead) hlt)
  omega

/-- A numeral is long enough for its number. -/
theorem Spells.lt_pow (h : Spells base upper n cs) : n < base ^ cs.length :=
  h.value_eq ▸ value_lt h.digits

/-- A numeral is no longer than its number needs. -/
theorem Spells.pow_le (h : Spells base upper n cs) (hn : n ≠ 0) : base ^ (cs.length - 1) ≤ n :=
  h.value_eq ▸ le_value h.digits h.nonempty (h.head?_ne_zero hn)

/-! ### Zero -/

/-- More digits never make a number smaller. -/
theorem le_foldl_digits (hbase : 0 < base) (cs : List Char) (n : Nat) :
    n ≤ cs.foldl (fun n c => base * n + digitValue c) n := by
  -- the number read so far only grows, whatever it was
  induction cs generalizing n with
  | nil => exact Nat.le_refl n
  | cons c cs ih =>
    calc n ≤ base * n := Nat.le_mul_of_pos_left n hbase
      _ ≤ base * n + digitValue c := Nat.le_add_right _ _
      _ ≤ _ := ih _

/-- Only the numeral of zero is a zero. -/
theorem Spells.eq_zero_iff (h : Spells base upper n cs) : cs = ['0'] ↔ n = 0 := by
  constructor
  · rintro rfl
    exact h.value_eq.symm
  · rintro rfl
    cases hcs : cs with
    | nil => exact absurd hcs h.nonempty
    | cons c tail =>
      have hmem := h.digits c (by simp [hcs])
      have hbase : 0 < base := Nat.pos_of_ne_zero (by rintro rfl; simp at hmem)
      have hvalue := h.value_eq
      rw [hcs, value, List.foldl_cons] at hvalue
      -- were the first digit above zero, so would the number be
      have hle := le_foldl_digits hbase tail (base * 0 + digitValue c)
      have hc : c = '0' := eq_zero_of_digitValue hmem (by omega)
      rw [← hcs]
      exact h.shortest (by rw [hcs, hc]; rfl)

/-! ### Integers -/

theorem isDigit_of_mem_chars {c : Char} (h : c ∈ chars 10 n) : c.isDigit = true :=
  Nat.isDigit_of_mem_toDigits (by decide) (by decide) h

/-- Digits have no sign in front. -/
theorem splitSign_of_isDigit (h : ∀ c ∈ cs, c.isDigit = true) : splitSign cs = (false, cs) := by
  unfold splitSign
  split
  · exact absurd (h '-' List.mem_cons_self) (by decide)
  · exact absurd (h '+' List.mem_cons_self) (by decide)
  · rfl

/-- The sign that is written is split off again, and the digits are left. -/
theorem splitSign_ofInt (i : Int) : splitSign (ofInt i) = (decide (i < 0), chars 10 i.natAbs) := by
  unfold ofInt
  split
  · rename_i hneg
    rw [decide_eq_true hneg]
    rfl
  · rename_i hpos
    rw [decide_eq_false hpos, List.nil_append, splitSign_of_isDigit fun c => isDigit_of_mem_chars]

/-- **An integer is read back** from its numeral. -/
theorem readInt?_ofInt (i : Int) : readInt? (ofInt i) = some i := by
  have hne : (chars 10 i.natAbs).isEmpty = false :=
    List.isEmpty_eq_false_iff.mpr (spells_chars (by decide) (by decide) i.natAbs).nonempty
  have hdigits : (chars 10 i.natAbs).all Char.isDigit = true :=
    List.all_eq_true.mpr fun c => isDigit_of_mem_chars
  have hvalue : Nat.ofDigitChars 10 (chars 10 i.natAbs) 0 = i.natAbs :=
    Nat.ofDigitChars_toDigits (by decide) (by decide)
  rw [readInt?, splitSign_ofInt]
  simp only [hne, hdigits, hvalue, Bool.not_true, Bool.or_false, Bool.false_eq_true, if_false,
    decide_eq_true_eq, Option.some.injEq]
  omega

/-- So is one of 32 bits where no other is expected. -/
theorem readInt32?_ofInt {i : Int} (hle : -0x80000000 ≤ i) (hlt : i < 0x80000000) :
    readInt32? (ofInt i) = some i := by
  rw [readInt32?, readInt?_ofInt, Option.filter_some, if_pos (by simp [hle, hlt])]

end BinaryLog.Numeral
