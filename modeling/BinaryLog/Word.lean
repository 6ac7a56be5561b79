namespace BinaryLog

/-!
# Little-endian words

Numbers are stored least significant byte first, in as many bytes as their field has. The main
definitions are

* `Word.toBytes`, the bytes of a number in a field of a given width;
* `Word.ofBytes`, the number that bytes stand for;
* `Word.width`, the fewest bytes that hold a number;
* `Word.capacity`, how many numbers a field of a given width tells apart.
-/

/-- A byte sequence, first byte first. -/
abbrev Bytes := List UInt8

namespace Word

/-- The number that bytes stand for, least significant byte first. -/
def ofBytes : Bytes → Nat
  | [] => 0
  | b :: bs => b.toNat + 256 * ofBytes bs

/-- A number in a field of `width` bytes; what does not fit is dropped from the top. -/
def toBytes : (width value : Nat) → Bytes
  | 0, _ => []
  | width + 1, value => UInt8.ofNat value :: toBytes width (value / 256)

/-- The fewest bytes that hold a number: none for zero. -/
def width (value : Nat) : Nat :=
  if value = 0 then 0 else width (value / 256) + 1

/-- How many numbers a field of the given width tells apart. -/
def capacity : Nat → Nat
  | 0 => 1
  | width + 1 => 256 * capacity width

/-! ### The two directions -/

/-- A field has the bytes of its width, whatever it holds. -/
@[simp] theorem length_toBytes (width value : Nat) : (toBytes width value).length = width := by
  induction width generalizing value with
  | zero => rfl
  | succ width ih => simp [toBytes, ih]

/-- Bytes hold no more than the capacity of a field of as many. -/
theorem ofBytes_lt (bs : Bytes) : ofBytes bs < capacity bs.length := by
  induction bs with
  | nil => simp [ofBytes, capacity]
  | cons b bs ih =>
    have hb : b.toNat < 256 := b.toNat_lt
    simp only [ofBytes, List.length_cons, capacity]
    omega

/-- A field keeps its number modulo what it can hold. -/
theorem ofBytes_toBytes (width value : Nat) :
    ofBytes (toBytes width value) = value % capacity width := by
  induction width generalizing value with
  | zero => simp [toBytes, ofBytes, capacity, Nat.mod_one]
  | succ width ih =>
    simp only [toBytes, ofBytes, capacity, ih, UInt8.toNat_ofNat']
    rw [Nat.mod_mul]

/-- **Fields are unique.** Bytes are written again by the number that they hold. -/
theorem toBytes_ofBytes (bs : Bytes) : toBytes bs.length (ofBytes bs) = bs := by
  induction bs with
  | nil => rfl
  | cons b bs ih =>
    have hb : b.toNat < 256 := b.toNat_lt
    have hlow : UInt8.ofNat (b.toNat + 256 * ofBytes bs) = b := by
      apply UInt8.toNat_inj.mp
      simp only [UInt8.toNat_ofNat']
      omega
    have hhigh : (b.toNat + 256 * ofBytes bs) / 256 = ofBytes bs := by omega
    simp only [List.length_cons, ofBytes, toBytes, hlow, hhigh, ih]

/-- The fewest bytes are enough. -/
theorem lt_of_width (value : Nat) : value < capacity (width value) := by
  fun_induction width value with
  | case1 => simp [capacity]
  | case2 value h ih =>
    rw [capacity]
    omega

end Word

end BinaryLog
