namespace BinaryLog

/-!
# Format ids

A message names its format by a number of 32 bits. A log stores the step from one message's id to
the next, and steps wrap around, so every id is reachable from every other by exactly one step.
-/

/-- The number under which a message format is known. -/
structure FormatId where
  val : UInt32
deriving DecidableEq, Inhabited

namespace FormatId

/-- The id that lies `delta` steps ahead, wrapping around after the last one. -/
def shift (id : FormatId) (delta : UInt32) : FormatId := ⟨id.val + delta⟩

/-- The steps from one id ahead to another. -/
def deltaTo (id target : FormatId) : UInt32 := target.val - id.val

/-- Deltas wrap around, so that every id can be reached from every other. -/
@[simp] theorem shift_deltaTo (id target : FormatId) : id.shift (id.deltaTo target) = target := by
  cases target
  simp only [shift, deltaTo, mk.injEq]
  rw [UInt32.add_comm, UInt32.sub_add_cancel]

/-- Each id is reached by one delta only. -/
@[simp] theorem deltaTo_shift (id : FormatId) (delta : UInt32) :
    id.deltaTo (id.shift delta) = delta := by
  simp only [shift, deltaTo]
  rw [UInt32.add_comm, UInt32.add_sub_cancel]

/-- Ids are written as plain decimal numbers. -/
def text (id : FormatId) : String := toString id.val.toNat

instance : ToString FormatId := ⟨text⟩

end FormatId

end BinaryLog
