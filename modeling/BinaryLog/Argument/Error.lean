namespace BinaryLog

/-!
# Argument lists that a format does not take

Why a list of arguments can be neither packed nor printed under a format.
-/

/-- What is wrong with an argument list. -/
inductive ArgumentError where
  /-- The format takes `expected` arguments and was given `got`. -/
  | count (expected got : Nat)
  /-- The argument at `index` has a kind that its conversion does not take. -/
  | kind (index : Nat) (conversion : Char)
  /-- The text at `index` holds a NUL, which would end it early. -/
  | interiorNul (index : Nat)
deriving DecidableEq

/-- The wording of an argument error. -/
def ArgumentError.message : ArgumentError → String
  | .count expected got => s!"format takes {expected} arguments, got {got}"
  | .kind index conversion => s!"argument {index} does not match conversion '%{conversion}'"
  | .interiorNul index => s!"string argument {index} contains a NUL byte"

end BinaryLog
