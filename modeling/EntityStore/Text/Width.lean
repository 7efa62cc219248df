/-! # Widths of integers

How many values an integer of 64 bits can have, without and with a sign, and one of 32 bits.  Numbers
in requests, documents, settings and columns are held to these ranges. -/

namespace EntityStore

/-- Unsigned integers of 64 bits are below this. -/
def unsignedBound : Nat := 0x10000000000000000

/-- Unsigned integers of 32 bits are below this. -/
def halfBound : Nat := 0x100000000

/-- Signed integers of 64 bits are below this, and their negatives not above it. -/
def signedBound : Nat := 0x8000000000000000

/-- A signed integer of 64 bits. -/
def isSigned64 (i : Int) : Bool := -(signedBound : Int) ≤ i && i < signedBound

example : unsignedBound = 2 * signedBound := rfl

example : unsignedBound = halfBound * halfBound := rfl

/-- The integer with that sign and magnitude, if it is a signed one of 64 bits. -/
def signed64? (negative : Bool) (magnitude : Nat) : Option Int :=
  if negative then if magnitude ≤ signedBound then some (-magnitude) else none
  else if magnitude < signedBound then some magnitude else none

end EntityStore
