import EntityStore.Json.Basic
import EntityStore.Sql.Real

/-! # Database values

What a query computes with: null, 64-bit integers, reals and text.

`Value.compare?` is the order of two values that are not null: numbers by exact value and below
every text, texts byte by byte.  A comparison with null has no answer, so conditions have three
truth values, `Option Bool` with `none` for unknown. -/

namespace EntityStore.Sql

inductive Value
  | null
  | integer (value : Int)
  | real (value : Real)
  | text (chars : List Char)
deriving DecidableEq

/-- A value bound to a placeholder. -/
inductive Param
  | null
  | integer (value : Int)
  | real (value : Binary64)
  | text (value : String)
deriving DecidableEq

namespace Value

/-- The order of two values; none when one of them is null. -/
def compare? : Value → Value → Option Ordering
  | .null, _ | _, .null => none
  | .integer i, .integer j => some (Ord.compare i j)
  | .integer i, .real y => some (y.compareInt i).swap
  | .real x, .integer j => some (x.compareInt j)
  | .real x, .real y => some (x.compare y)
  | .text a, .text b => some (if a = b then .eq else if a < b then .lt else .gt)
  | .text _, _ => some .gt
  | _, .text _ => some .lt

/-- A value as a condition: a number other than zero is true; text counts as zero. -/
def truth : Value → Option Bool
  | .null => none
  | .integer i => some (i ≠ 0)
  | .real (.finite x) => some (!x.isZero)
  | .real (.infinite _) => some true
  | .text _ => some false

/-- A condition as a value. -/
def ofTruth : Option Bool → Value
  | none => .null
  | some true => .integer 1
  | some false => .integer 0

/-- The text of a value; null has none. -/
def toText : Value → Value
  | .null => .null
  | .integer i => .text (Text.integer i)
  | .real x => .text x.text
  | .text cs => .text cs

end Value

namespace Param

/-- A number as it is bound: an integer when it fits 64 bits with sign, otherwise the nearest
double. -/
def ofNumber : Number → Param
  | .integer i => if isSigned64 i then .integer i else .real (.ofInt i)
  | .float x => .real x

/-- A natural number as it is bound; one beyond 64 bits with sign is bound as the largest that
fits. -/
def ofNatural (n : Nat) : Param := .integer (min n (signedBound - 1) : Nat)

def value : Param → Value
  | .null => .null
  | .integer i => .integer i
  | .real x => .real (.finite x)
  | .text s => .text s.toList

end Param
end EntityStore.Sql
