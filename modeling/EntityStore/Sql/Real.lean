import EntityStore.Binary64.Decimal
import EntityStore.Binary64.Wide

/-! # Reals of the database

A real is a double or an infinity, which the spelling of a number can overflow to.  The database
reads and writes reals with numbers of sixty-four bits in between (`Wide`), so both ways are close to
the exact value and not always the closest: the numeral `-6.793921531704187`, which is the shortest
one for its double, is read as the double above it in size.

`Real.ofNumeral` reads a numeral and `Real.text` writes a real with fifteen digits. -/

namespace EntityStore

/-! ### Reading -/

namespace Numeral

/-- A significand from here on takes no more digits. -/
def digitLimit : Nat := (unsignedBound - 1 - 9) / 10

/-- Take in a digit before the point: those that find no room count as places. -/
def takeWhole (taken : Nat × Int) (c : Char) : Nat × Int :=
  if taken.1 < digitLimit then (10 * taken.1 + Text.digitValue c, taken.2)
  else (taken.1, taken.2 + 1)

/-- Take in a digit after the point: those that find no room are left out. -/
def takeFraction (taken : Nat × Int) (c : Char) : Nat × Int :=
  if taken.1 < digitLimit then (10 * taken.1 + Text.digitValue c, taken.2 - 1) else taken

/-- The exponent as it is read, which never gets beyond five digits. -/
def cappedExponent (n : Numeral) : Int :=
  match n.exponent with
  | none => 0
  | some (_, sign, ds) =>
    let size := ds.foldl (fun e c => if e < 10000 then 10 * e + Text.digitValue c else 10000) 0
    if sign = some '-' then -(size : Int) else size

/-- The first digits of a numeral, as many as sixty-four bits hold, and their power of ten. -/
def scaled (n : Numeral) : Nat × Int :=
  let taken := (n.fraction.getD []).foldl takeFraction (n.whole.foldl takeWhole (0, 0))
  (taken.1, n.cappedExponent + taken.2)

end Numeral

namespace Sql

/-- A real number of the database. -/
inductive Real
  | finite (value : Binary64)
  | infinite (negative : Bool)
deriving DecidableEq

namespace Real

/-- Move places into the significand while it has room for them. -/
def fill : Nat → Nat → Nat × Nat
  | 0, s => (s, 0)
  | places + 1, s => if s < (unsignedBound - 1) / 10 then fill places (10 * s) else (s, places + 1)

/-- Move zeros at the end of the significand into the places that are to be taken off. -/
def strip : Nat → Nat → Nat × Nat
  | 0, s => (s, 0)
  | places + 1, s => if s % 10 = 0 then strip places (s / 10) else (s, places + 1)

/-- The significand and the power of ten with as little of the power left as possible. -/
def settle (s : Nat) (power : Int) : Nat × Int :=
  if 0 ≤ power then
    let (s, places) := fill power.toNat s
    (s, places)
  else
    let (s, places) := strip (-power).toNat s
    (s, -(places : Int))

/-- The real that the engine computes for `s * 10 ^ power`; too large a number is infinite. -/
def ofScaled (negative : Bool) (s : Nat) (power : Int) : Real :=
  if s = 0 then .finite { Binary64.zero with negative := negative }
  else
    let (s, power) := settle s power
    match ((Wide.ofNat s).scale power).toBinary? negative with
    | some x => .finite x
    | none => .infinite negative

/-- The real that a numeral is read as. -/
def ofNumeral (n : Numeral) : Real := ofScaled n.negative n.scaled.1 n.scaled.2

/-! ### Comparing -/

def compare : Real → Real → Ordering
  | .finite x, .finite y => x.compare y
  | .infinite a, .infinite b => Ord.compare b.toNat a.toNat
  | .infinite negative, .finite _ => if negative then .lt else .gt
  | .finite _, .infinite negative => if negative then .gt else .lt

def compareInt (x : Real) (i : Int) : Ordering :=
  match x with
  | .finite x => x.compareInt i
  | .infinite negative => if negative then .lt else .gt

end Real
end Sql

/-! ### Writing -/

namespace Binary64

/-- Multiply by the factor as long as the number is to be moved on; each turn moves the point by
`places`.  Doubles need eleven turns at most. -/
def turn (further : Wide → Bool) (factor : Wide) (places : Int) : Nat → Wide × Int → Wide × Int
  | 0, a => a
  | fuel + 1, (a, power) =>
    if further a then turn further factor places fuel (a.mul factor, power + places) else (a, power)

/-- The absolute value of a double brought between `10 ^ 17` and `10 ^ 19`, and the power of ten
that it is to be multiplied with. -/
def leading (x : Binary64) : Wide × Int :=
  let a := Wide.ofBinary x
  let power (k : Nat) : Wide := .ofNat (Nat.pow 10 k)
  let inverse (k : Nat) : Wide := .inverse (Nat.pow 10 k)
  if a.lt (power 19) then
    let up (bound : Wide) (step : Nat) := turn (·.lt bound) (power step) (-(step : Int)) 12
    up (power 17) 1 (up (power 7) 10 (up (inverse 97) 100 (a, 0)))
  else
    let down (bound step : Nat) := turn (!·.lt (power bound)) (inverse step) step 12
    down 19 1 (down 29 10 (down 119 100 (a, 0)))

/-- How many digits the database shows of a real. -/
def columnDigits : Nat := 15

/-- The digits that the database shows of a double, a half rounded up. -/
def columnDecimal (x : Binary64) : Decimal :=
  if x.isZero then .zero
  else
    let (a, power) := x.leading
    let spare := (Text.natural a.floor).length - columnDigits
    .ofScaled ((2 * a.floor / Nat.pow 10 spare + 1) / 2) (power + spare)

/-- The text of a real column; both zeros read `0.0`. -/
def columnText (x : Binary64) : List Char :=
  (x.columnDecimal.columnNumeral (x.negative && !x.isZero)).text

end Binary64

/-- The text of a real; infinities are words. -/
def Sql.Real.text : Sql.Real → List Char
  | .finite x => x.columnText
  | .infinite false => ['I', 'n', 'f']
  | .infinite true => ['-', 'I', 'n', 'f']

end EntityStore
