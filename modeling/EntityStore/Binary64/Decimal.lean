import EntityStore.Binary64.Basic
import EntityStore.Text.Numeral

/-! # Doubles as decimals

`Decimal` is a run of significant digits and the place of its point.  `shortest` are the fewest
digits that round back to a double.

Three layouts write a decimal: `jsonNumeral` (positional for moderate exponents, otherwise
scientific), `plainText` (always positional, no point for integers) and `columnNumeral` (the form in
which the database shows a real number). -/

namespace EntityStore

/-- The number `0.d₁d₂…` times ten to the power `point`.  Zero is the single digit `0` with the
point after it. -/
structure Decimal where
  digits : List Char
  point : Int
deriving DecidableEq

namespace Decimal

def zero : Decimal := ⟨['0'], 1⟩

/-- Remove the zeros at the end, which carry no value; at least one digit stays. -/
def dropTrailingZeros (ds : List Char) : List Char :=
  match (ds.reverse.dropWhile (· == '0')).reverse with
  | [] => ['0']
  | ds => ds

/-- The decimal `n * 10 ^ exponent`. -/
def ofScaled (n : Nat) (exponent : Int) : Decimal :=
  if n = 0 then zero
  else
    let ds := Text.natural n
    ⟨dropTrailingZeros ds, ds.length + exponent⟩

end Decimal

namespace Binary64

/-! ### Shortest digits -/

/-- The exponent `k` with `10 ^ (k - 1) ≤ num / den < 10 ^ k`, for a positive quotient. -/
def decimalLead (num den : Nat) : Int :=
  let k := (((num.log2 : Int) - den.log2 - 1) * 30103).fdiv 100000
  let above (k : Int) : Bool :=
    if 0 ≤ k then decide (den * Nat.pow 10 k.toNat ≤ num) else decide (den ≤ num * Nat.pow 10 (-k).toNat)
  if above (k + 2) then k + 3 else if above (k + 1) then k + 2 else if above k then k + 1 else k

/-- `n * 10 ^ exponent` rounds to the absolute value of `x`. -/
def readsBack (x : Binary64) (exponent : Int) (n : Nat) : Bool :=
  (ofDecimal? false n exponent).any (fun y => y.magnitude == x.magnitude)

/-- The multiple of `10 ^ exponent` that rounds to `x`, sought below and above its value; of two
the nearer one, and the even one when both are as near. -/
def multiple? (x : Binary64) (exponent : Int) : Option Nat :=
  let (num, den) := x.ratio
  let unit := if 0 ≤ exponent then den * Nat.pow 10 exponent.toNat else den
  let scaled := if 0 ≤ exponent then num else num * Nat.pow 10 (-exponent).toNat
  let below := scaled / unit
  let downGap := scaled % unit
  let upGap := unit - downGap
  if x.readsBack exponent below then
    if x.readsBack exponent (below + 1) && (upGap < downGap || (upGap == downGap && below % 2 == 1))
    then some (below + 1) else some below
  else if x.readsBack exponent (below + 1) then some (below + 1) else none

/-- The coarsest grid from `count` digits on that has a multiple rounding back to `x`; beyond the
last grid the exact value. -/
def shortestFrom (x : Binary64) (lead : Int) : Nat → Nat → Decimal
  | 0, _ =>
    if 0 ≤ x.exponent then .ofScaled (x.significand * Nat.pow 2 x.exponent.toNat) 0
    else .ofScaled (x.significand * Nat.pow 5 (-x.exponent).toNat) x.exponent
  | fuel + 1, count =>
    match x.multiple? (lead - count) with
    | some n => .ofScaled n (lead - count)
    | none => shortestFrom x lead fuel (count + 1)

/-- The fewest digits that round back to the absolute value of `x`, and of those the nearest.
Seventeen digits always suffice. -/
def shortest (x : Binary64) : Decimal :=
  if x.isZero then .zero
  else x.shortestFrom (decimalLead x.ratio.1 x.ratio.2) 17 1

end Binary64

/-! ### Layouts -/

namespace Decimal

/-- Positional digits, with zeros filled in up to the point: whole part and fraction. -/
def positional (d : Decimal) : List Char × List Char :=
  if d.point ≤ 0 then (['0'], List.replicate (-d.point).toNat '0' ++ d.digits)
  else
    let n := d.point.toNat
    (d.digits.take n ++ List.replicate (n - d.digits.length) '0', d.digits.drop n)

/-- Positional text without exponent; an integer has no point. -/
def plainText (d : Decimal) : List Char :=
  match d.positional with
  | (whole, []) => whole
  | (whole, fraction) => whole ++ '.' :: fraction

/-- Positional, with at least one digit after the point. -/
def pointNumeral (d : Decimal) (negative : Bool) : Numeral :=
  match d.positional with
  | (whole, []) => ⟨negative, whole, some ['0'], none⟩
  | (whole, fraction) => ⟨negative, whole, some fraction, none⟩

/-- The layout of a float in JSON text: positional with a point while the leading digit stands
between the places `10⁻⁵` and `10¹⁵`, otherwise scientific with a signed exponent. -/
def jsonNumeral (d : Decimal) (negative : Bool) : Numeral :=
  let exponent := d.point - 1
  if -5 ≤ exponent ∧ exponent ≤ 15 then d.pointNumeral negative
  else
    let sign := if exponent < 0 then '-' else '+'
    let fraction := if d.digits.length ≤ 1 then none else some (d.digits.drop 1)
    ⟨negative, d.digits.take 1, fraction, some ('e', some sign, Text.natural exponent.natAbs)⟩

/-- The layout of a real column: positional between the places `10⁻⁴` and `10¹⁴`, otherwise
scientific with a signed exponent of at least two digits; a digit follows the point in both. -/
def columnNumeral (d : Decimal) (negative : Bool) : Numeral :=
  let exponent := d.point - 1
  if -4 ≤ exponent ∧ exponent ≤ 14 then d.pointNumeral negative
  else
    let sign := if exponent < 0 then '-' else '+'
    let fraction := if d.digits.length ≤ 1 then ['0'] else d.digits.drop 1
    ⟨negative, d.digits.take 1, some fraction, some ('e', some sign, Text.padded 2 exponent.natAbs)⟩

end Decimal

namespace Binary64

/-- The JSON spelling of a double; negative zero keeps its sign. -/
def jsonNumeral (x : Binary64) : Numeral := x.shortest.jsonNumeral x.negative

/-- The text of a double without exponent, for messages. -/
def plainText (x : Binary64) : List Char :=
  if x.negative then '-' :: x.shortest.plainText else x.shortest.plainText

end Binary64
end EntityStore
