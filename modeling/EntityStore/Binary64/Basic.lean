import EntityStore.Text.Width

/-! # Finite double-precision numbers

A finite IEEE 754 double is its sign and the remaining 63 bits of its pattern, read as a natural
number: the `magnitude`.  The order of magnitudes is the order of absolute values, so two doubles
are compared without decoding them.  Everything here is exact arithmetic on naturals; rounding is
to the nearest double, a tie to the even pattern.

`roundRatio` is the one rounding function: decimal text, integers and quotients all go through
it. -/

namespace EntityStore

/-- The value of the leading bit of a significand, which is not stored. -/
def hiddenBit : Nat := 0x10000000000000

/-- The pattern of positive infinity, one above the largest finite magnitude. -/
def infiniteMagnitude : Nat := 2047 * hiddenBit

/-- A finite double.  The two zeros differ in `negative` only. -/
structure Binary64 where
  negative : Bool
  magnitude : Nat
  finite : magnitude < infiniteMagnitude
deriving DecidableEq

namespace Binary64

/-! ### Decoding -/

def zero : Binary64 := ⟨false, 0, by decide⟩

instance : Inhabited Binary64 := ⟨zero⟩

def isZero (x : Binary64) : Bool := x.magnitude == 0

/-- The integer part `m` of `m * 2 ^ e`, below `2 ^ 53`. -/
def significand (x : Binary64) : Nat :=
  if x.magnitude < hiddenBit then x.magnitude else x.magnitude % hiddenBit + hiddenBit

/-- The exponent `e` of `m * 2 ^ e`, from `-1074` to `971`. -/
def exponent (x : Binary64) : Int :=
  if x.magnitude < hiddenBit then -1074 else (x.magnitude / hiddenBit : Nat) - 1075

/-- The absolute value as a quotient of naturals. -/
def ratio (x : Binary64) : Nat × Nat :=
  if 0 ≤ x.exponent then (x.significand * Nat.pow 2 x.exponent.toNat, 1)
  else (x.significand, Nat.pow 2 (-x.exponent).toNat)

/-- The 64 bits of the pattern. -/
def bits (x : Binary64) : Nat := (if x.negative then signedBound else 0) + x.magnitude

/-- The absolute value rounded down to an integer. -/
def truncate (x : Binary64) : Nat := x.ratio.1 / x.ratio.2

/-- The value has no fractional part. -/
def isIntegral (x : Binary64) : Bool := x.ratio.1 % x.ratio.2 == 0

/-- The value as an integer, when it is one. -/
def toInt? (x : Binary64) : Option Int :=
  if x.isIntegral then some (if x.negative then -(x.truncate : Int) else x.truncate) else none

/-! ### Rounding -/

/-- The exponent at which the quotient `num / den` has its leading 53 bits, or `-1074` for
quotients too small for that. -/
def scaleOf (num den : Nat) : Int :=
  let guess := max ((num.log2 : Int) - den.log2 - 53) (-1074)
  let quotient :=
    if 0 ≤ guess then num / (den * Nat.pow 2 guess.toNat) else num * Nat.pow 2 (-guess).toNat / den
  if quotient < 2 * hiddenBit then guess else guess + 1

/-- The quotient rounded to the nearest integer, a tie to the even one. -/
def divNearestEven (num den : Nat) : Nat :=
  let q := num / den
  let r := num % den
  if 2 * r < den then q
  else if 2 * r = den then (if q % 2 = 0 then q else q + 1)
  else q + 1

/-- The magnitude of the double nearest to `num / den`; values that round beyond the largest
finite double give `infiniteMagnitude` or more. -/
def roundRatio (num den : Nat) : Nat :=
  if num = 0 then 0
  else
    let e := scaleOf num den
    let m := if 0 ≤ e then divNearestEven num (den * Nat.pow 2 e.toNat)
      else divNearestEven (num * Nat.pow 2 (-e).toNat) den
    (e + 1074).toNat * hiddenBit + m

def ofMagnitude? (negative : Bool) (magnitude : Nat) : Option Binary64 :=
  if h : magnitude < infiniteMagnitude then some ⟨negative, magnitude, h⟩ else none

/-- The double nearest to `num / den` with the given sign, unless it overflows. -/
def ofRatio? (negative : Bool) (num den : Nat) : Option Binary64 :=
  ofMagnitude? negative (roundRatio num den)

/-- The double nearest to `digits * 10 ^ exponent`, unless it overflows.  Exponents far outside
the range of doubles are answered without computing the power. -/
def ofDecimal? (negative : Bool) (digits : Nat) (exponent : Int) : Option Binary64 :=
  if digits = 0 then ofMagnitude? negative 0
  else
    let lead := (Nat.toDigits 10 digits).length + exponent
    if 310 < lead then none
    else if lead < -330 then ofMagnitude? negative 0
    else if 0 ≤ exponent then ofRatio? negative (digits * Nat.pow 10 exponent.toNat) 1
    else ofRatio? negative digits (Nat.pow 10 (-exponent).toNat)

/-- The double nearest to an integer; integers beyond all doubles stop at the largest one. -/
def ofInt (i : Int) : Binary64 :=
  (ofRatio? (i < 0) i.natAbs 1).getD ⟨i < 0, infiniteMagnitude - 1, by decide⟩

/-! ### Order -/

/-- The magnitude with its sign: the numeric order of doubles, in which both zeros are equal. -/
def rank (x : Binary64) : Int := if x.negative then -(x.magnitude : Int) else x.magnitude

def compare (x y : Binary64) : Ordering := Ord.compare x.rank y.rank

/-- The exact comparison of a double with an integer. -/
def compareInt (x : Binary64) (i : Int) : Ordering :=
  let signed : Int := if x.negative then -(x.ratio.1 : Int) else x.ratio.1
  Ord.compare signed (i * x.ratio.2)

example : (ofDecimal? false 1 (-1)).map bits = some 0x3FB999999999999A := by decide +kernel
example : (ofInt 9007199254740993).bits = 0x4340000000000000 := by decide +kernel
example : ofDecimal? true 17976931348623159 292 = none := by decide +kernel
example : (ofDecimal? false 5 (-324)).map bits = some 1 := by decide +kernel

end Binary64
end EntityStore
