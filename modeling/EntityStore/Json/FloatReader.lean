import EntityStore.Binary64.Basic
import EntityStore.Text.Numeral

/-! # How doubles are read

The library that reads JSON can be built to read a numeral as the nearest double, or to read it
quickly.  Quick reading takes the digits as an integer of 64 bits, makes a double of it, and
multiplies or divides that by a power of ten; each of these steps rounds, so the result can be next
to the nearest double, and a double that was printed can be read as another one.

Which of the two a store gets is settled by all packages that are built together with it, and what it
does with a document depends on this as soon as the document is read back.  Everything that reads is
therefore defined for any `FloatReader`, and what is proved of the store is proved for every one.
Exact reading is what the store is seen to do: it prints `123456789012345680000` as
`1.2345678901234568e+20`, and quick reading would make that `1.2345678901234567e+20`.  So the nearest
double is the one that is read where nothing else is said (`FloatReader.exact`);
`FloatReader.quick` is the other one.  Of numerals with at most fifteen digits and small exponents
both read the same. -/

namespace EntityStore

/-- What is read of a numeral whose nearest double is known.  Numerals without one, which are too
large, are not read at all. -/
class FloatReader where
  read (n : Numeral) (nearest : Binary64) : Binary64

namespace FloatReader

instance exact : FloatReader where
  read _ nearest := nearest

/-! ### Quick reading -/

/-- The significand after more digits, as long as it fits 64 bits, and the number of digits that are
left out. -/
def take (significand : Nat) : List Char → Nat × Nat
  | [] => (significand, 0)
  | d :: ds =>
    let next := significand * 10 + Text.digitValue d
    if next < unsignedBound then take next ds else (significand, ds.length + 1)

/-- The significand and the exponent that are taken of a numeral. -/
def parts (n : Numeral) : Nat × Int :=
  let (whole, wholeLeft) := take 0 n.whole
  let (significand, fractionLeft) := take whole (n.fraction.getD [])
  (significand, n.scale + wholeLeft + fractionLeft)

/-- The greatest exponent that is multiplied with at once. -/
def maxExponent : Nat := 308

def powerOfTen (k : Nat) : Binary64 := (Binary64.ofDecimal? false 1 k).getD .zero

def times? (x y : Binary64) : Option Binary64 :=
  Binary64.ofRatio? false (x.ratio.1 * y.ratio.1) (x.ratio.2 * y.ratio.2)

def over? (x y : Binary64) : Option Binary64 :=
  Binary64.ofRatio? false (x.ratio.1 * y.ratio.2) (x.ratio.2 * y.ratio.1)

/-- The double times a power of ten, unless it overflows.  An exponent too small for one division
takes several; after three of them every significand of 64 bits has become zero. -/
def scale? : Nat → Binary64 → Int → Option Binary64
  | 0, x, _ => some x
  | fuel + 1, x, e =>
    if e.natAbs ≤ maxExponent then
      if 0 ≤ e then times? x (powerOfTen e.natAbs) else over? x (powerOfTen e.natAbs)
    else if x.isZero then some x
    else if 0 ≤ e then none
    else (over? x (powerOfTen maxExponent)).bind fun y => scale? fuel y (e + maxExponent)

/-- The double that is read of a numeral without its sign. -/
def magnitude? (n : Numeral) : Option Binary64 :=
  let (significand, exponent) := parts n
  scale? 3 (.ofInt significand) exponent

@[reducible] def quick : FloatReader where
  read n nearest :=
    match magnitude? n with
    | some x => { x with negative := n.negative }
    | none => nearest

/-- `51.248178375505404` is read as the double that is printed `51.24817837550541`. -/
example : ((magnitude? ⟨false, "51".toList, some "248178375505404".toList, none⟩).map Binary64.bits,
    (Binary64.ofDecimal? false 51248178375505404 (-15)).map Binary64.bits) =
      (some 0x40499FC44F1B2F61, some 0x40499FC44F1B2F60) := by decide +kernel

/-- Of the digits of `123456789012345680000` the last one does not fit 64 bits. -/
example : ((magnitude? ⟨false, "123456789012345680000".toList, none, none⟩).map Binary64.bits,
    (Binary64.ofDecimal? false 123456789012345680000 0).map Binary64.bits) =
      (some 0x441AC53A7E04BCD9, some 0x441AC53A7E04BCDA) := by decide +kernel

end FloatReader
end EntityStore
