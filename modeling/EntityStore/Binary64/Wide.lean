import EntityStore.Binary64.Basic

/-! # Numbers of sixty-four significant bits

`Wide` is the format in which decimals are turned into doubles and doubles into decimals where that
is not done exactly: `significand * 2 ^ exponent` with eleven bits more than a double has.  Every
operation rounds to the nearest such number, a tie to the even significand.  A product of a few of
them is off by a few units in its last bit, and so the double next to it need not be the one nearest
to the exact product.

The exponent has no limits: what is far outside the range of doubles is infinite or zero as a double
whatever its digits are. -/

namespace EntityStore

structure Wide where
  significand : Nat
  exponent : Int
deriving DecidableEq

namespace Wide

/-- The number of significant bits. -/
def width : Nat := 64

/-! ### Arithmetic -/

/-- The number nearest to `n * 2 ^ exponent`. -/
def round (n : Nat) (exponent : Int) : Wide :=
  let excess := n.log2 + 1 - width
  ⟨Binary64.divNearestEven n (Nat.pow 2 excess), exponent + excess⟩

def ofNat (n : Nat) : Wide := round n 0

/-- The number nearest to `1 / n`, where `n` is no power of two. -/
def inverse (n : Nat) : Wide :=
  let places := width + n.log2
  ⟨Binary64.divNearestEven (Nat.pow 2 places) n, -(places : Int)⟩

def mul (a b : Wide) : Wide := round (a.significand * b.significand) (a.exponent + b.exponent)

def lt (a b : Wide) : Bool :=
  let e := min a.exponent b.exponent
  a.significand * Nat.pow 2 (a.exponent - e).toNat <
    b.significand * Nat.pow 2 (b.exponent - e).toNat

/-- The integer below. -/
def floor (a : Wide) : Nat :=
  if 0 ≤ a.exponent then a.significand * Nat.pow 2 a.exponent.toNat
  else a.significand / Nat.pow 2 (-a.exponent).toNat

/-! ### Powers of ten -/

/-- Multiply by the hundredth power of ten, the tenth and ten itself, as often as makes up the
places; `factor` gives the power or its inverse. -/
def move (factor : Nat → Wide) (places : Nat) (a : Wide) : Wide :=
  let times (power count : Nat) (a : Wide) : Wide :=
    Nat.repeat (mul · (factor (Nat.pow 10 power))) count a
  times 1 (places % 10) (times 10 (places % 100 / 10) (times 100 (places / 100) a))

/-- The number times ten to the power `power`. -/
def scale (power : Int) (a : Wide) : Wide :=
  if 0 ≤ power then move ofNat power.toNat a else move inverse (-power).toNat a

/-! ### Doubles -/

/-- The absolute value of a double. -/
def ofBinary (x : Binary64) : Wide := ⟨x.significand, x.exponent⟩

/-- The largest double. -/
def maxBinary : Wide := ⟨2 * hiddenBit - 1, 971⟩

/-- The double nearest to the number, unless the number is above them all. -/
def toBinary? (negative : Bool) (a : Wide) : Option Binary64 :=
  if maxBinary.lt a then none
  else if 0 ≤ a.exponent then
    Binary64.ofRatio? negative (a.significand * Nat.pow 2 a.exponent.toNat) 1
  else Binary64.ofRatio? negative a.significand (Nat.pow 2 (-a.exponent).toNat)

example : inverse 10 = ⟨0xCCCCCCCCCCCCCCCD, -67⟩ := by decide
example : ofNat (10 ^ 100) = ⟨0x924D692CA61BE758, 269⟩ := by decide +kernel

end Wide
end EntityStore
