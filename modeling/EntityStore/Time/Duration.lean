import EntityStore.Text.Digits
import EntityStore.Text.Width

/-! # Durations

A duration is a number of nanoseconds, at most 2⁶⁴ - 1 seconds and 999999999 nanoseconds.  Its text
has the largest unit that it fills and as many digits after the point as are needed. -/

namespace EntityStore.Time

structure Duration where
  nanos : Nat
deriving DecidableEq

namespace Duration

/-- The longest duration. -/
def max : Duration := ⟨unsignedBound * 1000000000 - 1⟩

def ofMillis (ms : Nat) : Duration := ⟨ms * 1000000⟩

/-- Whole milliseconds, rounded down. -/
def toMillis (d : Duration) : Nat := d.nanos / 1000000

/-- Twice the duration, or the longest one if that is too long. -/
def double (d : Duration) : Duration := ⟨min (2 * d.nanos) max.nanos⟩

def shorter (d e : Duration) : Duration := ⟨min d.nanos e.nanos⟩

/-- A quotient by `10 ^ digits` in decimal notation, without zeros at the end. -/
def quotientText (digits n : Nat) : List Char :=
  let fraction := (Text.padded digits (n % Nat.pow 10 digits)).reverse.dropWhile (· = '0')
  let whole := Text.natural (n / Nat.pow 10 digits)
  if fraction.isEmpty then whole else whole ++ '.' :: fraction.reverse

def text (d : Duration) : String :=
  String.ofList <|
    if 1000000000 ≤ d.nanos then quotientText 9 d.nanos ++ ['s']
    else if 1000000 ≤ d.nanos then quotientText 6 d.nanos ++ ['m', 's']
    else if 1000 ≤ d.nanos then quotientText 3 d.nanos ++ ['µ', 's']
    else Text.natural d.nanos ++ ['n', 's']

end Duration
end EntityStore.Time
