import EntityStore.Text.Digits
import EntityStore.Time.Calendar

/-! # Instants

An instant is a number of seconds since 1970 and a number of nanoseconds.  A leap second is the
second before it continued: its nanoseconds run from one to two thousand million, and it is
written as second 60.

`Instant.stored` is the text under which an instant is stored, always with microseconds;
`Instant.shown` has 0, 3, 6 or 9 digits after the point, the fewest that are exact. -/

namespace EntityStore.Time

/-- A point in time.  `nanos` is below `10 ^ 9`, or below `2 * 10 ^ 9` in a leap second. -/
structure Instant where
  seconds : Int
  nanos : Nat
deriving DecidableEq

/-- What a clock and a calendar show. -/
structure Civil where
  date : Date
  hour : Nat
  minute : Nat
  /-- Up to 60, which is a leap second. -/
  second : Nat
  nanos : Nat
deriving DecidableEq

/-- The first and the last year of a date. -/
def firstYear : Int := -262143

def lastYear : Int := 262142

namespace Civil

/-- The date exists and the clock shows a time of day. -/
def isValid (c : Civil) : Bool :=
  c.date.isValid && c.hour < 24 && c.minute < 60 && c.second ≤ 60 && c.nanos < 1000000000 &&
    firstYear ≤ c.date.year && c.date.year ≤ lastYear

/-- The instant at which clocks that are `offset` seconds ahead show this. -/
def instant (c : Civil) (offset : Int) : Instant :=
  let leap := c.second = 60
  let second := if leap then 59 else c.second
  ⟨c.date.toDay * 86400 + (c.hour * 3600 + c.minute * 60 + second : Nat) - offset,
    if leap then c.nanos + 1000000000 else c.nanos⟩

/-- The instant, if the date and the time of day exist, also without the offset. -/
def instant? (c : Civil) (offset : Int) : Option Instant :=
  if c.isValid then
    let i := c.instant offset
    let year := (Date.ofDay (i.seconds / 86400)).year
    if firstYear ≤ year ∧ year ≤ lastYear then some i else none
  else none

end Civil

namespace Instant

/-- What a clock without offset shows. -/
def civil (i : Instant) : Civil :=
  let leap := 1000000000 ≤ i.nanos
  let rest := (i.seconds % 86400).toNat
  ⟨Date.ofDay (i.seconds / 86400), rest / 3600, rest / 60 % 60,
    if leap then rest % 60 + 1 else rest % 60, if leap then i.nanos - 1000000000 else i.nanos⟩

/-- The instant without what is below a microsecond. -/
def toMicros (i : Instant) : Instant := ⟨i.seconds, i.nanos / 1000 * 1000⟩

/-! ### Writing -/

/-- Four digits; a year outside them has a sign. -/
def yearText (year : Int) : List Char :=
  if 0 ≤ year ∧ year ≤ 9999 then Text.padded 4 year.toNat
  else (if year < 0 then '-' else '+') :: Text.padded 4 year.natAbs

/-- Date and time of day to the second. -/
def secondsText (c : Civil) : List Char :=
  yearText c.date.year ++ '-' :: Text.padded 2 c.date.month ++ '-' :: Text.padded 2 c.date.day ++
    'T' :: Text.padded 2 c.hour ++ ':' :: Text.padded 2 c.minute ++ ':' :: Text.padded 2 c.second

/-- Nothing, or a point and 3, 6 or 9 digits. -/
def fractionText (nanos : Nat) : List Char :=
  if nanos = 0 then []
  else if nanos % 1000000 = 0 then '.' :: Text.padded 3 (nanos / 1000000)
  else if nanos % 1000 = 0 then '.' :: Text.padded 6 (nanos / 1000)
  else '.' :: Text.padded 9 nanos

/-- The text with the fewest exact digits. -/
def shown (i : Instant) : String :=
  let c := i.civil
  String.ofList (secondsText c ++ fractionText c.nanos ++ ['Z'])

/-- The text of fixed width with microseconds; what is below them is cut off. -/
def stored (i : Instant) : String :=
  let c := i.civil
  String.ofList (secondsText c ++ '.' :: Text.padded 6 (c.nanos / 1000) ++ ['Z'])

end Instant
end EntityStore.Time
