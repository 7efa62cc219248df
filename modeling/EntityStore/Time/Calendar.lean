/-! # The calendar

Dates of the Gregorian calendar, extended to all years, and their day numbers.  Day 0 is the first
of January 1970.  `daysBeforeYear` and `daysBeforeMonth` count days; `Date.ofDay` finds the year and
the month whose count is the last one not above the day. -/

namespace EntityStore.Time

def isLeap (year : Int) : Bool := year % 4 = 0 && (year % 100 ≠ 0 || year % 400 = 0)

/-- The number of days of a month; zero for a number that names no month. -/
def monthLength (leap : Bool) : Nat → Nat
  | 1 | 3 | 5 | 7 | 8 | 10 | 12 => 31
  | 4 | 6 | 9 | 11 => 30
  | 2 => if leap then 29 else 28
  | _ => 0

/-- The days of a year before a month. -/
def daysBeforeMonth (leap : Bool) : Nat → Nat
  | 0 | 1 => 0
  | m + 2 => daysBeforeMonth leap (m + 1) + monthLength leap (m + 1)

/-- The days from the first of January of year 0 to that of the given year. -/
def daysBeforeYear (year : Int) : Int :=
  365 * year + (year + 3) / 4 - (year + 99) / 100 + (year + 399) / 400

/-- The days from the first of January of year 0 to that of 1970. -/
def epochDay : Int := daysBeforeYear 1970

structure Date where
  year : Int
  month : Nat
  day : Nat
deriving DecidableEq

namespace Date

/-- The month and the day exist. -/
def isValid (d : Date) : Bool := 1 ≤ d.day && d.day ≤ monthLength (isLeap d.year) d.month

/-- The day number of a date. -/
def toDay (d : Date) : Int :=
  daysBeforeYear d.year - epochDay + daysBeforeMonth (isLeap d.year) d.month + d.day - 1

/-- The year in which a day since the first of January of year 0 lies. -/
def yearOf (day : Int) : Int :=
  let guess := day * 400 / 146097
  if daysBeforeYear (guess + 1) ≤ day then guess + 1
  else if day < daysBeforeYear guess then guess - 1
  else guess

/-- The month, counted down from the given one, in which a day of the year lies. -/
def monthFrom (leap : Bool) (dayOfYear : Nat) : Nat → Nat
  | 0 => 1
  | m + 1 => if daysBeforeMonth leap (m + 1) ≤ dayOfYear then m + 1 else monthFrom leap dayOfYear m

/-- The date of a day number. -/
def ofDay (day : Int) : Date :=
  let day := day + epochDay
  let year := yearOf day
  let rest := (day - daysBeforeYear year).toNat
  let month := monthFrom (isLeap year) rest 12
  ⟨year, month, rest - daysBeforeMonth (isLeap year) month + 1⟩

end Date

example : (Date.ofDay 0) = ⟨1970, 1, 1⟩ := by decide
example : (Date.ofDay 11016) = ⟨2000, 2, 29⟩ := by decide
example : (Date.ofDay (-719528)) = ⟨0, 1, 1⟩ := by decide
example : Date.toDay ⟨2001, 1, 1⟩ = 11323 := by decide

end EntityStore.Time
