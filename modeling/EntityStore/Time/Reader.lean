import EntityStore.Text.Blank
import EntityStore.Text.Split
import EntityStore.Time.Instant

/-! # Reading instants

Three formats are read.  `readStrict?` takes dates and times of fixed width with an offset, as in
`2026-02-09T14:30:00+01:00`.  `readLoose?` takes the same with fewer digits, blanks and a year with
a sign, and is what request bodies are read with.  `readPlain?` takes a date and a time of day
without offset, the database's own format.

A stored column is read by `readStored?`: strictly, else as a plain date and time. -/

namespace EntityStore.Time

/-! ### Pieces -/

/-- At most `max` digits at the front, at least one. -/
def readNumber? (max : Nat) (cs : List Char) : Option (Nat × List Char) :=
  let ds := (cs.take max).takeWhile Text.isDigit
  if ds.isEmpty then none else some (Text.digitsValue ds, cs.drop ds.length)

/-- Exactly `width` digits at the front. -/
def readFixed? (width : Nat) (cs : List Char) : Option (Nat × List Char) :=
  let ds := cs.take width
  if ds.length = width && ds.all Text.isDigit then some (Text.digitsValue ds, cs.drop width)
  else none

def readChar? (c : Char) : List Char → Option (List Char)
  | a :: rest => if a = c then some rest else none
  | [] => none

def skipBlank (cs : List Char) : List Char := cs.dropWhile Text.isBlank

/-- The nanoseconds after a point: at least one digit, of which nine count.  Without a point there
are none. -/
def readNanos? : List Char → Option (Nat × List Char)
  | '.' :: rest =>
    let ds := rest.takeWhile Text.isDigit
    if ds.isEmpty then none
    else some (Text.digitsValue (ds.take 9 ++ List.replicate (9 - ds.length) '0'),
      rest.drop ds.length)
  | cs => some (0, cs)

/-- One of the separators between a date and a time of day. -/
def readMark? : List Char → Option (List Char)
  | 'T' :: rest | 't' :: rest | ' ' :: rest => some rest
  | _ => none

/-- The seconds of an offset from its hours and minutes. -/
def offsetSeconds? (negative : Bool) (hours minutes : Nat) : Option Int :=
  let seconds : Nat := (hours * 60 + minutes) * 60
  if minutes < 60 && seconds < 86400 then
    some (if negative then -(seconds : Int) else seconds)
  else none

/-- An offset; `colon` reads what stands between its hours and minutes. -/
def readOffset? (colon : List Char → Option (List Char)) :
    List Char → Option (Int × List Char)
  | 'Z' :: rest | 'z' :: rest => some (0, rest)
  | c :: rest =>
    if c = '+' ∨ c = '-' ∨ c = '\u2212' then do
      let (hours, rest) ← readFixed? 2 rest
      let rest ← colon rest
      let (minutes, rest) ← readFixed? 2 rest
      let seconds ← offsetSeconds? (c ≠ '+') hours minutes
      return (seconds, rest)
    else none
  | [] => none

/-! ### Fixed width -/

/-- The format of fixed width with an offset; nothing may follow. -/
def readStrict? (cs : List Char) : Option Instant := do
  let (year, cs) ← readFixed? 4 cs
  let cs ← readChar? '-' cs
  let (month, cs) ← readFixed? 2 cs
  let cs ← readChar? '-' cs
  let (day, cs) ← readFixed? 2 cs
  let cs ← readMark? cs
  let (hour, cs) ← readFixed? 2 cs
  let cs ← readChar? ':' cs
  let (minute, cs) ← readFixed? 2 cs
  let cs ← readChar? ':' cs
  let (second, cs) ← readFixed? 2 cs
  let (nanos, cs) ← readNanos? cs
  let (offset, cs) ← readOffset? (readChar? ':') cs
  if cs.isEmpty then Civil.instant? ⟨⟨year, month, day⟩, hour, minute, second, nanos⟩ offset
  else none

/-! ### Fewer digits and blanks -/

/-- A year: up to four digits, or any number of digits after a sign. -/
def readYear? (cs : List Char) : Option (Int × List Char) :=
  match skipBlank cs with
  | '-' :: rest => (readNumber? rest.length rest).map fun (n, rest) => (-(n : Int), rest)
  | '+' :: rest => (readNumber? rest.length rest).map fun (n, rest) => ((n : Int), rest)
  | cs => (readNumber? 4 cs).map fun (n, rest) => ((n : Int), rest)

/-- One or two digits after blanks. -/
def readShort? (cs : List Char) : Option (Nat × List Char) := readNumber? 2 (skipBlank cs)

/-- A separator after blanks. -/
def readSeparator? (loose : Bool) (c : Char) (cs : List Char) : Option (List Char) :=
  readChar? c (if loose then skipBlank cs else cs)

/-- A date whose separators may have blanks before them when `loose`. -/
def readDate? (loose : Bool) (cs : List Char) : Option (Date × List Char) := do
  let (year, cs) ← readYear? cs
  let cs ← readSeparator? loose '-' cs
  let (month, cs) ← readShort? cs
  let cs ← readSeparator? loose '-' cs
  let (day, cs) ← readShort? cs
  return (⟨year, month, day⟩, cs)

/-- Hour, minute and second, with blanks as in dates. -/
def readClock? (loose : Bool) (cs : List Char) : Option ((Nat × Nat × Nat) × List Char) := do
  let (hour, cs) ← readShort? cs
  let cs ← readSeparator? loose ':' cs
  let (minute, cs) ← readShort? cs
  let cs ← readSeparator? loose ':' cs
  let (second, cs) ← readShort? cs
  return ((hour, minute, second), cs)

/-- The offset of the loose format: also the word `UTC`, and any blanks and colons between hours
and minutes. -/
def readLooseOffset? (cs : List Char) : Option (Int × List Char) :=
  if Text.lower (cs.take 3) = ['u', 't', 'c'] then some (0, cs.drop 3)
  else readOffset? (fun cs => some (cs.dropWhile (fun c => c = ':' || Text.isBlank c))) cs

/-- The loose format; only blanks may follow. -/
def readLoose? (cs : List Char) : Option Instant := do
  let (date, cs) ← readDate? true cs
  let cs ← readMark? cs
  let ((hour, minute, second), cs) ← readClock? true cs
  let (nanos, cs) ← readNanos? cs
  let (offset, cs) ← readLooseOffset? (skipBlank cs)
  if (skipBlank cs).isEmpty then Civil.instant? ⟨date, hour, minute, second, nanos⟩ offset
  else none

/-- A date and a time of day without offset; nothing may follow. -/
def readPlain? (cs : List Char) : Option Instant := do
  let (date, cs) ← readDate? false cs
  let ((hour, minute, second), cs) ← readClock? false cs
  if cs.isEmpty then Civil.instant? ⟨date, hour, minute, second, 0⟩ 0 else none

/-- The instant of a stored column. -/
def readStored? (text : String) : Option Instant :=
  (readStrict? text.toList).or (readPlain? text.toList)

/-- The instant of a field of a request. -/
def readField? (text : String) : Option Instant := readLoose? text.toList

end EntityStore.Time
