import EntityStore.Binary64.Basic
import EntityStore.Config.Setting
import EntityStore.Text.Digits
import EntityStore.Text.Width
import EntityStore.Time.Calendar

/-! # Numbers and dates in TOML

Integers are decimal with an optional sign, or hexadecimal, octal or binary without one, and have to
fit 64 bits.  Digits may be grouped by single underscores.  A number with a point or an exponent is
a decimal; it must not exceed the largest double.  A date is no setting: it reads as an empty
table. -/

namespace EntityStore.Toml

open Config (Setting)

/-! ### Digits -/

/-- The digits at the front, and those after single underscores between digits. -/
def takeGrouped (digit : Char → Bool) : List Char → List Char × List Char
  | '_' :: c :: rest =>
    if digit c then
      let (ds, rest) := takeGrouped digit rest
      (c :: ds, rest)
    else ([], '_' :: c :: rest)
  | c :: rest =>
    if digit c then
      let (ds, rest) := takeGrouped digit rest
      (c :: ds, rest)
    else ([], c :: rest)
  | [] => ([], [])

/-- A nonempty run of digits that starts with a digit. -/
def readGrouped? (digit : Char → Bool) : List Char → Option (List Char × List Char)
  | c :: rest =>
    if digit c then
      let (ds, rest) := takeGrouped digit rest
      some (c :: ds, rest)
    else none
  | [] => none

def takeSign : List Char → Bool × List Char
  | '-' :: rest => (true, rest)
  | '+' :: rest => (false, rest)
  | cs => (false, cs)

/-- The digits before the point: no zero in front of other digits. -/
def readWhole? : List Char → Option (List Char × List Char)
  | '0' :: rest => some (['0'], rest)
  | cs => readGrouped? Text.isDigit cs

/-! ### Integers -/

def isRadixDigit (radix : Nat) (c : Char) : Bool :=
  match Text.hexValue? c with
  | some d => d < radix
  | none => false

def radixValue (radix : Nat) (ds : List Char) : Nat :=
  ds.foldl (fun n c => radix * n + (Text.hexValue? c).getD 0) 0

/-- An integer in a radix, without sign. -/
def readRadix? (radix : Nat) (cs : List Char) : Option (Setting × List Char) :=
  match readGrouped? (isRadixDigit radix) cs with
  | some (ds, rest) =>
    (signed64? false (radixValue radix ds)).map fun i => (.integer i, rest)
  | none => none

def readInteger? : List Char → Option (Setting × List Char)
  | '0' :: 'x' :: rest => readRadix? 16 rest
  | '0' :: 'o' :: rest => readRadix? 8 rest
  | '0' :: 'b' :: rest => readRadix? 2 rest
  | cs =>
    let (negative, cs) := takeSign cs
    match readWhole? cs with
    | some (ds, rest) =>
      (signed64? negative (Text.digitsValue ds)).map fun i => (.integer i, rest)
    | none => none

/-! ### Decimals -/

/-- The digits after a point; the run is empty when there is no point. -/
def readFraction? : List Char → Option (List Char × List Char)
  | '.' :: rest => readGrouped? Text.isDigit rest
  | cs => some ([], cs)

/-- The value of an exponent; nothing when there is none. -/
def readExponent? : List Char → Option (Option Int × List Char)
  | [] => some (none, [])
  | c :: rest =>
    if c = 'e' ∨ c = 'E' then
      let (negative, rest) := takeSign rest
      (readGrouped? Text.isDigit rest).map fun (ds, rest) =>
        let n : Int := Text.digitsValue ds
        (some (if negative then -n else n), rest)
    else some (none, c :: rest)

/-- The words for what is no number. -/
def readSpecial? (cs : List Char) : Option (Setting × List Char) :=
  match (takeSign cs).2 with
  | 'i' :: 'n' :: 'f' :: rest => some (.decimal, rest)
  | 'n' :: 'a' :: 'n' :: rest => some (.decimal, rest)
  | _ => none

/-- A decimal together with whether its double is finite; nothing when the text starts with none. -/
def readDecimal? (cs : List Char) : Option (Bool × List Char) := do
  let (negative, cs) := takeSign cs
  let (whole, cs) ← readWhole? cs
  let (fraction, rest) ← readFraction? cs
  let (exponent, rest) ← readExponent? rest
  if fraction.isEmpty && exponent.isNone then none
  else
    let scale := exponent.getD 0 - fraction.length
    let x := Binary64.ofDecimal? negative (Text.digitsValue (whole ++ fraction)) scale
    return (negative || x.isSome, rest)

/-! ### Dates and times -/

/-- Exactly so many digits. -/
def readFixed? (width : Nat) (cs : List Char) : Option (Nat × List Char) :=
  let ds := cs.take width
  if ds.length = width && ds.all Text.isDigit then some (Text.digitsValue ds, cs.drop width)
  else none

def readChar? (c : Char) : List Char → Option (List Char)
  | d :: rest => if d = c then some rest else none
  | [] => none

/-- Two digits with a value up to `max`. -/
def readPair? (max : Nat) (cs : List Char) : Option (Nat × List Char) :=
  match readFixed? 2 cs with
  | some (n, rest) => if n ≤ max then some (n, rest) else none
  | none => none

/-- What comes after a date that exists. -/
def afterDate? (cs : List Char) : Option (List Char) := do
  let (year, cs) ← readFixed? 4 cs
  let cs ← readChar? '-' cs
  let (month, cs) ← readFixed? 2 cs
  let cs ← readChar? '-' cs
  let (day, cs) ← readFixed? 2 cs
  if (Time.Date.mk year month day).isValid then some cs else none

/-- What comes after a fraction of a second; all of it when there is none. -/
def afterFraction? : List Char → Option (List Char)
  | '.' :: c :: rest => if Text.isDigit c then some (rest.dropWhile Text.isDigit) else none
  | ['.'] => none
  | cs => some cs

/-- What comes after a time of day. -/
def afterTime? (cs : List Char) : Option (List Char) := do
  let (_, cs) ← readPair? 23 cs
  let cs ← readChar? ':' cs
  let (_, cs) ← readPair? 59 cs
  let cs ← readChar? ':' cs
  let (_, cs) ← readPair? 60 cs
  afterFraction? cs

/-- What comes after an offset; all of it when there is none. -/
def afterOffset? : List Char → Option (List Char)
  | [] => some []
  | c :: rest =>
    if c = 'Z' ∨ c = 'z' then some rest
    else if c = '+' ∨ c = '-' then do
      let (_, cs) ← readPair? 23 rest
      let cs ← readChar? ':' cs
      let (_, cs) ← readPair? 59 cs
      return cs
    else some (c :: rest)

/-- What comes after a time that follows a date; nothing when none follows. -/
def afterDateTime? : List Char → Option (List Char)
  | [] => none
  | c :: rest =>
    if c = 'T' ∨ c = 't' ∨ c = ' ' then (afterTime? rest).bind afterOffset? else none

/-- A date, a time, or both. -/
def readMoment? (cs : List Char) : Option (Setting × List Char) :=
  match afterDate? cs with
  | some rest => some (.table [], (afterDateTime? rest).getD rest)
  | none => (afterTime? cs).map (.table [], ·)

/-! ### Any of them -/

/-- A date, a time or a number. -/
def readNumber? (cs : List Char) : Option (Setting × List Char) :=
  match readMoment? cs with
  | some found => some found
  | none =>
    match readDecimal? cs with
    | some (finite, rest) => if finite then some (.decimal, rest) else none
    | none => (readSpecial? cs).or (readInteger? cs)

end EntityStore.Toml
