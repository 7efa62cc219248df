import EntityStore.Text.Digits

/-! # Numbers as they are spelled

`Numeral` keeps the spelling of a decimal number: sign, digits before and after the point, and the
exponent with its mark and sign.  `Numeral.text` writes it, `Numeral.read?` reads the longest
numeral at the front of a text by the grammar of JSON numbers.  `digits` and `scale` give the
value: `digits * 10 ^ scale`. -/

namespace EntityStore

/-- A number as it is spelled.  `fraction` are the digits after the point, if there is one;
`exponent` is the mark, the sign as written and the digits. -/
structure Numeral where
  negative : Bool
  whole : List Char
  fraction : Option (List Char)
  exponent : Option (Char × Option Char × List Char)
deriving DecidableEq

namespace Numeral

/-- Written without point and exponent. -/
def isInteger (n : Numeral) : Bool := n.fraction.isNone && n.exponent.isNone

def text (n : Numeral) : List Char :=
  (if n.negative then ['-'] else []) ++ n.whole ++
    (match n.fraction with
      | none => []
      | some ds => '.' :: ds) ++
    (match n.exponent with
      | none => []
      | some (mark, sign, ds) => mark :: sign.toList ++ ds)

/-- The digits before and after the point as one natural number. -/
def digits (n : Numeral) : Nat := Text.digitsValue (n.whole ++ n.fraction.getD [])

/-- The power of ten that `digits` is multiplied with. -/
def scale (n : Numeral) : Int :=
  let written : Int := match n.exponent with
    | none => 0
    | some (_, sign, ds) =>
      if sign = some '-' then -(Text.digitsValue ds : Int) else Text.digitsValue ds
  written - (n.fraction.getD []).length

/-! ### Reading numbers -/

/-- A nonempty digit run. -/
def readDigits? (cs : List Char) : Option (List Char × List Char) :=
  match cs.span Text.isDigit with
  | ([], _) => none
  | found => some found

/-- A digit run without leading zero, or `0` alone. -/
def readWhole? : List Char → Option (List Char × List Char)
  | '0' :: rest => some (['0'], rest)
  | cs => readDigits? cs

/-- A point and the digits after it; nothing when there is no point. -/
def readFraction? : List Char → Option (Option (List Char) × List Char)
  | '.' :: rest => (readDigits? rest).map fun (ds, rest) => (some ds, rest)
  | cs => some (none, cs)

def readSign : List Char → Option Char × List Char
  | '+' :: rest => (some '+', rest)
  | '-' :: rest => (some '-', rest)
  | cs => (none, cs)

/-- An exponent; nothing when there is no mark. -/
def readExponent? : List Char → Option (Option (Char × Option Char × List Char) × List Char)
  | [] => some (none, [])
  | c :: rest =>
    if c = 'e' ∨ c = 'E' then
      let (sign, rest) := readSign rest
      (readDigits? rest).map fun (ds, rest) => (some (c, sign, ds), rest)
    else some (none, c :: rest)

def read? (cs : List Char) : Option (Numeral × List Char) := do
  let (negative, cs) := match cs with
    | '-' :: rest => (true, rest)
    | cs => (false, cs)
  let (whole, cs) ← readWhole? cs
  let (fraction, cs) ← readFraction? cs
  let (exponent, cs) ← readExponent? cs
  return (⟨negative, whole, fraction, exponent⟩, cs)

end Numeral

end EntityStore
