import EntityStore.Json.Basic
import EntityStore.Text.Blank
import EntityStore.Text.Digits
import EntityStore.Text.Width

/-! # Numbers given as text

A comparison accepts a number or a text that spells one.  After trimming, a text is an integer of
64 bits with an optional sign, or else a decimal with optional point and exponent whose double is
finite.  `+5`, `.5`, `5.` and `1e3` are numbers; `0x10`, `1_000`, `inf` and `nan` are not. -/

namespace EntityStore.Query

/-- A sign at the front, and whether it is a minus. -/
def takeSign : List Char → Bool × List Char
  | '-' :: rest => (true, rest)
  | '+' :: rest => (false, rest)
  | cs => (false, cs)

/-- An integer with optional sign that fits 64 bits. -/
def integerLiteral? (cs : List Char) : Option Int :=
  let (negative, ds) := takeSign cs
  if ds.isEmpty || !ds.all Text.isDigit then none
  else signed64? negative (Text.digitsValue ds)

/-- The exponent at the end of a decimal literal, zero when there is none. -/
def exponentLiteral? : List Char → Option Int
  | [] => some 0
  | c :: rest =>
    if c = 'e' ∨ c = 'E' then
      let (negative, ds) := takeSign rest
      if ds.isEmpty || !ds.all Text.isDigit then none
      else some (if negative then -(Text.digitsValue ds : Int) else Text.digitsValue ds)
    else none

/-- A decimal with optional sign, point and exponent; a digit stands before or after the point. -/
def decimalLiteral? (cs : List Char) : Option Binary64 :=
  let (negative, cs) := takeSign cs
  let (whole, cs) := cs.span Text.isDigit
  let (fraction, cs) := match cs with
    | '.' :: rest => rest.span Text.isDigit
    | cs => ([], cs)
  if whole.isEmpty && fraction.isEmpty then none
  else
    match exponentLiteral? cs with
    | none => none
    | some e =>
      Binary64.ofDecimal? negative (Text.digitsValue (whole ++ fraction)) (e - fraction.length)

/-- The number that a text spells. -/
def numberOfText? (text : String) : Option Number :=
  let cs := Text.trimList text.toList
  match integerLiteral? cs with
  | some i => some (.integer i)
  | none => (decimalLiteral? cs).map .float

/-- The number that a filter's value stands for. -/
def operand? : Json → Option Number
  | .number n => some n
  | .string s => numberOfText? s
  | _ => none

end EntityStore.Query
