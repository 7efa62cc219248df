import EntityStore.Binary64.Decimal
import EntityStore.Json.Basic
import EntityStore.Json.Source

/-! # Writing JSON values

`Json.source` is the syntax tree of a value and `Json.print` its text, without white space.
Strings escape the quote, the backslash and the control characters below U+0020 and nothing else;
a double is written with the fewest digits that read back and always looks different from an
integer. -/

namespace EntityStore

/-- The spelling of a number. -/
def Number.numeral : Number → Numeral
  | .integer i => ⟨i < 0, Text.natural i.natAbs, none, none⟩
  | .float x => x.jsonNumeral

namespace Source

/-- A character inside a string. -/
def escapeChar (c : Char) : List Char :=
  if c = '"' then ['\\', '"']
  else if c = '\\' then ['\\', '\\']
  else if c = '\x08' then ['\\', 'b']
  else if c = '\x0c' then ['\\', 'f']
  else if c = '\n' then ['\\', 'n']
  else if c = '\r' then ['\\', 'r']
  else if c = '\t' then ['\\', 't']
  else if c.toNat < 0x20 then '\\' :: 'u' :: Text.hexPadded 4 c.toNat
  else [c]

/-- What stands between the quotes for a string. -/
def escape (s : String) : List Char := s.toList.flatMap escapeChar

end Source

namespace Json

mutual
/-- The syntax tree of a value. -/
def source : Json → Source
  | .null => .null
  | .bool b => .bool b
  | .number n => .number n.numeral
  | .string s => .string (Source.escape s)
  | .array items => .array (sourceItems items)
  | .object fields => .object (sourceFields fields)

def sourceItems : List Json → List Source
  | [] => []
  | j :: rest => source j :: sourceItems rest

def sourceFields : List (String × Json) → List (List Char × Source)
  | [] => []
  | (name, j) :: rest => (Source.escape name, source j) :: sourceFields rest
end

/-- The compact text of a value. -/
def print (j : Json) : String := String.ofList j.source.text

/-- A string as JSON text, between quotes. -/
def quote (s : String) : String := print (.string s)

end Json
end EntityStore
