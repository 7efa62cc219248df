import EntityStore.Json.Basic
import EntityStore.Json.FloatReader
import EntityStore.Json.Source

/-! # Reading JSON values

`Json.read?` reads a JSON text as a value.  Beyond the grammar it asks for three things: at most
127 arrays and objects inside one another, surrogate escapes in pairs, and numbers whose nearest double
is finite.  An integer without point and exponent stays an integer while it fits 64 bits, signed or
unsigned; `-0` and everything else is a double, as the `FloatReader` reads it.

`readRaw?` keeps repeated field names and their order, for readers that have to see them;
`read?` is its canonical value. -/

namespace EntityStore

variable [FloatReader]

namespace Numeral

/-- The number that is spelled, unless its nearest double overflows. -/
def value? (n : Numeral) : Option Number :=
  let magnitude := n.digits
  if n.isInteger && !n.negative && magnitude < unsignedBound then some (.integer magnitude)
  else if n.isInteger && n.negative && 0 < magnitude && magnitude ≤ signedBound then
    some (.integer (-magnitude))
  else (Binary64.ofDecimal? n.negative magnitude n.scale).map fun x => .float (FloatReader.read n x)

end Numeral

namespace Source

/-- The value of four hexadecimal digits. -/
def codeUnit? (a b c d : Char) : Option Nat := do
  return ((← Text.hexValue? a) * 16 + (← Text.hexValue? b)) * 256 +
    ((← Text.hexValue? c) * 16 + (← Text.hexValue? d))

/-- The character of a one-letter escape. -/
def simpleEscape? : Char → Option Char
  | '"' => some '"'
  | '\\' => some '\\'
  | '/' => some '/'
  | 'b' => some '\x08'
  | 'f' => some '\x0c'
  | 'n' => some '\n'
  | 'r' => some '\r'
  | 't' => some '\t'
  | _ => none

def isHighSurrogate (n : Nat) : Bool := 0xD800 ≤ n && n < 0xDC00

def isLowSurrogate (n : Nat) : Bool := 0xDC00 ≤ n && n < 0xE000

/-- The characters of a string body, `read` being those before, last first.  A surrogate escape
without its partner has no character. -/
def unescape? (read : List Char) : List Char → Option (List Char)
  | [] => some read.reverse
  | '\\' :: 'u' :: a :: b :: c :: d :: '\\' :: 'u' :: e :: f :: g :: h :: rest =>
    match codeUnit? a b c d with
    | none => none
    | some high =>
      if isHighSurrogate high then
        match codeUnit? e f g h with
        | none => none
        | some low =>
          if isLowSurrogate low then
            unescape? (Char.ofNat (0x10000 + (high - 0xD800) * 0x400 + (low - 0xDC00)) :: read) rest
          else none
      else if isLowSurrogate high then none
      else unescape? (Char.ofNat high :: read) ('\\' :: 'u' :: e :: f :: g :: h :: rest)
  | '\\' :: 'u' :: a :: b :: c :: d :: rest =>
    match codeUnit? a b c d with
    | none => none
    | some n =>
      if isHighSurrogate n || isLowSurrogate n then none
      else unescape? (Char.ofNat n :: read) rest
  | '\\' :: c :: rest =>
    match simpleEscape? c with
    | none => none
    | some c => unescape? (c :: read) rest
  | c :: rest => unescape? (c :: read) rest

/-- The string of a body. -/
def string? (body : List Char) : Option String := (unescape? [] body).map String.ofList

mutual
/-- The value of a tree, repeated names kept. -/
def value? : Source → Option Json
  | .null => some .null
  | .bool b => some (.bool b)
  | .number n => n.value?.map .number
  | .string body => (string? body).map .string
  | .array items => (valueItems? items).map .array
  | .object fields => (valueFields? fields).map .object

def valueItems? : List Source → Option (List Json)
  | [] => some []
  | s :: rest => do return (← value? s) :: (← valueItems? rest)

def valueFields? : List (List Char × Source) → Option (List (String × Json))
  | [] => some []
  | (name, s) :: rest => do return (← string? name, ← value? s) :: (← valueFields? rest)
end

end Source

namespace Json

/-- The number of arrays and objects that may stand inside one another in a text. -/
def depthLimit : Nat := 127

/-- The canonical value of a tree that is not nested too deep. -/
def ofSource? (s : Source) : Option Json :=
  if s.depth ≤ depthLimit then s.value?.map canonical else none

/-- The value of a JSON text with its fields as written. -/
def readRaw? (text : String) : Option Json :=
  (Source.parse? depthLimit text.toList).bind Source.value?

/-- The canonical value of a JSON text: of repeated names the last one counts. -/
def read? (text : String) : Option Json := (readRaw? text).map canonical

end Json
end EntityStore
