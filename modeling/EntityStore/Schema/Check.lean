import EntityStore.Binary64.Decimal
import EntityStore.Json.Printer
import EntityStore.Schema.Regex

/-! # Single demands on a value

A `Check` is a demand that looks at one value and at no other schema: its type, a bound, a length, a
pattern, a required key.  `Check.holds` decides it and `Check.message` words its violation.

Numbers are compared by value: `1` equals `1.0`, in constants and enumerations too. -/

namespace EntityStore

/-! ### Equality of values -/

mutual
/-- Equality with numbers compared by value. -/
def Json.same : Json → Json → Bool
  | .null, .null => true
  | .bool a, .bool b => a == b
  | .number a, .number b => a.same b
  | .string a, .string b => a == b
  | .array as, .array bs => sameItems as bs
  | .object as, .object bs => sameFields as bs
  | _, _ => false

def Json.sameItems : List Json → List Json → Bool
  | [], [] => true
  | a :: as, b :: bs => a.same b && sameItems as bs
  | _, _ => false

def Json.sameFields : List (String × Json) → List (String × Json) → Bool
  | [], [] => true
  | (k, a) :: as, (l, b) :: bs => k == l && a.same b && sameFields as bs
  | _, _ => false
end

namespace Schema

/-! ### Types -/

/-- The types that a schema can ask for, in the order of their names. -/
inductive TypeName
  | array
  | boolean
  | integer
  | null
  | number
  | object
  | string
deriving DecidableEq

namespace TypeName

def all : List TypeName := [array, boolean, integer, null, number, object, string]

def name : TypeName → String
  | array => "array"
  | boolean => "boolean"
  | integer => "integer"
  | null => "null"
  | number => "number"
  | object => "object"
  | string => "string"

def ofName? (text : String) : Option TypeName := all.find? (fun t => t.name = text)

/-- The value is of the type.  A number without fraction is an integer, in the strict reading only
when it is written as one. -/
def contains (strict : Bool) : TypeName → Json → Bool
  | array, .array _ | boolean, .bool _ | null, .null | number, .number _ | object, .object _
  | string, .string _ => true
  | integer, .number (.integer _) => true
  | integer, .number n => !strict && n.isIntegral
  | _, _ => false

end TypeName

/-! ### Checks -/

/-- The four bounds of a number. -/
inductive Bound
  | minimum
  | maximum
  | exclusiveMinimum
  | exclusiveMaximum
deriving DecidableEq

/-- What is counted: the characters of a string, the items of an array, the properties of an
object. -/
inductive Measure
  | characters
  | items
  | properties
deriving DecidableEq

inductive Check
  | type (strict : Bool) (types : List TypeName)
  | const (value : Json)
  | enum (values : List Json)
  | bound (b : Bound) (limit : Number)
  | multipleOf (divisor : Number)
  | atLeast (m : Measure) (count : Nat)
  | atMost (m : Measure) (count : Nat)
  | unique
  | pattern (source : String) (regex : Regex)
  | present (name : String)
deriving DecidableEq

namespace Bound

def holds (x limit : Number) : Bound → Bool
  | minimum => x.compare limit != .lt
  | maximum => x.compare limit != .gt
  | exclusiveMinimum => x.compare limit == .gt
  | exclusiveMaximum => x.compare limit == .lt

/-- What is wrong with a number beyond the bound. -/
def complaint : Bound → String
  | minimum => "less than the minimum of "
  | maximum => "greater than the maximum of "
  | exclusiveMinimum => "less than or equal to the minimum of "
  | exclusiveMaximum => "greater than or equal to the maximum of "

end Bound

namespace Measure

/-- The count of a value, for values that have one. -/
def count? : Measure → Json → Option Nat
  | characters, .string s => some s.length
  | items, .array js => some js.length
  | properties, .object fields => some fields.length
  | _, _ => none

/-- The noun for a count. -/
def noun (m : Measure) (count : Nat) : String :=
  match m, count with
  | characters, 1 => "character"
  | characters, _ => "characters"
  | items, 1 => "item"
  | items, _ => "items"
  | properties, 1 => "property"
  | properties, _ => "properties"

end Measure

/-- A decimal as a natural number and the power of ten it is multiplied with. -/
def decimalScale (d : Decimal) : Nat × Int :=
  (Text.digitsValue d.digits, d.point - d.digits.length)

/-- `a * 10 ^ m` is a multiple of `b * 10 ^ n`. -/
def dividesScaled (a : Nat) (m : Int) (b : Nat) (n : Int) : Bool :=
  if n ≤ m then a * Nat.pow 10 (m - n).toNat % b == 0
  else a % (b * Nat.pow 10 (n - m).toNat) == 0

namespace Number

open EntityStore.Number (isIntegral toBinary64)

/-- The number is a multiple of the divisor.  With an integer as divisor both are taken as doubles;
otherwise both are the decimals they are written as. -/
def isMultipleOf (x divisor : Number) : Bool :=
  let dx := toBinary64 x
  let dd := toBinary64 divisor
  if dx.isZero then true
  else if isIntegral divisor then isIntegral x && dx.truncate % dd.truncate == 0
  else
    let (a, m) := decimalScale dx.shortest
    let (b, n) := decimalScale dd.shortest
    dividesScaled a m b n

/-- A divisor as text, without point when it is an integer and never with an exponent. -/
def divisorText (divisor : Number) : String := String.ofList (toBinary64 divisor).plainText

end Number

/-- No item equals a later one. -/
def allDistinct : List Json → Bool
  | [] => true
  | j :: rest => !rest.any j.same && allDistinct rest

namespace Check

/-- The value meets the demand; most demands ask nothing of a value of another type. -/
def holds : Check → Json → Bool
  | type strict types, j => types.any (fun t => t.contains strict j)
  | const value, j => j.same value
  | enum values, j => values.any j.same
  | bound b limit, .number x => b.holds x limit
  | multipleOf divisor, .number x => Number.isMultipleOf x divisor
  | atLeast m count, j => (m.count? j).all (count ≤ ·)
  | atMost m count, j => (m.count? j).all (· ≤ count)
  | unique, .array items => allDistinct items
  | pattern _ regex, .string s => regex.occurs s
  | present name, .object fields => Fields.contains name fields
  | _, _ => true

def natText (n : Nat) : String := String.ofList (Text.natural n)

/-- Words between double quotes, with commas. -/
def typeList (types : List TypeName) : String :=
  String.intercalate ", " (types.map fun t => "\"" ++ t.name ++ "\"")

/-- What is said of a value that violates the demand. -/
def message (j : Json) : Check → String
  | type _ [t] => j.print ++ " is not of type \"" ++ t.name ++ "\""
  | type _ types => j.print ++ " is not of types " ++ typeList types
  | const value => value.print ++ " was expected"
  | enum values => j.print ++ " is not one of " ++ (Json.array values).print
  | bound b limit => j.print ++ " is " ++ b.complaint ++ (Json.number limit).print
  | multipleOf divisor => j.print ++ " is not a multiple of " ++ Number.divisorText divisor
  | atLeast .characters n =>
    j.print ++ " is shorter than " ++ natText n ++ " " ++ Measure.characters.noun n
  | atMost .characters n =>
    j.print ++ " is longer than " ++ natText n ++ " " ++ Measure.characters.noun n
  | atLeast m n => j.print ++ " has less than " ++ natText n ++ " " ++ m.noun n
  | atMost m n => j.print ++ " has more than " ++ natText n ++ " " ++ m.noun n
  | unique => j.print ++ " has non-unique elements"
  | pattern source _ => j.print ++ " does not match \"" ++ source ++ "\""
  | present name => Json.quote name ++ " is a required property"

end Check
end Schema
end EntityStore
