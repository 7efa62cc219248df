import EntityStore.Schema.Check
import EntityStore.Schema.Location

/-! # Schemas

A `Compiled` schema is what a schema document means: a combination of checks, of schemas for parts of a
value and of references to other schemas of the document.  All keywords of one schema object stand next to
each other under `all`; keywords that look at their neighbours carry what they need of them.

A `Violation` is a demand that a place of a document does not meet; `Violation.fieldError` is what
is reported about it. -/

namespace EntityStore.Schema

/-- The meaning of a schema document. -/
inductive Compiled
  /-- Every value. -/
  | always
  /-- No value. -/
  | never
  /-- All keywords of a schema object. -/
  | all (parts : List Compiled)
  | check (c : Check)
  | allOf (members : List Compiled)
  | anyOf (members : List Compiled)
  | oneOf (members : List Compiled)
  /-- Not the schema, which is kept as it was written. -/
  | not (source : Json) (schema : Compiled)
  | ifThenElse (condition then_ else_ : Compiled)
  /-- The schema for the property of that name. -/
  | property (name : String) (schema : Compiled)
  /-- The schema for the properties whose names match. -/
  | matching (regex : Regex) (schema : Compiled)
  /-- The schema for the properties that are not listed and match no expression. -/
  | additional (listed : List String) (patterns : List Regex) (schema : Compiled)
  /-- No property but the listed and matching ones. -/
  | closed (listed : List String) (patterns : List Regex)
  /-- No property at all. -/
  | noProperties
  /-- The schema for the names of properties. -/
  | names (schema : Compiled)
  /-- No names of properties. -/
  | noNames
  /-- What an object with that property has to meet. -/
  | dependent (name : String) (schema : Compiled)
  /-- The schema for the item at an index. -/
  | item (index : Nat) (schema : Compiled)
  /-- The schema for the items from an index on. -/
  | itemsFrom (index : Nat) (schema : Compiled)
  /-- No items from an index on. -/
  | noItemsFrom (index : Nat)
  /-- At least and at most so many items meet the schema. -/
  | contains (low : Nat) (high : Option Nat) (schema : Compiled)
  /-- The schema at a place of the document. -/
  | reference (pointer : String)
  /-- The schema for the properties that the siblings leave unevaluated. -/
  | unevaluatedProperties (siblings : List Compiled) (schema : Compiled)
  /-- The schema for the items that the siblings leave unevaluated. -/
  | unevaluatedItems (siblings : List Compiled) (schema : Compiled)

/-! ### Violations -/

/-- What is wrong with a value. -/
inductive Fault
  | check (c : Check)
  | never
  | anyOf
  | oneOfNone
  | oneOfSeveral
  | not (source : Json)
  | additionalProperties (names : List String)
  | additionalItems (items : List Json)
  | unevaluatedProperties (names : List String)
  | unevaluatedItems (items : List Json)
  | contains

/-- A fault of a value at a place. -/
structure Violation where
  location : Location
  value : Json
  fault : Fault

namespace Fault

/-- Things between single quotes, with commas, and the verb for their number. -/
def unexpected (things : List String) : String :=
  String.intercalate ", " things ++ (if things.length = 1 then " was" else " were") ++ " unexpected"

def quoted (things : List String) : List String := things.map fun t => "'" ++ t ++ "'"

def message (value : Json) : Fault → String
  | check c => c.message value
  | never => "False schema does not allow " ++ value.print
  | anyOf =>
    value.print ++ " is not valid under any of the schemas listed in the 'anyOf' keyword"
  | oneOfNone =>
    value.print ++ " is not valid under any of the schemas listed in the 'oneOf' keyword"
  | oneOfSeveral =>
    value.print ++ " is valid under more than one of the schemas listed in the 'oneOf' keyword"
  | not source => source.print ++ " is not allowed for " ++ value.print
  | additionalProperties names =>
    "Additional properties are not allowed (" ++ unexpected (quoted names) ++ ")"
  | additionalItems items =>
    "Additional items are not allowed (" ++ unexpected (items.map Json.print) ++ ")"
  | unevaluatedProperties names =>
    "Unevaluated properties are not allowed (" ++ unexpected (quoted names) ++ ")"
  | unevaluatedItems items =>
    "Unevaluated items are not allowed (" ++ unexpected (quoted (items.map Json.print)) ++ ")"
  | contains => "None of " ++ value.print ++ " are valid under the given schema"

/-- The key that is missing, when that is the fault. -/
def missing? : Fault → Option String
  | check (.present name) => some name
  | _ => none

end Fault

namespace Violation

/-- Something is missing, rather than wrong. -/
def isPresence (v : Violation) : Bool := v.fault.missing?.isSome

/-- The violation as it is reported.  A missing key is reported at the place where it would be. -/
def fieldError (document : Json) (v : Violation) : FieldError :=
  let path := fieldPath document v.location.pointer
  ⟨match v.fault.missing? with
    | some name => joinPath path name
    | none => path, v.fault.message v.value⟩

end Violation
end EntityStore.Schema
