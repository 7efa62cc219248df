import EntityStore.Schema.Basic
import EntityStore.Schema.Dialect
import EntityStore.Schema.RegexReader
import EntityStore.Text.Width

/-! # From schema documents to schemas

`Compiled.ofJson?` gives the meaning of a well-formed schema document.  Subschemas are compiled first
(`Piece`), by the shape that their keyword gives them; then each keyword is read together with its
neighbours.  Definitions are compiled only where a reference leads to them, and a branch of a
condition only when there is a condition.

A document has no meaning when a regular expression in it cannot be read. -/

namespace EntityStore.Schema

/-! ### Subschemas -/

/-- How subschemas stand in the value of a keyword. -/
inductive Shape
  | none
  | single
  | list
  | map
  /-- By name, a schema or a list of names. -/
  | dependencies
  | singleOrList
deriving DecidableEq

/-- The shape of a keyword's value. -/
def shapeOf : String → Shape
  | "additionalProperties" | "propertyNames" | "additionalItems" | "contains" | "not" | "if"
  | "then" | "else" | "unevaluatedProperties" | "unevaluatedItems" => .single
  | "prefixItems" | "allOf" | "anyOf" | "oneOf" => .list
  | "properties" | "patternProperties" | "dependentSchemas" => .map
  | "dependencies" => .dependencies
  | "items" => .singleOrList
  | _ => .none

/-- The compiled subschemas of a keyword; what cannot be compiled is missing. -/
inductive Piece
  | none
  | single (schema : Option Compiled)
  | list (schemas : List (Option Compiled))
  | map (members : List (String × Option Compiled))

/-- The keywords of a schema object with their compiled subschemas. -/
abbrev Pieces := List (String × Piece)

namespace Pieces

def find (name : String) : Pieces → Piece
  | [] => .none
  | (k, p) :: rest => if k = name then p else find name rest

end Pieces

/-- All of them, unless one is missing. -/
def allSome {α : Type} : List (Option α) → Option (List α)
  | [] => some []
  | none :: _ => none
  | some a :: rest => (allSome rest).map (a :: ·)

/-! ### Keywords without subschemas -/

/-- The count that a number stands for; counts beyond 64 bits are as good as the largest one. -/
def countOf : Json → Nat
  | .number (.integer i) => i.toNat
  | .number (.float x) => if x.negative then 0 else min x.truncate (unsignedBound - 1)
  | _ => 0

/-- The strings among the items of an array. -/
def namesOf : Json → List String
  | .array items => items.filterMap Json.asString?
  | _ => []

/-- The types of a type keyword, in the order of their names. -/
def typesOf : Json → List TypeName
  | .string s => (TypeName.ofName? s).toList
  | j => TypeName.all.filter fun t => (namesOf j).contains t.name

/-- Each of the names has to be there. -/
def presence (names : List String) : Compiled := .all (names.map fun n => .check (.present n))

/-- The bounds of draft 4, where a flag makes a bound exclusive. -/
def flaggedBound (fields : Fields) (flag : String) (plain exclusive : Bound) : Bound :=
  if Fields.get? flag fields = some (.bool true) then exclusive else plain

/-- The demand of a keyword that has no subschemas, if it is one.  `format` demands nothing, as in the
newest dialect; that the older ones check some formats is not covered. -/
def checkOf? (d : Dialect) (fields : Fields) (keyword : String) (j : Json) :
    Option (Option Check) :=
  match keyword, j with
  | "type", j => some (some (.type (d = .draft4) (typesOf j)))
  | "const", j => if d.isAfter4 then some (some (.const j)) else none
  | "enum", .array values => some (some (.enum values))
  | "minimum", .number n =>
    some (some (.bound (flaggedBound fields "exclusiveMinimum" .minimum .exclusiveMinimum) n))
  | "maximum", .number n =>
    some (some (.bound (flaggedBound fields "exclusiveMaximum" .maximum .exclusiveMaximum) n))
  | "exclusiveMinimum", .number n => some (some (.bound .exclusiveMinimum n))
  | "exclusiveMaximum", .number n => some (some (.bound .exclusiveMaximum n))
  | "multipleOf", .number n => some (some (.multipleOf n))
  | "minLength", j => some (some (.atLeast .characters (countOf j)))
  | "maxLength", j => some (some (.atMost .characters (countOf j)))
  | "minItems", j => some (some (.atLeast .items (countOf j)))
  | "maxItems", j => some (some (.atMost .items (countOf j)))
  | "minProperties", j => some (some (.atLeast .properties (countOf j)))
  | "maxProperties", j => some (some (.atMost .properties (countOf j)))
  | "uniqueItems", .bool true => some (some .unique)
  | "pattern", .string s => some ((Regex.read? s).map (.pattern s))
  | _, _ => none

/-! ### Keywords with subschemas -/

/-- The properties and the expressions for properties that a schema object lists. -/
def listedNames (fields : Fields) : List String :=
  match Fields.get? "properties" fields with
  | some (.object members) => Fields.names members
  | _ => []

def listedPatterns (fields : Fields) : List Regex :=
  match Fields.get? "patternProperties" fields with
  | some (.object members) => (Fields.names members).filterMap Regex.read?
  | _ => []

/-- The number of items that have a schema of their own. -/
def prefixLength (fields : Fields) : Nat :=
  match Fields.get? "prefixItems" fields with
  | some (.array items) => items.length
  | _ => 0

/-- The schemas of a list, each for the item at its index. -/
def itemSchemas (start : Nat) : List Compiled → List Compiled
  | [] => []
  | s :: rest => .item start s :: itemSchemas (start + 1) rest

/-- A schema for each name. -/
def namedSchemas (make : String → Compiled → Compiled) :
    List (String × Option Compiled) → Option (List Compiled)
  | [] => some []
  | (name, s) :: rest => do return make name (← s) :: (← namedSchemas make rest)

def matchingSchemas : List (String × Option Compiled) → Option (List Compiled)
  | [] => some []
  | (source, s) :: rest => do
    return .matching (← Regex.read? source) (← s) :: (← matchingSchemas rest)

/-- Dependencies between keys. -/
def requiredTogether : Fields → List Compiled
  | [] => []
  | (name, j) :: rest => .dependent name (presence (namesOf j)) :: requiredTogether rest

/-- A condition with its branches; without branches it says nothing. -/
def conditionOf (pieces : Pieces) (condition : Option Compiled) : Option (List Compiled) :=
  match pieces.find "then", pieces.find "else" with
  | .single yes, .single no => do return [.ifThenElse (← condition) (← yes) (← no)]
  | .single yes, _ => do return [.ifThenElse (← condition) (← yes) .always]
  | _, .single no => do return [.ifThenElse (← condition) .always (← no)]
  | _, _ => some []

/-- What a keyword asks for, apart from its subschemas. -/
inductive Demand
  | nothing
  /-- The value of the keyword has no meaning. -/
  | unreadable
  | check (c : Check)
  | reference (pointer : String)
  | present (names : List String)
  | together (members : Fields)
  | allOf
  | anyOf
  | oneOf
  | not (source : Json)
  | condition
  | properties
  | matching
  | additional (listed : List String) (patterns : List Regex)
  | closed (listed : List String) (patterns : List Regex)
  | noProperties
  | names
  | noNames
  | dependents
  /-- A schema for each index. -/
  | items
  | itemsFrom (index : Nat)
  | noItemsFrom (index : Nat)
  | contains (low : Nat) (high : Option Nat)

/-- A reference, unless it is no text. -/
def referenceDemand (j : Json) : Demand := (j.asString?.map Demand.reference).getD .unreadable

/-- Items beyond those that have a schema for their index, if there are such. -/
def furtherItemsDemand (items : Option Json) (j : Json) : Demand :=
  match items with
  | some (.array items) =>
    match j with
    | .bool true => .nothing
    | .bool false => .noItemsFrom items.length
    | _ => .itemsFrom items.length
  | _ => .nothing

/-- What a keyword of a schema object asks for.  Keywords that a dialect does not know ask for
nothing. -/
def demandOf (d : Dialect) (fields : Fields) (keyword : String) (j : Json) : Demand :=
  match checkOf? d fields keyword j with
  | some (some c) => .check c
  | some none => .unreadable
  | none =>
    match keyword with
    | "$ref" => referenceDemand j
    | "$dynamicRef" => if d.isNewest then referenceDemand j else .nothing
    | "required" => .present (namesOf j)
    | "dependentRequired" =>
      match d.isNewest, j with
      | true, .object members => .together members
      | _, _ => .nothing
    | "allOf" => .allOf
    | "anyOf" => .anyOf
    | "oneOf" => .oneOf
    | "not" => .not j
    | "if" => if d.isAfter4 then .condition else .nothing
    | "properties" => .properties
    | "patternProperties" => .matching
    | "additionalProperties" =>
      match j with
      | .bool true => .nothing
      | .bool false =>
        if Fields.contains "properties" fields || Fields.contains "patternProperties" fields then
          .closed (listedNames fields) (listedPatterns fields)
        else .noProperties
      | _ => .additional (listedNames fields) (listedPatterns fields)
    | "propertyNames" =>
      match d.isAfter4, j with
      | false, _ | _, .bool true => .nothing
      | _, .bool false => .noNames
      | _, _ => .names
    | "dependencies" => .dependents
    | "dependentSchemas" => if d.isNewest then .dependents else .nothing
    | "items" =>
      match j with
      | .array _ => .items
      | _ => .itemsFrom (prefixLength fields)
    | "additionalItems" => furtherItemsDemand (Fields.get? "items" fields) j
    | "prefixItems" => if d.isNewest then .items else .nothing
    | "contains" =>
      if !d.isAfter4 then .nothing
      else if d.isNewest then
        .contains (((Fields.get? "minContains" fields).map countOf).getD 1)
          ((Fields.get? "maxContains" fields).map countOf)
      else .contains 1 none
    | _ => .nothing

/-- The schemas of a demand with the subschemas of its keyword, unless they have no meaning. -/
def Demand.schemas? (pieces : Pieces) : Demand → Piece → Option (List Compiled)
  | .unreadable, _ => none
  | .check c, _ => some [.check c]
  | .reference pointer, _ => some [.reference pointer]
  | .present keys, _ => some [presence keys]
  | .together members, _ => some (requiredTogether members)
  | .allOf, .list ss => (allSome ss).map fun ss => [.allOf ss]
  | .anyOf, .list ss => (allSome ss).map fun ss => [.anyOf ss]
  | .oneOf, .list ss => (allSome ss).map fun ss => [.oneOf ss]
  | .not source, .single s => s.map fun s => [.not source s]
  | .condition, .single s => conditionOf pieces s
  | .properties, .map members => namedSchemas .property members
  | .matching, .map members => matchingSchemas members
  | .additional listed patterns, .single s => s.map fun s => [.additional listed patterns s]
  | .closed listed patterns, _ => some [.closed listed patterns]
  | .noProperties, _ => some [.noProperties]
  | .names, .single s => s.map fun s => [.names s]
  | .noNames, _ => some [.noNames]
  | .dependents, .map members => namedSchemas .dependent members
  | .items, .list ss => (allSome ss).map (itemSchemas 0)
  | .itemsFrom index, .single s => s.map fun s => [.itemsFrom index s]
  | .noItemsFrom index, _ => some [.noItemsFrom index]
  | .contains low high, .single s => s.map fun s => [.contains low high s]
  | _, _ => some []

/-- The schemas of all keywords, in the order of the object. -/
def allKeywords? (d : Dialect) (fields : Fields) (pieces : Pieces) :
    Fields → Pieces → Option (List Compiled)
  | (keyword, j) :: rest, (_, piece) :: later => do
    return (← (demandOf d fields keyword j).schemas? pieces piece) ++
      (← allKeywords? d fields pieces rest later)
  | _, _ => some []

/-- The schema of a keyword about what its siblings leave over, if it is there. -/
def leftoverOf? (make : Compiled → Compiled) : Piece → Option (List Compiled)
  | .single s => s.map fun s => [make s]
  | _ => some []

/-- The keywords about what the other keywords leave over. -/
def leftoverSchemas? (d : Dialect) (pieces : Pieces) (parts : List Compiled) :
    Option (List Compiled) :=
  if !d.isNewest then some []
  else do
    return (← leftoverOf? (.unevaluatedProperties parts) (pieces.find "unevaluatedProperties")) ++
      (← leftoverOf? (.unevaluatedItems parts) (pieces.find "unevaluatedItems"))

/-- The schema of a schema object. -/
def objectSchema? (d : Dialect) (fields : Fields) (pieces : Pieces) : Option Compiled :=
  match Fields.get? "$ref" fields with
  | some j =>
    if d.referenceIsAlone then j.asString?.map .reference
    else do
      let parts ← allKeywords? d fields pieces fields pieces
      return .all (parts ++ (← leftoverSchemas? d pieces parts))
  | none => do
    let parts ← allKeywords? d fields pieces fields pieces
    return .all (parts ++ (← leftoverSchemas? d pieces parts))

/-! ### Documents -/

mutual
/-- The schema of a schema document. -/
def Compiled.ofJson? (d : Dialect) : Json → Option Compiled
  | .bool true => some .always
  | .bool false => some .never
  | .object fields => objectSchema? d fields (piecesOf d fields)
  | _ => none

def piecesOf (d : Dialect) : List (String × Json) → Pieces
  | [] => []
  | (keyword, j) :: rest =>
    (keyword,
      match shapeOf keyword, j with
      | .single, j => .single (Compiled.ofJson? d j)
      | .list, .array items => .list (schemasOf d items)
      | .map, .object members => .map (membersOf d members)
      | .dependencies, .object members => .map (dependenciesOf d members)
      | .singleOrList, .array items => .list (schemasOf d items)
      | .singleOrList, j => .single (Compiled.ofJson? d j)
      | _, _ => .none) :: piecesOf d rest

def schemasOf (d : Dialect) : List Json → List (Option Compiled)
  | [] => []
  | j :: rest => Compiled.ofJson? d j :: schemasOf d rest

def membersOf (d : Dialect) : List (String × Json) → List (String × Option Compiled)
  | [] => []
  | (name, j) :: rest => (name, Compiled.ofJson? d j) :: membersOf d rest

/-- The same, but a list of names stands for their presence. -/
def dependenciesOf (d : Dialect) : List (String × Json) → List (String × Option Compiled)
  | [] => []
  | (name, .array items) :: rest =>
    (name, some (presence (namesOf (.array items)))) :: dependenciesOf d rest
  | (name, j) :: rest => (name, Compiled.ofJson? d j) :: dependenciesOf d rest
end

end EntityStore.Schema
