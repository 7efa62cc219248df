import EntityStore.Json.Basic

/-! # Schemas without demands for presence

`stripRequired` removes from a schema document, at every place where a schema stands, the keywords
that ask for something to be there: `required`, `dependentRequired` and the dependencies given as
lists of names.  It goes into subschemas but not under `not` and `if`, where asking for less would
accept less, and it leaves everything alone that is no schema: a property that is called `required`
stays. -/

namespace EntityStore.Schema

/-- How the value of a keyword is gone through. -/
inductive StripRule
  /-- The keyword is removed. -/
  | drop
  /-- The values are schemas, but lists of names are removed. -/
  | dependencies
  /-- The values are schemas. -/
  | members
  /-- A schema or an array of schemas. -/
  | schema
  /-- Nothing below is a schema that may be changed. -/
  | keep
deriving DecidableEq

def StripRule.of : String → StripRule
  | "required" | "dependentRequired" => drop
  | "dependencies" => dependencies
  | "properties" | "patternProperties" | "dependentSchemas" | "$defs" | "definitions" => members
  | "additionalProperties" | "unevaluatedProperties" | "propertyNames" | "items"
  | "additionalItems" | "unevaluatedItems" | "prefixItems" | "contains" | "then" | "else"
  | "allOf" | "anyOf" | "oneOf" => schema
  | _ => keep

mutual
/-- The schema, or array of schemas, without demands for presence. -/
def stripRequired : Json → Json
  | .object fields => .object (stripFields fields)
  | .array items => .array (stripItems items)
  | j => j

def stripItems : List Json → List Json
  | [] => []
  | j :: rest => stripRequired j :: stripItems rest

/-- The keywords of a schema object. -/
def stripFields : List (String × Json) → List (String × Json)
  | [] => []
  | (keyword, j) :: rest =>
    match StripRule.of keyword, j with
    | .drop, _ => stripFields rest
    | .dependencies, .object members =>
      (keyword, .object (stripDependencies members)) :: stripFields rest
    | .members, .object members => (keyword, .object (stripMembers members)) :: stripFields rest
    | .schema, j => (keyword, stripRequired j) :: stripFields rest
    | _, j => (keyword, j) :: stripFields rest

/-- Schemas by name. -/
def stripMembers : List (String × Json) → List (String × Json)
  | [] => []
  | (name, j) :: rest => (name, stripRequired j) :: stripMembers rest

/-- Schemas by name, without the lists of names. -/
def stripDependencies : List (String × Json) → List (String × Json)
  | [] => []
  | (_, .array _) :: rest => stripDependencies rest
  | (name, j) :: rest => (name, stripRequired j) :: stripDependencies rest
end

end EntityStore.Schema
