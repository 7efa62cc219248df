import EntityStore.Schema.Check
import EntityStore.Schema.Dialect
import EntityStore.Schema.RegexReader

/-! # Well-formed schema documents

Every keyword of a dialect has a `Form` that its value must have, wherever the keyword occurs, also
in parts that no value is ever compared with.  Keywords that the dialect does not know may have any
value.  `wellFormed` checks a whole document. -/

namespace EntityStore.Schema

/-- What the value of a keyword must look like. -/
inductive Form
  | any
  | schema
  | schemas
  | schemaMap
  | schemaOrSchemas
  | boolOrSchema
  /-- For each name a schema or a list of names. -/
  | dependencies
  | string
  | boolean
  | number
  | positive
  /-- A number without fraction, not below zero. -/
  | count
  /-- The same, written as an integer. -/
  | plainCount
  | names
  | someNames
  | namesMap
  | types
  | array
  | distinctArray
  /-- A regular expression. -/
  | pattern
  /-- Schemas by regular expressions. -/
  | patternMap
  | identifier
  | anchor
  | booleanMap
deriving DecidableEq

namespace Form

/-- The forms that are common to all dialects. -/
def common? : String → Option Form
  | "$schema" | "title" | "description" | "format" => some string
  | "maximum" | "minimum" => some number
  | "multipleOf" => some positive
  | "uniqueItems" => some boolean
  | "definitions" | "properties" => some schemaMap
  | "dependencies" => some dependencies
  | "type" => some types
  | "allOf" | "anyOf" | "oneOf" => some schemas
  | "not" => some schema
  | _ => none

/-- The forms that draft 7 and the newest dialect share. -/
def newer? : String → Option Form
  | "$id" | "$ref" | "$comment" | "contentMediaType" | "contentEncoding" => some string
  | "readOnly" => some boolean
  | "exclusiveMaximum" | "exclusiveMinimum" => some number
  | "maxLength" | "minLength" | "maxItems" | "minItems" | "maxProperties" | "minProperties" =>
    some count
  | "required" => some names
  | "enum" | "examples" => some array
  | "additionalProperties" | "contains" | "propertyNames" | "if" | "then" | "else" => some schema
  | _ => none

def draft4 : String → Form
  | "id" => string
  | "exclusiveMaximum" | "exclusiveMinimum" => boolean
  | "maxLength" | "minLength" | "maxItems" | "minItems" | "maxProperties" | "minProperties" =>
    plainCount
  | "pattern" => pattern
  | "patternProperties" => schemaMap
  | "additionalItems" | "additionalProperties" => boolOrSchema
  | "items" => schemaOrSchemas
  | "required" => someNames
  | "enum" => distinctArray
  | k => (common? k).getD any

def draft7 : String → Form
  | "items" => schemaOrSchemas
  | "additionalItems" => schema
  | "pattern" => pattern
  | "patternProperties" => patternMap
  | k => ((common? k).or (newer? k)).getD any

def draft2020 : String → Form
  | "$id" => identifier
  | "$anchor" | "$dynamicAnchor" | "$recursiveAnchor" => anchor
  | "$dynamicRef" | "$recursiveRef" => string
  | "$vocabulary" => booleanMap
  | "$defs" | "dependentSchemas" | "patternProperties" => schemaMap
  | "prefixItems" => schemas
  | "items" | "unevaluatedItems" | "unevaluatedProperties" | "contentSchema" => schema
  | "minContains" | "maxContains" => count
  | "dependentRequired" => namesMap
  | "pattern" => string
  | "deprecated" | "writeOnly" => boolean
  | k => ((common? k).or (newer? k)).getD any

end Form

/-- The form of a keyword in a dialect. -/
def Dialect.form : Dialect → String → Form
  | draft4 => Form.draft4
  | draft7 => Form.draft7
  | draft2020 => Form.draft2020

/-! ### Values without schemas in them -/

def isString : Json → Bool
  | .string _ => true
  | _ => false

def isBool : Json → Bool
  | .bool _ => true
  | _ => false

/-- An array of different strings. -/
def isNames : Json → Bool
  | .array items => items.all isString && allDistinct items
  | _ => false

def isTypeName : Json → Bool
  | .string s => (TypeName.ofName? s).isSome
  | _ => false

/-- An identifier has a hash sign at its end at most. -/
def isIdentifier (cs : List Char) : Bool :=
  match cs.dropWhile (· ≠ '#') with
  | [] | [_] => true
  | _ => false

def isAnchor : List Char → Bool
  | [] => false
  | c :: rest =>
    (isAsciiLetter c || c = '_') &&
      rest.all fun c => isAsciiLetter c || Text.isDigit c || c = '-' || c = '.' || c = '_'
where
  isAsciiLetter (c : Char) : Bool := ('A' ≤ c && c ≤ 'Z') || ('a' ≤ c && c ≤ 'z')

def zero : Number := .integer 0

/-- The value has one of the forms that contain no schema. -/
def Form.plain : Form → Json → Bool
  | any, _ => true
  | string, j => isString j
  | boolean, j => isBool j
  | number, .number _ => true
  | positive, .number n => n.compare zero == .gt
  | count, .number n => n.isIntegral && n.compare zero != .lt
  | plainCount, .number (.integer i) => 0 ≤ i
  | names, j => isNames j
  | someNames, .array items => !items.isEmpty && isNames (.array items)
  | namesMap, .object fields => fields.all fun f => isNames f.2
  | types, .array items => !items.isEmpty && items.all isTypeName && allDistinct items
  | types, j => isTypeName j
  | array, j => j.isArray
  | distinctArray, .array items => !items.isEmpty && allDistinct items
  | pattern, .string s => (Regex.read? s).isSome
  | identifier, .string s => isIdentifier s.toList
  | anchor, .string s => isAnchor s.toList
  | booleanMap, .object fields => fields.all fun f => isBool f.2
  | _, _ => false

/-! ### Documents -/

/-- In draft 4 a bound is made exclusive only where it is given. -/
def boundsComplete (d : Dialect) (fields : Fields) : Bool :=
  d ≠ .draft4 ||
    ((!Fields.contains "exclusiveMinimum" fields || Fields.contains "minimum" fields) &&
      (!Fields.contains "exclusiveMaximum" fields || Fields.contains "maximum" fields))

mutual
/-- The document is a schema whose keywords all have their form. -/
def wellFormed (d : Dialect) : Json → Bool
  | .bool _ => d.isAfter4
  | .object fields => boundsComplete d fields && wellFormedFields d fields
  | _ => false

def wellFormedFields (d : Dialect) : List (String × Json) → Bool
  | [] => true
  | (keyword, j) :: rest =>
    (match d.form keyword, j with
      | .schema, j => wellFormed d j
      | .schemas, .array items => !items.isEmpty && wellFormedItems d items
      | .schemaMap, .object members => wellFormedMembers d members
      | .patternMap, .object members =>
        members.all (fun m => (Regex.read? m.1).isSome) && wellFormedMembers d members
      | .schemaOrSchemas, .array items => !items.isEmpty && wellFormedItems d items
      | .boolOrSchema, .bool _ => true
      | .schemaOrSchemas, j | .boolOrSchema, j => wellFormed d j
      | .dependencies, .object members => wellFormedDependencies d members
      | form, j => form.plain j) && wellFormedFields d rest

def wellFormedItems (d : Dialect) : List Json → Bool
  | [] => true
  | j :: rest => wellFormed d j && wellFormedItems d rest

def wellFormedMembers (d : Dialect) : List (String × Json) → Bool
  | [] => true
  | (_, j) :: rest => wellFormed d j && wellFormedMembers d rest

def wellFormedDependencies (d : Dialect) : List (String × Json) → Bool
  | [] => true
  | (_, j) :: rest =>
    (match j with
      | .array items => isNames (.array items) && (d ≠ .draft4 || !items.isEmpty)
      | j => wellFormed d j) && wellFormedDependencies d rest
end

end EntityStore.Schema
