import EntityStore.Schema.Error
import EntityStore.Schema.Presence
import EntityStore.Schema.Reference

/-! # Validating documents

`Validator.ofJson` accepts a schema document or says why it is none, and `Validator.errors` lists
what is wrong with a document.  `validate` puts both together in two modes: the full one takes the
schema as it is, the lenient one without its demands that something be present.  An absent or empty
schema accepts every document. -/

namespace EntityStore.Schema

/-- A schema document that has been accepted. -/
structure Validator where
  dialect : Dialect
  root : Json
  schema : Compiled
  /-- All references that can be followed. -/
  references : List String

/-- Which demands of a schema count. -/
inductive Mode
  | full
  | lenient
deriving DecidableEq

/-! ### Accepting schemas -/

/-- The meaning of a document of a dialect: it is well-formed and so is all that it refers to. -/
def Validator.compile? (root : Json) : Option Validator := do
  let d ← Dialect.of? root
  if wellFormed d root then
    let s ← Compiled.ofJson? d root
    let references ← reached? (target? d root) (writtenReferences root).length [] s.references
    return ⟨d, root, s, references⟩
  else none

def Validator.ofJson (schema : Json) : Except SchemaFault Validator :=
  match schema with
  | .object _ | .bool _ =>
    match compile? schema with
    | some v => .ok v
    | none => .error (.unusable "the schema is not well-formed or refers to no schema")
  | j => .error (.wrongKind j.kindName)

/-! ### Judging documents -/

/-- How many references can follow one another on the way through a document: at each level every
reference at most once. -/
def Validator.referenceFuel (v : Validator) (document : Json) : Nat :=
  v.references.length * (document.depth + 2) + 1

def Validator.violations (v : Validator) (document : Json) : List Violation :=
  v.schema.violations
    (Compiled.followWithin (target? v.dialect v.root) (v.referenceFuel document)) document []

/-- What is wrong with a document. -/
def Validator.errors (v : Validator) (document : Json) : List FieldError :=
  (v.violations document).map (Violation.fieldError document)

/-- An absent or empty schema. -/
def isUnconstrained : Json → Bool
  | .null | .bool true | .object [] => true
  | _ => false

/-- The schema that counts in a mode. -/
def Mode.schema (m : Mode) (schema : Json) : Json :=
  match m with
  | full => schema
  | lenient => stripRequired schema

/-- A document meets a schema, or everything that is wrong with it. -/
def validate (mode : Mode) (schema document : Json) : Except Error Unit :=
  if isUnconstrained schema then .ok ()
  else
    match Validator.ofJson (mode.schema schema) with
    | .error fault => .error (.schema fault)
    | .ok v =>
      match v.errors document with
      | [] => .ok ()
      | errors => .error (.document errors)

/-- A schema can be used. -/
def checkSchema (schema : Json) : Except SchemaFault Unit :=
  if isUnconstrained schema then .ok ()
  else
    match Validator.ofJson schema with
    | .error fault => .error fault
    | .ok _ => .ok ()

end EntityStore.Schema
