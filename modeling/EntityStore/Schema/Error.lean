import EntityStore.Record.Basic

/-! # Why a document or a schema is refused

A `SchemaFault` is a reason not to accept a schema document.  A `Schema.Error` is what validation
answers: a schema that is not there or not acceptable, or everything that is wrong with a
document. -/

namespace EntityStore.Schema

/-- Why a document is no schema. -/
inductive SchemaFault
  /-- It is neither an object nor a boolean. -/
  | wrongKind (kind : String)
  /-- It is not well-formed, or a part of it has no meaning. -/
  | unusable (reason : String)
deriving DecidableEq

def SchemaFault.message : SchemaFault → String
  | wrongKind kind => "schema must be an object or boolean, got " ++ kind
  | unusable reason => reason

inductive Error
  | notFound (name : String)
  | schema (fault : SchemaFault)
  | document (errors : List FieldError)
deriving DecidableEq

def Error.message : Error → String
  | notFound name => "Schema not found: " ++ name
  | schema fault => "Invalid schema: " ++ fault.message
  | document errors => "Validation failed: " ++ FieldError.displayAll errors

end EntityStore.Schema
