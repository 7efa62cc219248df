import EntityStore.Query.Plan
import EntityStore.Time.Instant

/-! # Records and requests

A tenant owns blueprints, and a blueprint the entities that were created under it.  A draft is what
a new record is made from, a patch what is to change in an existing one.  A `FieldError` says what
is wrong at a place of a document. -/

namespace EntityStore

open Time (Instant)

structure Tenant where
  id : String
deriving DecidableEq

/-- A kind of entity, defined by its owner at run time. -/
structure Blueprint where
  tenant : String
  id : String
  title : String
  description : Option String
  schema : Json
  created : Instant
  updated : Instant
deriving DecidableEq

/-- A document that met the schema of its blueprint when it was written. -/
structure Entity where
  id : String
  tenant : String
  blueprint : String
  identifier : String
  title : Option String
  data : Json
  created : Instant
  updated : Instant
deriving DecidableEq

structure BlueprintDraft where
  id : String
  title : String
  description : Option String
  schema : Json
deriving DecidableEq

/-- The fields of a blueprint that are to change; a description of `some none` clears it. -/
structure BlueprintPatch where
  title : Option String
  description : Option (Option String)
  schema : Option Json
deriving DecidableEq

def BlueprintPatch.isEmpty (p : BlueprintPatch) : Bool :=
  p.title.isNone && p.description.isNone && p.schema.isNone

structure EntityDraft where
  blueprint : String
  identifier : String
  title : Option String
  data : Json
deriving DecidableEq

/-- The fields of an entity that are to change; the data is laid over the stored data. -/
structure EntityPatch where
  title : Option String
  data : Option Json
deriving DecidableEq

/-- A page of search results; `total` counts the results on all pages. -/
structure EntityPage where
  items : List Entity
  total : Nat
  limit : Nat
  offset : Nat
deriving DecidableEq

/-- What is wrong at a place of a document. -/
structure FieldError where
  path : String
  message : String
deriving DecidableEq

namespace FieldError

/-- The path of a whole document. -/
def rootPath : String := "$"

def display (e : FieldError) : String := e.path ++ ": " ++ e.message

/-- Several errors in one line. -/
def displayAll (errors : List FieldError) : String :=
  String.intercalate "; " (errors.map display)

/-- By path, then by message, both in byte order. -/
def le (a b : FieldError) : Bool := a.path < b.path || (a.path = b.path && a.message ≤ b.message)

/-- The errors in the order of `le`. -/
def sort (errors : List FieldError) : List FieldError := errors.mergeSort le

end FieldError
end EntityStore
