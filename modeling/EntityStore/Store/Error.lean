import EntityStore.Query.Error
import EntityStore.Schema.Error
import EntityStore.Time.Duration

/-! # What can go wrong in the store

A `StoreError` is the outcome of an operation that was refused.  All of them are the caller's doing
except `internal`, which carries a `DatabaseError`: the database failed, or what it holds cannot be
used. -/

namespace EntityStore.Store

inductive DatabaseError
  /-- A statement failed, or a stored value cannot be read. -/
  | query (reason : String)
  /-- The tables could not be set up. -/
  | migration (reason : String)
  | noResult
  /-- What is stored cannot be right. -/
  | invalidState (reason : String)
  | timeout (after : Time.Duration)
  /-- A failure that the database engine reports. -/
  | engine (message : String)
deriving DecidableEq

inductive StoreError
  | blueprintNotFound (id : String)
  | blueprintExists (id : String)
  | entityNotFound (id : String)
  | identifierTaken (blueprint identifier : String)
  | validation (errors : List FieldError)
  | filter (error : Query.Error)
  | schema (fault : Schema.SchemaFault)
  | internal (error : DatabaseError)
deriving DecidableEq

/-! ### Messages -/

namespace DatabaseError

def message : DatabaseError → String
  | query reason => "Query failed: " ++ reason
  | migration reason => "Migration failed: " ++ reason
  | noResult => "No result returned"
  | invalidState reason => "Invalid state: " ++ reason
  | timeout after => "Statement timed out after " ++ after.text
  | engine text => "libSQL error: SQLite failure: `" ++ text ++ "`"

end DatabaseError

namespace StoreError

def message : StoreError → String
  | blueprintNotFound id => "Blueprint not found: " ++ id
  | blueprintExists id => "Blueprint already exists: " ++ id
  | entityNotFound id => "Entity not found: " ++ id
  | identifierTaken blueprint identifier =>
    "Entity already exists: " ++ blueprint ++ "/" ++ identifier
  | validation errors => "Validation failed: " ++ FieldError.displayAll errors
  | filter error => "Invalid filter: " ++ error.message
  | schema fault => "Invalid schema: " ++ fault.message
  | internal error => error.message

/-- The request is at fault, not the store. -/
def isClientError : StoreError → Bool
  | internal _ => false
  | _ => true

/-- What validation of a document answers, in an operation that uses a stored schema: a schema that
is not acceptable was accepted before, so the store is at fault. -/
def ofSchemaError : Schema.Error → StoreError
  | .document errors => validation errors
  | .schema fault =>
    internal (.invalidState ("stored blueprint schema does not compile: " ++ fault.message))
  | .notFound name => internal (.invalidState ("unknown schema " ++ name))

/-- One field of a request is wrong. -/
def field (path message : String) : StoreError := validation [⟨path, message⟩]

end StoreError

/-! ### Engine failures -/

/-- The text contains the words. -/
def mentions (words : List Char) : List Char → Bool
  | [] => words.isEmpty
  | c :: rest => words.isPrefixOf (c :: rest) || mentions words rest

/-- The engine reports that a key is taken. -/
def isUniqueViolation (message : String) : Bool :=
  mentions "UNIQUE constraint failed".toList message.toList ||
    mentions "PRIMARY KEY constraint failed".toList message.toList

/-- The engine reports a condition that clears on its own. -/
def isTransient (message : String) : Bool :=
  mentions "unable to acquire shared lock".toList message.toList ||
    mentions "deletion must be in progress".toList message.toList ||
    mentions "database is locked".toList message.toList

/-- The error is a taken key. -/
def DatabaseError.isUniqueViolation : DatabaseError → Bool
  | engine message => Store.isUniqueViolation message
  | _ => false

/-- The error clears on its own. -/
def DatabaseError.isTransient : DatabaseError → Bool
  | engine message => Store.isTransient message
  | _ => false

end EntityStore.Store
