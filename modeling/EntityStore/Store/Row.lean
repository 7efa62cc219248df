import EntityStore.Json.Printer
import EntityStore.Store.Table
import EntityStore.Time.Reader

/-! # Rows and records

Writing a record to a row and reading it back.  A column keeps every character of a text, but is
read only up to the first NUL.  A text that is empty reads as absent where absence is possible.  A
row that was not written by the store may hold a document or an instant that cannot be read; reading
it is an error.

`BlueprintInput` and `EntityInput` are rows as they are given from outside: every column may be
missing, and a JSON column is text. -/

namespace EntityStore.Store

open Time (Instant)

/-! ### Reading -/

/-- A text ends at its first NUL when it is read. -/
def readText (text : String) : String := String.ofList (Text.untilNul text.toList)

theorem readText_eq_self {text : String} (h : ∀ c ∈ text.toList, c.toNat ≠ 0) :
    readText text = text := by
  rw [readText, Text.untilNul_eq_self h, String.ofList_toList]

variable [FloatReader]

def readDocument (s : Source) : Except DatabaseError Json :=
  match Json.ofSource? s with
  | some j => .ok j
  | none => .error (.query "Invalid JSON in column")

def readInstant (text : String) : Except DatabaseError Instant :=
  match Time.readStored? (readText text) with
  | some i => .ok i
  | none => .error (.query ("Failed to parse datetime '" ++ readText text ++ "'"))

/-- The id of an entity, which a row from outside may be without. -/
def readId : Option String → Except DatabaseError String
  | some id => .ok (readText id)
  | none => .error (.engine "unexpected null value")

/-- An optional text; the empty text is absent. -/
def readOptional (text : Option String) : Option String := (text.map readText).filter (· ≠ "")

namespace BlueprintRow

def read (r : BlueprintRow) : Except DatabaseError Blueprint := do
  let schema ← readDocument r.schema
  let created ← readInstant r.created
  let updated ← readInstant r.updated
  return ⟨readText r.tenant, readText r.id, readText r.title, readOptional r.description, schema,
    created, updated⟩

/-- The row of a blueprint. -/
def ofBlueprint (b : Blueprint) : BlueprintRow :=
  ⟨b.tenant, b.id, b.title, b.description, b.schema.source, b.created.stored, b.updated.stored⟩

end BlueprintRow

namespace EntityRow

def read (r : EntityRow) : Except DatabaseError Entity := do
  let id ← readId r.id
  let data ← readDocument r.data
  let created ← readInstant r.created
  let updated ← readInstant r.updated
  return ⟨id, readText r.tenant, readText r.blueprint, readText r.identifier, readOptional r.title,
    data, created, updated⟩

/-- The row of an entity. -/
def ofEntity (e : Entity) : EntityRow :=
  ⟨some e.id, e.tenant, e.blueprint, e.identifier, e.title, e.data.source, e.created.stored,
    e.updated.stored⟩

end EntityRow

/-- The records of rows, or the error of the first one that cannot be read. -/
def readBlueprints : List BlueprintRow → Except DatabaseError (List Blueprint)
  | [] => .ok []
  | r :: rest => do
    let b ← r.read
    let bs ← readBlueprints rest
    return b :: bs

def readEntities : List EntityRow → Except DatabaseError (List Entity)
  | [] => .ok []
  | r :: rest => do
    let e ← r.read
    let es ← readEntities rest
    return e :: es

/-! ### Rows from outside -/

structure BlueprintInput where
  id : Option String
  title : Option String
  description : Option String
  schema : Option String
  created : Option String
  updated : Option String

structure EntityInput where
  id : Option String
  blueprint : Option String
  identifier : Option String
  title : Option String
  data : Option String
  created : Option String
  updated : Option String

/-- A column that may not be missing. -/
def needed (column : String) : Option String → Except Constraint String
  | some text => .ok text
  | none => .error (.missingColumn column)

/-- A column that has to hold a document. -/
def neededDocument (column text : String) : Except Constraint Source :=
  match Sql.readDocument? text.toList with
  | some s => .ok s
  | none => .error (.invalidDocument column)

def BlueprintInput.row (i : BlueprintInput) (tenant : String) : Except Constraint BlueprintRow := do
  let id ← needed "id" i.id
  let title ← needed "title" i.title
  let schema ← needed "schema" i.schema
  let created ← needed "created_at" i.created
  let updated ← needed "updated_at" i.updated
  let schema ← neededDocument "schema" schema
  return ⟨tenant, id, title, i.description, schema, created, updated⟩

def EntityInput.row (i : EntityInput) (tenant : String) : Except Constraint EntityRow := do
  let blueprint ← needed "blueprint_id" i.blueprint
  let identifier ← needed "identifier" i.identifier
  let data ← needed "data" i.data
  let created ← needed "created_at" i.created
  let updated ← needed "updated_at" i.updated
  let data ← neededDocument "data" data
  return ⟨i.id, tenant, blueprint, identifier, i.title, data, created, updated⟩

end EntityStore.Store
