import EntityStore.Schema.Validator
import EntityStore.Store.Assignment
import EntityStore.Store.Search

/-! # The operations of the store

Every operation is done for a tenant and sees nothing but that tenant's rows.  An operation that can
change the tables is an `Action`: it answers a result and the tables afterwards.  The time of a call
and the id of a new entity are given to it. -/

namespace EntityStore.Store

open Time (Instant)

variable [FloatReader]

/-- Who calls, and when. -/
structure Call where
  tenant : String
  now : Instant
deriving DecidableEq

/-- The time that is written into rows. -/
def Call.time (c : Call) : Instant := c.now.toMicros

/-- An operation on the tables. -/
abbrev Action (α : Type) := Tables → Except StoreError α × Tables

/-- A refused operation. -/
def refuse {α : Type} (e : StoreError) : Action α := fun t => (.error e, t)

/-- A new id of a kind of record, from 64 random bits. -/
def generatedId (kind : String) (random : Nat) : String :=
  kind ++ "-" ++ String.ofList (Text.hexPadded 16 random)

/-- The id of a new entity. -/
def entityId (random : Nat) : String := generatedId "ent" random

/-! ### Blueprints -/

/-- The schema of a blueprint, as it is stored. -/
def schemaOf? (tenant id : String) (t : Tables) : Except DatabaseError (Option Json) :=
  match t.blueprint? tenant id with
  | none => .ok none
  | some r => (readDocument r.schema).map some

/-- The schema that entities of a blueprint are held to. -/
def requireSchema (tenant id : String) (t : Tables) : Except StoreError Json :=
  match schemaOf? tenant id t with
  | .error e => .error (.internal e)
  | .ok none => .error (.blueprintNotFound id)
  | .ok (some schema) => .ok schema

def getBlueprint (tenant id : String) (t : Tables) : Except StoreError Blueprint :=
  match t.blueprint? tenant id with
  | none => .error (.blueprintNotFound id)
  | some r =>
    match r.read with
    | .error e => .error (.internal e)
    | .ok b => .ok b

/-- The blueprints of a tenant, by id. -/
def listBlueprints (tenant : String) (t : Tables) : Except StoreError (List Blueprint) :=
  let rows := (t.blueprints.filter (·.tenant = tenant)).mergeSort (fun a b => a.id ≤ b.id)
  match readBlueprints rows with
  | .error e => .error (.internal e)
  | .ok bs => .ok bs

/-- A new blueprint: its id is not blank, its schema can be used, and the id is not taken. -/
def createBlueprint (call : Call) (draft : BlueprintDraft) : Action Blueprint := fun t =>
  if Text.allBlank draft.id then refuse (.field "id" "must not be empty") t
  else
    match Schema.checkSchema draft.schema with
    | .error fault => refuse (.schema fault) t
    | .ok () =>
      let b : Blueprint := ⟨call.tenant, draft.id, draft.title, draft.description, draft.schema,
        call.time, call.time⟩
      match t.insertBlueprint (.ofBlueprint b) with
      | .ok t => (.ok b, t)
      | .error (.keyTaken _) => refuse (.blueprintExists draft.id) t
      | .error c => refuse (.internal c.databaseError) t

/-- Change the given fields of a blueprint; a patch without fields changes nothing.  Entities are
not held to the new schema. -/
def updateBlueprint (call : Call) (id : String) (patch : BlueprintPatch) : Action Blueprint :=
  fun t =>
  if patch.isEmpty then (getBlueprint call.tenant id t, t)
  else
    match patch.schema.elim (.ok ()) Schema.checkSchema with
    | .error fault => refuse (.schema fault) t
    | .ok () =>
      match (BlueprintPatch.statement patch call.time call.tenant id).run t with
      | .error c => refuse (.internal c.databaseError) t
      | .ok (changed, t) =>
        if changed = 0 then refuse (.blueprintNotFound id) t
        else (getBlueprint call.tenant id t, t)

/-- Delete a blueprint and its entities. -/
def deleteBlueprint (call : Call) (id : String) : Action Unit := fun t =>
  if (t.blueprint? call.tenant id).isNone then refuse (.blueprintNotFound id) t
  else (.ok (), t.deleteBlueprint call.tenant id)

/-! ### Entities -/

/-- The document has to meet the schema. -/
def requireValid (mode : Schema.Mode) (schema data : Json) : Except StoreError Unit :=
  match Schema.validate mode schema data with
  | .ok () => .ok ()
  | .error e => .error (.ofSchemaError e)

def notObject : StoreError := .field "data" "must be a JSON object"

/-- What is checked before an entity is created: its blueprint, its identifier, its data, and that
the identifier is free. -/
def checkDraft (tenant : String) (draft : EntityDraft) (t : Tables) : Except StoreError Unit :=
  match requireSchema tenant draft.blueprint t with
  | .error e => .error e
  | .ok schema =>
    if Text.allBlank draft.identifier then .error (.field "identifier" "must not be empty")
    else if !draft.data.isObject then .error notObject
    else
      match requireValid .full schema draft.data with
      | .error e => .error e
      | .ok () =>
        if (t.entityNamed? tenant draft.blueprint draft.identifier).isSome then
          .error (.identifierTaken draft.blueprint draft.identifier)
        else .ok ()

/-- A new entity under the given id. -/
def createEntity (call : Call) (id : String) (draft : EntityDraft) : Action Entity := fun t =>
  match checkDraft call.tenant draft t with
  | .error e => refuse e t
  | .ok () =>
    let e : Entity := ⟨id, call.tenant, draft.blueprint, draft.identifier, draft.title, draft.data,
      call.time, call.time⟩
    match t.insertEntity (.ofEntity e) with
    | .ok t => (.ok e, t)
    | .error (.keyTaken _) => refuse (.identifierTaken draft.blueprint draft.identifier) t
    | .error c => refuse (.internal c.databaseError) t

def readEntity (missing : StoreError) : Option EntityRow → Except StoreError Entity
  | none => .error missing
  | some r =>
    match r.read with
    | .error e => .error (.internal e)
    | .ok e => .ok e

def getEntity (tenant id : String) (t : Tables) : Except StoreError Entity :=
  readEntity (.entityNotFound id) (t.entity? tenant id)

def getEntityNamed (tenant blueprint identifier : String) (t : Tables) :
    Except StoreError Entity :=
  readEntity (.entityNotFound (blueprint ++ "/" ++ identifier))
    (t.entityNamed? tenant blueprint identifier)

/-- The fields of a document overlaid with those of a patch; a document that is no object is
replaced. -/
def mergeData (base : Json) (patch : Fields) : Json :=
  match base with
  | .object fields => .object (Fields.merge fields patch)
  | _ => .object (Fields.merge [] patch)

/-- The data of an entity after a patch, which the current schema of its blueprint has to accept
apart from what is missing. -/
def patchedData (tenant : String) (e : Entity) (patch : Option Json) (t : Tables) :
    Except StoreError Json :=
  match patch with
  | none => .ok e.data
  | some (.object fields) =>
    let data := mergeData e.data fields
    match requireSchema tenant e.blueprint t with
    | .error e => .error e
    | .ok schema => (requireValid .lenient schema data).map fun _ => data
  | some _ => .error notObject

/-- Lay the data of a patch over the stored data and replace the title.  Without data nothing is
validated. -/
def updateEntity (call : Call) (id : String) (patch : EntityPatch) : Action Entity := fun t =>
  match getEntity call.tenant id t with
  | .error e => refuse e t
  | .ok e =>
    match patchedData call.tenant e patch.data t with
    | .error e => refuse e t
    | .ok data =>
      let e : Entity := { e with data, title := patch.title.or e.title, updated := call.time }
      let write (r : EntityRow) : EntityRow :=
        { r with title := e.title, data := e.data.source, updated := e.updated.stored }
      match t.writeEntity call.tenant id write with
      | .ok t => (.ok e, t)
      | .error c => refuse (.internal c.databaseError) t

def deleteEntity (call : Call) (id : String) : Action Unit := fun t =>
  if (t.entity? call.tenant id).isNone then refuse (.entityNotFound id) t
  else (.ok (), t.deleteEntity call.tenant id)

/-! ### Rows from outside -/

/-- Insert a row as it is, past all checks but the constraints of the table. -/
def putBlueprint (tenant : String) (input : BlueprintInput) (t : Tables) :
    Except Constraint Tables := do
  let r ← input.row tenant
  t.insertBlueprint r

def putEntity (tenant : String) (input : EntityInput) (t : Tables) : Except Constraint Tables := do
  let r ← input.row tenant
  t.insertEntity r

end EntityStore.Store
