import EntityStore.Record.Basic
import EntityStore.Sql.Document
import EntityStore.Store.Error

/-! # Tables

The store keeps blueprints and entities in two tables.  A column of JSON text is kept as its syntax
tree, an instant as its text.  `insertBlueprint`, `insertEntity` and `writeEntity` refuse a row that
breaks a constraint: a column of JSON text holds a document, keys are unique and an entity belongs to
a blueprint of its tenant.  Deleting a blueprint deletes its entities. -/

namespace EntityStore.Store

structure BlueprintRow where
  tenant : String
  id : String
  title : String
  description : Option String
  schema : Source
  created : String
  updated : String

structure EntityRow where
  /-- Rows that the store writes have one; a row from outside can go without. -/
  id : Option String
  tenant : String
  blueprint : String
  identifier : String
  title : Option String
  data : Source
  created : String
  updated : String

structure Tables where
  blueprints : List BlueprintRow
  entities : List EntityRow

def Tables.empty : Tables := ⟨[], []⟩

/-- Why a row is not inserted. -/
inductive Constraint
  | missingColumn (column : String)
  | invalidDocument (column : String)
  | keyTaken (key : String)
  | noBlueprint
deriving DecidableEq

/-- How the engine reports it. -/
def Constraint.message : Constraint → String
  | missingColumn column => "NOT NULL constraint failed: " ++ column
  | invalidDocument column => "CHECK constraint failed: json_valid(" ++ column ++ ")"
  | keyTaken key => "UNIQUE constraint failed: " ++ key
  | noBlueprint => "FOREIGN KEY constraint failed"

def Constraint.databaseError (c : Constraint) : DatabaseError := .engine c.message

namespace BlueprintRow

/-- The row of that tenant and id. -/
def isAt (tenant id : String) (r : BlueprintRow) : Bool := r.tenant = tenant && r.id = id

end BlueprintRow

namespace EntityRow

/-- The row of that tenant and id. -/
def isAt (tenant id : String) (r : EntityRow) : Bool := r.tenant = tenant && r.id = some id

/-- The row belongs to that blueprint. -/
def isOf (tenant blueprint : String) (r : EntityRow) : Bool :=
  r.tenant = tenant && r.blueprint = blueprint

/-- The row of that blueprint and identifier. -/
def isNamed (tenant blueprint identifier : String) (r : EntityRow) : Bool :=
  r.isOf tenant blueprint && r.identifier = identifier

end EntityRow

namespace Tables

/-! ### Looking up -/

def blueprint? (t : Tables) (tenant id : String) : Option BlueprintRow :=
  t.blueprints.find? (·.isAt tenant id)

def entity? (t : Tables) (tenant id : String) : Option EntityRow :=
  t.entities.find? (·.isAt tenant id)

def entityNamed? (t : Tables) (tenant blueprint identifier : String) : Option EntityRow :=
  t.entities.find? (·.isNamed tenant blueprint identifier)

/-- The entities of a blueprint. -/
def entitiesOf (t : Tables) (tenant blueprint : String) : List EntityRow :=
  t.entities.filter (·.isOf tenant blueprint)

/-! ### Changing -/

def insertBlueprint (t : Tables) (r : BlueprintRow) : Except Constraint Tables :=
  if !Sql.isDocument r.schema then .error (.invalidDocument "schema")
  else if (t.blueprint? r.tenant r.id).isSome then
    .error (.keyTaken "blueprints.tenant_id, blueprints.id")
  else .ok ⟨t.blueprints ++ [r], t.entities⟩

def insertEntity (t : Tables) (r : EntityRow) : Except Constraint Tables :=
  if !Sql.isDocument r.data then .error (.invalidDocument "data")
  else if r.id.isSome && t.entities.any (·.id = r.id) then .error (.keyTaken "entities.id")
  else if (t.entityNamed? r.tenant r.blueprint r.identifier).isSome then
    .error (.keyTaken "entities.tenant_id, entities.blueprint_id, entities.identifier")
  else if (t.blueprint? r.tenant r.blueprint).isNone then .error .noBlueprint
  else .ok ⟨t.blueprints, t.entities ++ [r]⟩

def updateBlueprint (t : Tables) (tenant id : String) (f : BlueprintRow → BlueprintRow) :
    Tables :=
  ⟨t.blueprints.map fun r => if r.isAt tenant id then f r else r, t.entities⟩

def updateEntity (t : Tables) (tenant id : String) (f : EntityRow → EntityRow) : Tables :=
  ⟨t.blueprints, t.entities.map fun r => if r.isAt tenant id then f r else r⟩

/-- Update an entity if it then holds a document. -/
def writeEntity (t : Tables) (tenant id : String) (f : EntityRow → EntityRow) :
    Except Constraint Tables :=
  if t.entities.any fun r => r.isAt tenant id && !Sql.isDocument (f r).data then
    .error (.invalidDocument "data")
  else .ok (t.updateEntity tenant id f)

/-- The blueprint is deleted and with it its entities. -/
def deleteBlueprint (t : Tables) (tenant id : String) : Tables :=
  ⟨t.blueprints.filter fun r => !r.isAt tenant id, t.entities.filter fun r => !r.isOf tenant id⟩

def deleteEntity (t : Tables) (tenant id : String) : Tables :=
  ⟨t.blueprints, t.entities.filter fun r => !r.isAt tenant id⟩

end Tables
end EntityStore.Store
