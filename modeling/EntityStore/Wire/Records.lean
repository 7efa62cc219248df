import EntityStore.Record.Basic
import EntityStore.Time.Reader
import EntityStore.Wire.Fields

/-! # The written form of records and requests

For each type of record a reader from JSON, which accepts every spelling that a client may use, and
a writer, which gives the one canonical form: an object with all fields, absent values as null.  In
a patch of an entity absent fields are left out, because null would be a value. -/

namespace EntityStore.Wire

open Query (Operator Direction Column Filter Search)
open Time (Instant)

/-! ### Words -/

/-- In a record a word is not spelled by the name that it has elsewhere but by its label: the letters
in lower case, an underscore before each later capital. -/
def wordOf (label : String) : String :=
  String.ofList <| match label.toList with
    | [] => []
    | c :: rest => c.toLower :: rest.flatMap fun c => if c.isUpper then ['_', c.toLower] else [c]

example : wordOf "CreatedAt" = "created_at" := by decide

def operatorLabel : Operator → String
  | .equal => "Eq"
  | .notEqual => "Neq"
  | .greater => "Gt"
  | .greaterEqual => "Gte"
  | .less => "Lt"
  | .lessEqual => "Lte"
  | .contains => "Contains"
  | .present => "Exists"
  | .among => "In"

def operatorWord (o : Operator) : String := wordOf (operatorLabel o)

def operatorOfWord? (word : String) : Option Operator :=
  Operator.all.find? fun o => operatorWord o = word

/-- Both spellings of an operator are the same. -/
theorem operatorWord_eq_name (o : Operator) : operatorWord o = o.name := by
  cases o <;> decide

theorem operatorOfWord?_eq_ofName? (word : String) : operatorOfWord? word = Operator.ofName? word := by
  simp only [operatorOfWord?, Operator.ofName?, operatorWord_eq_name]

def directionLabel : Direction → String
  | .ascending => "Asc"
  | .descending => "Desc"

def directionWord (d : Direction) : String := wordOf (directionLabel d)

theorem directionWord_eq_name (d : Direction) : directionWord d = d.name := by
  cases d <;> decide

/-- A second word that is read, and never written. -/
def directionAlias : Direction → String
  | .ascending => "ASC"
  | .descending => "DESC"

def directionOfWord? (word : String) : Option Direction :=
  [.ascending, .descending].find? fun d => word = directionWord d ∨ word = directionAlias d

def columnLabel : Column → String
  | .createdAt => "CreatedAt"
  | .updatedAt => "UpdatedAt"
  | .identifier => "Identifier"
  | .title => "Title"

def columnWord (c : Column) : String := wordOf (columnLabel c)

theorem columnWord_eq_name (c : Column) : columnWord c = c.name := by
  cases c <;> decide

def columnOfWord? (word : String) : Option Column := Column.all.find? fun c => columnWord c = word

def readOperator? : Json → Option Operator := readWord? operatorOfWord?

def readDirection? : Json → Option Direction := readWord? directionOfWord?

def readColumn? : Json → Option Column := readWord? columnOfWord?

def ofOperator (o : Operator) : Json := .string (operatorWord o)

def ofDirection (d : Direction) : Json := .string (directionWord d)

def ofColumn (c : Column) : Json := .string (columnWord c)

/-! ### Instants -/

def readInstant? : Json → Option Instant
  | .string s => Time.readField? s
  | _ => none

def ofInstant (i : Instant) : Json := .string i.shown

/-! ### Searches -/

def readFilter? (j : Json) : Option Filter := do
  match ← slots? [⟨"property", false⟩, ⟨"operator", false⟩, ⟨"value", true⟩] j with
  | [property, operator, value] =>
    return ⟨← required readString? property, ← required readOperator? operator,
      ← orElse .null readAny? value⟩
  | _ => none

def ofFilter (f : Filter) : Json :=
  .object [("operator", ofOperator f.operator), ("property", .string f.property),
    ("value", f.value)]

def readSearch? (j : Json) : Option Search := do
  match ← slots? [⟨"blueprint_id", false⟩, ⟨"filters", true⟩, ⟨"order_by", true⟩,
      ⟨"order_dir", true⟩, ⟨"limit", true⟩, ⟨"offset", true⟩] j with
  | [blueprint, filters, orderBy, direction, limit, offset] =>
    return ⟨← required readString? blueprint, ← orElse [] (readList? readFilter?) filters,
      ← optional readString? orderBy, ← optional readDirection? direction,
      ← optional readInt64? limit, ← optional readInt64? offset⟩
  | _ => none

def ofInt64 (i : Int64) : Json := .number (.integer i.toInt)

def ofSearch (s : Search) : Json :=
  .object [("blueprint_id", .string s.blueprint), ("filters", .array (s.filters.map ofFilter)),
    ("limit", optionalValue ofInt64 s.limit), ("offset", optionalValue ofInt64 s.offset),
    ("order_by", optionalValue .string s.orderBy),
    ("order_dir", optionalValue ofDirection s.direction)]

/-! ### Drafts and patches -/

def readEntityDraft? (j : Json) : Option EntityDraft := do
  match ← slots? [⟨"blueprint_id", false⟩, ⟨"identifier", false⟩, ⟨"title", true⟩,
      ⟨"data", true⟩] j with
  | [blueprint, identifier, title, data] =>
    return ⟨← required readString? blueprint, ← required readString? identifier,
      ← optional readString? title, ← orElse (.object []) readAny? data⟩
  | _ => none

def ofEntityDraft (d : EntityDraft) : Json :=
  .object [("blueprint_id", .string d.blueprint), ("data", d.data),
    ("identifier", .string d.identifier), ("title", optionalValue .string d.title)]

def readEntityPatch? (j : Json) : Option EntityPatch := do
  match ← slots? [⟨"title", true⟩, ⟨"data", true⟩] j with
  | [title, data] => return ⟨← optional readString? title, ← optional readAny? data⟩
  | _ => none

/-- A field of an object that is left out when it is absent. -/
def presentField (name : String) : Option Json → Fields
  | none => []
  | some j => [(name, j)]

def ofEntityPatch (p : EntityPatch) : Json :=
  .object (presentField "data" p.data ++ presentField "title" (p.title.map .string))

def readBlueprintDraft? (j : Json) : Option BlueprintDraft := do
  match ← slots? [⟨"id", false⟩, ⟨"title", false⟩, ⟨"description", true⟩, ⟨"schema", true⟩] j with
  | [id, title, description, schema] =>
    return ⟨← required readString? id, ← required readString? title,
      ← optional readString? description, ← orElse (.object []) readAny? schema⟩
  | _ => none

def ofBlueprintDraft (d : BlueprintDraft) : Json :=
  .object [("description", optionalValue .string d.description), ("id", .string d.id),
    ("schema", d.schema), ("title", .string d.title)]

/-- Only the fields that are to change; a cleared description is null. -/
def ofBlueprintPatch (p : BlueprintPatch) : Json :=
  .object (presentField "description" (p.description.map (optionalValue .string)) ++
    presentField "schema" p.schema ++ presentField "title" (p.title.map .string))

/-! ### Records -/

def readEntity? (j : Json) : Option Entity := do
  match ← slots? [⟨"id", false⟩, ⟨"tenant_id", false⟩, ⟨"blueprint_id", false⟩,
      ⟨"identifier", false⟩, ⟨"title", false⟩, ⟨"data", false⟩, ⟨"created_at", false⟩,
      ⟨"updated_at", false⟩] j with
  | [id, tenant, blueprint, identifier, title, data, created, updated] =>
    return ⟨← required readString? id, ← required readString? tenant,
      ← required readString? blueprint, ← required readString? identifier,
      ← optional readString? title, ← required readAny? data, ← required readInstant? created,
      ← required readInstant? updated⟩
  | _ => none

def ofEntity (e : Entity) : Json :=
  .object [("blueprint_id", .string e.blueprint), ("created_at", ofInstant e.created),
    ("data", e.data), ("id", .string e.id), ("identifier", .string e.identifier),
    ("tenant_id", .string e.tenant), ("title", optionalValue .string e.title),
    ("updated_at", ofInstant e.updated)]

def readBlueprint? (j : Json) : Option Blueprint := do
  match ← slots? [⟨"tenant_id", false⟩, ⟨"id", false⟩, ⟨"title", false⟩, ⟨"description", false⟩,
      ⟨"schema", false⟩, ⟨"created_at", false⟩, ⟨"updated_at", false⟩] j with
  | [tenant, id, title, description, schema, created, updated] =>
    return ⟨← required readString? tenant, ← required readString? id,
      ← required readString? title, ← optional readString? description,
      ← required readAny? schema, ← required readInstant? created,
      ← required readInstant? updated⟩
  | _ => none

def ofBlueprint (b : Blueprint) : Json :=
  .object [("created_at", ofInstant b.created),
    ("description", optionalValue .string b.description), ("id", .string b.id),
    ("schema", b.schema), ("tenant_id", .string b.tenant), ("title", .string b.title),
    ("updated_at", ofInstant b.updated)]

def readEntityPage? (j : Json) : Option EntityPage := do
  match ← slots? [⟨"items", false⟩, ⟨"total", false⟩, ⟨"limit", false⟩, ⟨"offset", false⟩] j with
  | [items, total, limit, offset] =>
    return ⟨← required (readList? readEntity?) items, ← required (readNatural? unsignedBound) total,
      ← required (readNatural? halfBound) limit, ← required (readNatural? unsignedBound) offset⟩
  | _ => none

def ofEntityPage (p : EntityPage) : Json :=
  .object [("items", .array (p.items.map ofEntity)), ("limit", natural p.limit),
    ("offset", natural p.offset), ("total", natural p.total)]

/-! ### Errors and tenants -/

def readFieldError? (j : Json) : Option FieldError := do
  match ← slots? [⟨"field_path", false⟩, ⟨"message", false⟩] j with
  | [path, message] => return ⟨← required readString? path, ← required readString? message⟩
  | _ => none

def ofFieldError (e : FieldError) : Json :=
  .object [("field_path", .string e.path), ("message", .string e.message)]

def readTenant? (j : Json) : Option Tenant := do
  match ← slots? [⟨"tenant_id", false⟩] j with
  | [id] => return ⟨← required readString? id⟩
  | _ => none

def ofTenant (t : Tenant) : Json := .object [("tenant_id", .string t.id)]

end EntityStore.Wire
