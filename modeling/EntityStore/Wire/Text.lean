import EntityStore.Json.Reader

/-! # Reading records from text

A client may send fields that a record does not declare.  In a text such a field is only held to the
grammar: its value may be nested deeper, hold larger numbers or stranger escapes than a value that is
used.  `Shape` says where a record declares fields, and `readText?` reads a text with all other
fields emptied. -/

namespace EntityStore.Wire

/-- Where a value has fields of which only some are used. -/
inductive Shape
  /-- All of the value is used. -/
  | value
  | record (fields : List (String × Shape))
  | list (item : Shape)

namespace Shape

/-- The shape of a declared field. -/
def field? (name : String) : List (String × Shape) → Option Shape
  | [] => none
  | (n, shape) :: rest => if n = name then some shape else field? name rest

/-- A record whose fields are used as they are. -/
def flat (names : List String) : Shape := record (names.map (·, value))

def filter : Shape := flat ["property", "operator", "value"]

def search : Shape :=
  record [("blueprint_id", value), ("filters", list filter), ("order_by", value),
    ("order_dir", value), ("limit", value), ("offset", value)]

def entityDraft : Shape := flat ["blueprint_id", "identifier", "title", "data"]

def entityPatch : Shape := flat ["title", "data"]

def blueprintDraft : Shape := flat ["id", "title", "description", "schema"]

def entity : Shape :=
  flat ["id", "tenant_id", "blueprint_id", "identifier", "title", "data", "created_at",
    "updated_at"]

def blueprint : Shape :=
  flat ["tenant_id", "id", "title", "description", "schema", "created_at", "updated_at"]

def entityPage : Shape :=
  record [("items", list entity), ("total", value), ("limit", value), ("offset", value)]

def fieldError : Shape := flat ["field_path", "message"]

def tenant : Shape := flat ["tenant_id"]

mutual
/-- The tree with null in place of every value that is not used. -/
def restrict : Source → Shape → Source
  | .object fields, record known => .object (restrictFields known fields)
  | .array items, record known => .array (restrictPositions items known)
  | .array items, list item => .array (restrictItems item items)
  | s, _ => s

def restrictFields (known : List (String × Shape)) :
    List (List Char × Source) → List (List Char × Source)
  | [] => []
  | (name, s) :: rest =>
    (name, match Source.string? name with
      | none => s
      | some n =>
        match field? n known with
        | some shape => restrict s shape
        | none => .null) :: restrictFields known rest

def restrictPositions : List Source → List (String × Shape) → List Source
  | [], _ => []
  | s :: rest, [] => s :: rest
  | s :: rest, (_, shape) :: known => restrict s shape :: restrictPositions rest known

def restrictItems (item : Shape) : List Source → List Source
  | [] => []
  | s :: rest => restrict s item :: restrictItems item rest
end

end Shape

/-- The record that a text spells. -/
def readText? [FloatReader] {α : Type} (shape : Shape) (read : Json → Option α) (text : String) :
    Option α := do
  let cs := text.toList
  let s := Shape.restrict (← Source.parse? cs.length cs) shape
  if s.depth ≤ Json.depthLimit then read (← s.value?) else none

end EntityStore.Wire
