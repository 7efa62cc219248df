import EntityStore.Json.Basic
import EntityStore.Schema.Validator

/-! # The schemas of requests and records

`Catalog.schema?` gives the schema document of a written form by name, so that a caller can find out
what is wrong with a request body before it is read.  `Catalog.validate` does this. -/

namespace EntityStore.Wire.Catalog

open Json (ofFields)

/-! ### Fields -/

def text : Json := ofFields [("type", .string "string")]

def nullableText : Json := ofFields [("type", .array [.string "string", .string "null"])]

/-- A field with a default, which makes it optional. -/
def withDefault (default : Json) (j : Json) : Json :=
  match j with
  | .object fields => .object (Fields.insert "default" default fields)
  | _ => ofFields [("default", default)]

/-- Any value. -/
def anything : Json := .bool true

def described (description : String) (j : Json) : Json :=
  match j with
  | .object fields => .object (Fields.insert "description" (.string description) fields)
  | j => j

def timestamp : Json := ofFields [("format", .string "date-time"), ("type", .string "string")]

/-- A natural number of a number format. -/
def natural (format : String) : Json :=
  ofFields [("format", .string format), ("minimum", .number (.integer 0)),
    ("type", .string "integer")]

def nullableInteger : Json :=
  ofFields [("format", .string "int64"), ("type", .array [.string "integer", .string "null"])]

def listOf (items : Json) : Json := ofFields [("items", items), ("type", .string "array")]

/-- The definition of that name in the same document. -/
def defined (name : String) : Json := ofFields [("$ref", .string ("#/$defs/" ++ name))]

/-- One of several words, with what it does. -/
def word (name description : String) : Json :=
  ofFields [("const", .string name), ("description", .string description),
    ("type", .string "string")]

def words (names : List String) : Json :=
  ofFields [("enum", .array (names.map .string)), ("type", .string "string")]

/-! ### Records -/

/-- An object with these properties, some of them required. -/
def record (description : String) (properties : Fields) (required : List String) : Json :=
  ofFields ([("description", .string description), ("properties", ofFields properties),
    ("type", .string "object")] ++
    if required.isEmpty then [] else [("required", .array (required.map .string))])

/-- A document of its own: its title, its dialect and its definitions. -/
def document (title : String) (definitions : Fields) (j : Json) : Json :=
  let fields := match j with
    | .object fields => fields
    | _ => []
  ofFields (fields ++ [("$schema", .string Schema.Dialect.draft2020.name),
    ("title", .string title)] ++
    if definitions.isEmpty then [] else [("$defs", ofFields definitions)])

def blueprint : Json :=
  record ("A tenant-scoped, runtime-defined entity type.\n\n" ++
      "`schema` is a JSON-Schema-like document. It may change after entities\n" ++
      "exist against it; existing entities are not re-validated.")
    [("created_at", timestamp), ("description", nullableText),
      ("id", described "Tenant-unique blueprint identifier (e.g. `\"service\"`)." text),
      ("schema", anything), ("tenant_id", text), ("title", text), ("updated_at", timestamp)]
    ["tenant_id", "id", "title", "schema", "created_at", "updated_at"]

def createBlueprint : Json :=
  record "Blueprint definition submitted by the registry owner."
    [("description", withDefault .null nullableText), ("id", text),
      ("schema", withDefault (.object []) anything), ("title", text)]
    ["id", "title"]

def createEntity : Json :=
  record "`CreateEntity(blueprintId, identifier, title?, data)`."
    [("blueprint_id", text), ("data", withDefault (.object []) anything), ("identifier", text),
      ("title", withDefault .null nullableText)]
    ["blueprint_id", "identifier"]

def entity : Json :=
  record ("A validated document instance of a blueprint.\n\n" ++
      "`identifier` is fixed for the life of the entity and unique within\n" ++
      "`(tenant_id, blueprint_id)`. `data` satisfied the blueprint schema at the\n" ++
      "instant of the write that produced it.")
    [("blueprint_id", text), ("created_at", timestamp), ("data", anything), ("id", text),
      ("identifier", text), ("tenant_id", text), ("title", nullableText),
      ("updated_at", timestamp)]
    ["id", "tenant_id", "blueprint_id", "identifier", "data", "created_at", "updated_at"]

def filterOperator : Json :=
  ofFields [("description", .string "Comparison applied by a single search filter."),
    ("oneOf", .array [words ["gt", "gte", "lt", "lte"],
      word "eq" "Exact, type-sensitive JSON equality.",
      word "neq" "Key present and not equal.",
      word "contains" "Case-insensitive substring on scalars, membership on arrays.",
      word "exists" "Key presence, independent of value (including `null`).",
      word "in" "Equality against any element of an array value."])]

def filter : Json :=
  record ("One search clause: `\x7bproperty, operator, value\x7d`.\n\n" ++
      "`property` is a dot-separated document path. Its grammar is enforced by\n" ++
      "the filter compiler, not by deserialization.")
    [("operator", defined "FilterOperator"), ("property", text),
      ("value", withDefault .null anything)]
    ["property", "operator"]

def sortDirection : Json :=
  described "Ordering direction for search results." (words ["asc", "desc"])

def searchEntities : Json :=
  record "`SearchEntities(blueprintId, filters[], orderBy?, orderDir?, limit?, offset?)`."
    [("blueprint_id", text), ("filters", withDefault (.array []) (listOf (defined "Filter"))),
      ("limit", withDefault .null nullableInteger), ("offset", withDefault .null nullableInteger),
      ("order_by", withDefault .null nullableText),
      ("order_dir", withDefault .null (ofFields [("anyOf",
        .array [defined "SortDirection", ofFields [("type", .string "null")]])]))]
    ["blueprint_id"]

def searchPage : Json :=
  record ("One page of search results.\n\n" ++
      "`total` counts every entity matching the filters, independent of the\n" ++
      "page's `limit` and `offset`.")
    [("items", listOf (defined "Entity")), ("limit", natural "uint32"),
      ("offset", natural "uint64"), ("total", natural "uint64")]
    ["items", "total", "limit", "offset"]

def updateEntity : Json :=
  record ("`UpdateEntity(title?, dataPatch?)`.\n\n" ++
      "`data` is shallow-merged over the stored document: top-level keys in the\n" ++
      "patch overwrite, absent keys are preserved.")
    [("data", anything), ("title", nullableText)] []

/-! ### The catalog -/

/-- The names of the catalog, ascending, with their documents. -/
def entries : Fields :=
  [("blueprint", document "Blueprint" [] blueprint),
    ("create_blueprint", document "CreateBlueprint" [] createBlueprint),
    ("create_entity", document "CreateEntity" [] createEntity),
    ("entity", document "Entity" [] entity),
    ("filter", document "Filter" [("FilterOperator", filterOperator)] filter),
    ("search_entities", document "SearchEntities" [("Filter", filter),
      ("FilterOperator", filterOperator), ("SortDirection", sortDirection)] searchEntities),
    ("search_page", document "SearchPage" [("Entity", entity)] searchPage),
    ("update_entity", document "UpdateEntity" [] updateEntity)]

def names : List String := Fields.names entries

def schema? (name : String) : Option Json := Fields.get? name entries

/-- Hold a value against the schema of that name. -/
def validate (name : String) (j : Json) : Except Schema.Error Unit :=
  match schema? name with
  | none => .error (.notFound name)
  | some schema => Schema.validate .full schema j

end EntityStore.Wire.Catalog
