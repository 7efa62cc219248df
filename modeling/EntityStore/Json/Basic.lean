import EntityStore.Binary64.Basic

/-! # JSON values

A number is an integer or a double; `1` and `1.0` are different values.  An object is the list of
its fields.  Every value the library works on is *canonical*: field names strictly ascending in
byte order, at every depth.  Values read from text may have repeated names in any order until
`canonical` sorts them and keeps the last field of each name. -/

namespace EntityStore

/-- A JSON number: an integer of at most 64 bits, or a double. -/
inductive Number
  | integer (value : Int)
  | float (value : Binary64)
deriving DecidableEq

inductive Json
  | null
  | bool (value : Bool)
  | number (value : Number)
  | string (value : String)
  | array (items : List Json)
  | object (fields : List (String × Json))

/-- The fields of an object. -/
abbrev Fields := List (String × Json)

instance : Inhabited Json := ⟨.null⟩

/-! ### Decidable equality -/

mutual
def Json.decEq : (a b : Json) → Decidable (a = b)
  | .null, .null => isTrue rfl
  | .bool x, .bool y =>
    if h : x = y then isTrue (by rw [h]) else isFalse (by intro e; injection e; contradiction)
  | .number x, .number y =>
    if h : x = y then isTrue (by rw [h]) else isFalse (by intro e; injection e; contradiction)
  | .string x, .string y =>
    if h : x = y then isTrue (by rw [h]) else isFalse (by intro e; injection e; contradiction)
  | .array xs, .array ys =>
    match Json.decEqItems xs ys with
    | isTrue h => isTrue (by rw [h])
    | isFalse h => isFalse (by intro e; injection e; contradiction)
  | .object xs, .object ys =>
    match Json.decEqFields xs ys with
    | isTrue h => isTrue (by rw [h])
    | isFalse h => isFalse (by intro e; injection e; contradiction)
  | .null, .bool _ | .null, .number _ | .null, .string _ | .null, .array _ | .null, .object _ =>
    isFalse nofun
  | .bool _, .null | .bool _, .number _ | .bool _, .string _ | .bool _, .array _
  | .bool _, .object _ => isFalse nofun
  | .number _, .null | .number _, .bool _ | .number _, .string _ | .number _, .array _
  | .number _, .object _ => isFalse nofun
  | .string _, .null | .string _, .bool _ | .string _, .number _ | .string _, .array _
  | .string _, .object _ => isFalse nofun
  | .array _, .null | .array _, .bool _ | .array _, .number _ | .array _, .string _
  | .array _, .object _ => isFalse nofun
  | .object _, .null | .object _, .bool _ | .object _, .number _ | .object _, .string _
  | .object _, .array _ => isFalse nofun

def Json.decEqItems : (a b : List Json) → Decidable (a = b)
  | [], [] => isTrue rfl
  | [], _ :: _ => isFalse nofun
  | _ :: _, [] => isFalse nofun
  | x :: xs, y :: ys =>
    match Json.decEq x y, Json.decEqItems xs ys with
    | isTrue h, isTrue t => isTrue (by rw [h, t])
    | isFalse h, _ => isFalse (by intro e; injection e; contradiction)
    | _, isFalse t => isFalse (by intro e; injection e; contradiction)

def Json.decEqFields : (a b : List (String × Json)) → Decidable (a = b)
  | [], [] => isTrue rfl
  | [], _ :: _ => isFalse nofun
  | _ :: _, [] => isFalse nofun
  | (k, x) :: xs, (l, y) :: ys =>
    if hk : k = l then
      match Json.decEq x y, Json.decEqFields xs ys with
      | isTrue h, isTrue t => isTrue (by rw [hk, h, t])
      | isFalse h, _ => isFalse (by intro e; injection e with e _; injection e; contradiction)
      | _, isFalse t => isFalse (by intro e; injection e; contradiction)
    else isFalse (by intro e; injection e with e _; injection e; contradiction)
end

instance : DecidableEq Json := Json.decEq

/-! ### Fields -/

namespace Fields

/-- The first field of that name. -/
def get? (name : String) : Fields → Option Json
  | [] => none
  | (k, v) :: rest => if k = name then some v else get? name rest

def contains (name : String) (fields : Fields) : Bool := (get? name fields).isSome

def names (fields : Fields) : List String := fields.map Prod.fst

/-- Put a field at its place in an ascending list, in place of the field of that name. -/
def insert (name : String) (value : Json) : Fields → Fields
  | [] => [(name, value)]
  | (k, v) :: rest =>
    if name < k then (name, value) :: (k, v) :: rest
    else if k = name then (name, value) :: rest
    else (k, v) :: insert name value rest

/-- Like `insert`, but a field of that name stays as it is. -/
def insertNew (name : String) (value : Json) : Fields → Fields
  | [] => [(name, value)]
  | (k, v) :: rest =>
    if name < k then (name, value) :: (k, v) :: rest
    else if k = name then (k, v) :: rest
    else (k, v) :: insertNew name value rest

/-- Ascending by name; of several fields of one name the last one stays. -/
def sort (fields : Fields) : Fields := fields.foldr (fun f acc => insertNew f.1 f.2 acc) []

def erase (name : String) (fields : Fields) : Fields := fields.filter (fun f => f.1 ≠ name)

/-- The fields of `base` overlaid with those of `patch`, one level deep. -/
def merge (base patch : Fields) : Fields := patch.foldl (fun acc f => insert f.1 f.2 acc) base

/-- Names strictly ascending. -/
def Ascending (fields : Fields) : Prop := fields.Pairwise (fun a b => a.1 < b.1)

end Fields

namespace Json

/-! ### Canonical values -/

mutual
/-- The canonical value with the same content: fields sorted at every depth, the last one of each
name kept. -/
def canonical : Json → Json
  | .array items => .array (canonicalItems items)
  | .object fields => .object (Fields.sort (canonicalFields fields))
  | j => j

def canonicalItems : List Json → List Json
  | [] => []
  | j :: rest => canonical j :: canonicalItems rest

def canonicalFields : List (String × Json) → List (String × Json)
  | [] => []
  | (k, v) :: rest => (k, canonical v) :: canonicalFields rest
end

mutual
/-- Field names strictly ascending at every depth. -/
def Canonical : Json → Prop
  | .array items => CanonicalItems items
  | .object fields => Fields.Ascending fields ∧ CanonicalFields fields
  | _ => True

def CanonicalItems : List Json → Prop
  | [] => True
  | j :: rest => Canonical j ∧ CanonicalItems rest

def CanonicalFields : List (String × Json) → Prop
  | [] => True
  | (_, v) :: rest => Canonical v ∧ CanonicalFields rest
end

/-- The object with these fields, in canonical order. -/
def ofFields (fields : Fields) : Json := .object (Fields.sort fields)

/-! ### Views -/

/-- The value of a field, for objects. -/
def field? (name : String) : Json → Option Json
  | .object fields => Fields.get? name fields
  | _ => none

def asString? : Json → Option String
  | .string s => some s
  | _ => none

def isObject : Json → Bool
  | .object _ => true
  | _ => false

def isArray : Json → Bool
  | .array _ => true
  | _ => false

/-- The six kinds of value by name. -/
def kindName : Json → String
  | .null => "null"
  | .bool _ => "boolean"
  | .number _ => "number"
  | .string _ => "string"
  | .array _ => "array"
  | .object _ => "object"

mutual
/-- The number of arrays and objects around the deepest value. -/
def depth : Json → Nat
  | .array items => depthItems items + 1
  | .object fields => depthFields fields + 1
  | _ => 0

def depthItems : List Json → Nat
  | [] => 0
  | j :: rest => max (depth j) (depthItems rest)

def depthFields : List (String × Json) → Nat
  | [] => 0
  | (_, v) :: rest => max (depth v) (depthFields rest)
end

end Json

/-! ### Numbers -/

namespace Number

/-- The number as a double, rounded to nearest. -/
def toBinary64 : Number → Binary64
  | .integer i => .ofInt i
  | .float x => x

/-- The exact order of two numbers of either kind. -/
def compare : Number → Number → Ordering
  | .integer i, .integer j => Ord.compare i j
  | .integer i, .float y => (y.compareInt i).swap
  | .float x, .integer j => x.compareInt j
  | .float x, .float y => x.compare y

/-- Equality of value: `1` equals `1.0`, and the two zeros are equal. -/
def same (a b : Number) : Bool := a.compare b == .eq

/-- The value has no fractional part. -/
def isIntegral : Number → Bool
  | .integer _ => true
  | .float x => x.isIntegral

end Number
end EntityStore
