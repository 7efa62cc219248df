import EntityStore.Json.Basic
import EntityStore.Query.Error
import EntityStore.Query.Operand

/-! # Filters and predicates

A filter is one clause of a search as it was asked: a property, an operator and any value.  Its
predicate is the same clause with the property read as a path and the value of the kind that the
operator needs.  `Filter.readAll` reads the filters of a request body and `Filter.compile` gives
the predicate; the path is looked at before the value. -/

namespace EntityStore.Query

structure Filter where
  property : String
  operator : Operator
  value : Json
deriving DecidableEq

/-- A condition on one place of a document. -/
inductive Predicate
  | equals (path : Path) (value : Json)
  | notEquals (path : Path) (value : Json)
  | compares (path : Path) (relation : Comparison) (value : Number)
  | contains (path : Path) (needle : Json)
  | presence (path : Path) (present : Bool)
  | among (path : Path) (values : List Json)
deriving DecidableEq

namespace Filter

/-! ### Reading -/

/-- One filter of a list; a missing value is null. -/
def readAt (index : Nat) (item : Json) : Except Error Filter :=
  match item with
  | .object fields =>
    match (Fields.get? "property" fields).bind Json.asString? with
    | none => .error (.malformed index .propertyNotString)
    | some property =>
      match (Fields.get? "operator" fields).bind Json.asString? with
      | none => .error (.malformed index .operatorNotString)
      | some name =>
        match Operator.ofName? name with
        | none => .error (.unknownOperator name)
        | some operator =>
          .ok ⟨property, operator, (Fields.get? "value" fields).getD .null⟩
  | _ => .error (.malformed index .notObject)

/-- The filters of a list whose first item has the given index. -/
def readFrom (index : Nat) : List Json → Except Error (List Filter)
  | [] => .ok []
  | item :: rest =>
    match readAt index item with
    | .error e => .error e
    | .ok f =>
      match readFrom (index + 1) rest with
      | .error e => .error e
      | .ok fs => .ok (f :: fs)

/-- The filters of a request body; null stands for no filters. -/
def readAll : Json → Except Error (List Filter)
  | .null => .ok []
  | .array items => readFrom 0 items
  | _ => .error (.malformed 0 .notArray)

/-! ### Compiling -/

def invalidValue (f : Filter) (expected : Expected) : Error :=
  .invalidValue f.property f.operator expected

/-- The predicate of a filter whose property is the given path. -/
def predicateAt (f : Filter) (path : Path) : Except Error Predicate :=
  let comparing (relation : Comparison) : Except Error Predicate :=
    match operand? f.value with
    | some n => .ok (.compares path relation n)
    | none => .error (f.invalidValue .number)
  match f.operator with
  | .equal => .ok (.equals path f.value)
  | .notEqual => .ok (.notEquals path f.value)
  | .greater => comparing .greater
  | .greaterEqual => comparing .greaterEqual
  | .less => comparing .less
  | .lessEqual => comparing .lessEqual
  | .contains => .ok (.contains path f.value)
  | .present =>
    match f.value with
    | .bool present => .ok (.presence path present)
    | _ => .error (f.invalidValue .boolean)
  | .among =>
    match f.value with
    | .array values => .ok (.among path values)
    | _ => .error (f.invalidValue .array)

def compile (f : Filter) : Except Error Predicate :=
  match readPath f.property with
  | .error e => .error e
  | .ok path => f.predicateAt path

/-- The predicates of all filters, or the error of the first one that has none. -/
def compileAll : List Filter → Except Error (List Predicate)
  | [] => .ok []
  | f :: rest =>
    match f.compile with
    | .error e => .error e
    | .ok p =>
      match compileAll rest with
      | .error e => .error e
      | .ok ps => .ok (p :: ps)

end Filter

def Predicate.path : Predicate → Path
  | equals path _ | notEquals path _ | compares path _ _ | contains path _ | presence path _
  | among path _ => path

end EntityStore.Query
