import EntityStore.Text.Split

/-! # The words of a search request

Operators of filters, directions of an ordering and the columns an ordering may name.  Each word
has one canonical spelling; `ofName?` inverts `name`.  Directions are read in any letter case. -/

namespace EntityStore.Query

/-- How a filter relates a property to its value. -/
inductive Operator
  | equal
  | notEqual
  | greater
  | greaterEqual
  | less
  | lessEqual
  | contains
  | present
  | among
deriving DecidableEq

/-- An order relation between numbers. -/
inductive Comparison
  | greater
  | greaterEqual
  | less
  | lessEqual
deriving DecidableEq

inductive Direction
  | ascending
  | descending
deriving DecidableEq

/-- The columns of an entity that a search may be ordered by. -/
inductive Column
  | createdAt
  | updatedAt
  | identifier
  | title
deriving DecidableEq

/-- A text that should have named one of a kind of words. -/
structure UnknownName where
  kind : String
  text : String
deriving DecidableEq

def UnknownName.message (e : UnknownName) : String := "unknown " ++ e.kind ++ " '" ++ e.text ++ "'"

namespace Operator

def all : List Operator :=
  [equal, notEqual, greater, greaterEqual, less, lessEqual, contains, present, among]

def name : Operator → String
  | equal => "eq"
  | notEqual => "neq"
  | greater => "gt"
  | greaterEqual => "gte"
  | less => "lt"
  | lessEqual => "lte"
  | contains => "contains"
  | present => "exists"
  | among => "in"

def ofName? (text : String) : Option Operator := all.find? (fun o => o.name = text)

/-- The order relation of the numeric operators. -/
def comparison? : Operator → Option Comparison
  | greater => some .greater
  | greaterEqual => some .greaterEqual
  | less => some .less
  | lessEqual => some .lessEqual
  | _ => none

def isNumeric (o : Operator) : Bool := o.comparison?.isSome

def read (text : String) : Except UnknownName Operator :=
  match ofName? text with
  | some o => .ok o
  | none => .error ⟨"filter operator", text⟩

theorem ofName?_name (o : Operator) : ofName? o.name = some o := by
  cases o <;> decide

theorem name_of_ofName? {text : String} {o : Operator} (h : ofName? text = some o) :
    o.name = text := by
  simpa using List.find?_some h

end Operator

/-- The relation's sign. -/
def Comparison.sign : Comparison → String
  | greater => ">"
  | greaterEqual => ">="
  | less => "<"
  | lessEqual => "<="

namespace Direction

def name : Direction → String
  | ascending => "asc"
  | descending => "desc"

/-- The keyword of the direction in an ordering clause. -/
def keyword : Direction → String
  | ascending => "ASC"
  | descending => "DESC"

/-- The direction of a text in any letter case. -/
def ofText? (text : String) : Option Direction :=
  let cs := Text.lower text.toList
  if cs = ['a', 's', 'c'] then some ascending
  else if cs = ['d', 'e', 's', 'c'] then some descending
  else none

def read (text : String) : Except UnknownName Direction :=
  match ofText? text with
  | some d => .ok d
  | none => .error ⟨"sort direction", text⟩

theorem ofText?_name (d : Direction) : ofText? d.name = some d := by
  cases d <;> decide

end Direction

namespace Column

def all : List Column := [createdAt, updatedAt, identifier, title]

def name : Column → String
  | createdAt => "created_at"
  | updatedAt => "updated_at"
  | identifier => "identifier"
  | title => "title"

def ofName? (text : String) : Option Column := all.find? (fun c => c.name = text)

theorem ofName?_name (c : Column) : ofName? c.name = some c := by
  cases c <;> decide

end Column
end EntityStore.Query
