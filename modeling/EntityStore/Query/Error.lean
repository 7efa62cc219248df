import EntityStore.Query.Path
import EntityStore.Query.Vocabulary
import EntityStore.Text.Digits

/-! # What can be wrong with a search

`Query.Error` lists the causes; `Error.message` words them.  Every cause carries the text that
was refused. -/

namespace EntityStore.Query

/-- What a filter's value had to be. -/
inductive Expected
  | boolean
  | array
  | number
deriving DecidableEq

/-- What is wrong with the shape of a list of filters. -/
inductive ShapeFault
  | notArray
  | notObject
  | propertyNotString
  | operatorNotString
deriving DecidableEq

inductive Error
  | invalidProperty (path : String) (fault : PathFault)
  | unknownOperator (name : String)
  | invalidValue (property : String) (operator : Operator) (expected : Expected)
  | malformed (index : Nat) (fault : ShapeFault)
deriving DecidableEq

def Expected.message : Expected → String
  | boolean => "expected a boolean"
  | array => "expected an array"
  | number => "expected a number"

def ShapeFault.message : ShapeFault → String
  | notArray => "filters must be an array"
  | notObject => "filter must be an object"
  | propertyNotString => "'property' must be a string"
  | operatorNotString => "'operator' must be a string"

def Error.message : Error → String
  | invalidProperty path fault => "invalid property path '" ++ path ++ "': " ++ fault.message
  | unknownOperator name => "unknown filter operator '" ++ name ++ "'"
  | invalidValue property operator expected =>
    "invalid value for '" ++ property ++ "' " ++ operator.name ++ ": " ++ expected.message
  | malformed index fault =>
    "malformed filter at index " ++ String.ofList (Text.natural index) ++ ": " ++ fault.message

/-- The path of a property named in a request. -/
def readPath (property : String) : Except Error Path :=
  match Path.parse property with
  | .ok p => .ok p
  | .error fault => .error (.invalidProperty property fault)

end EntityStore.Query
