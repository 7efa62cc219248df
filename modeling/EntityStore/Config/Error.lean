/-! # Configuration errors -/

namespace EntityStore.Config

inductive Error
  /-- A configuration text does not follow the grammar. -/
  | malformed
  /-- The setting at a path is of a kind that it cannot have. -/
  | wrongKind (path : List String)
  /-- The setting at a path is a number outside its range. -/
  | outOfRange (path : List String)
  /-- A setting is readable and not acceptable. -/
  | unacceptable (field reason : String)
deriving DecidableEq

namespace Error

/-- The names on the way to a setting, with dots between them. -/
def pathText (path : List String) : String := ".".intercalate path

/-- The dotted path of the setting that cannot be read; a text that is malformed has none. -/
def path : Error → String
  | wrongKind names | outOfRange names => pathText names
  | malformed | unacceptable .. => ""

def message : Error → String
  | malformed => "malformed configuration text"
  | wrongKind names => "invalid type for key \"" ++ pathText names ++ "\""
  | outOfRange names => "invalid value for key \"" ++ pathText names ++ "\""
  | unacceptable field reason =>
    "Invalid configuration value for '" ++ field ++ "': " ++ reason

/-- The setting lies below the given name. -/
def below (name : String) : Error → Error
  | wrongKind names => wrongKind (name :: names)
  | outOfRange names => outOfRange (name :: names)
  | e => e

end Error
end EntityStore.Config
