import EntityStore.Config.Configuration
import EntityStore.Config.DotEnv
import EntityStore.Toml.Document

/-! # Loading the configuration

A configuration comes from up to four sources.  From the highest to the lowest they are the
environment, the file of the project, the file of the user, and the standard values.  A `.env` file
adds variables to the environment before it is read. -/

namespace EntityStore.Config

/-- The texts that a configuration is read from. -/
structure Sources where
  user : Option String
  project : Option String
  environment : Environment

/-- The layer of a file; a file that is not there gives none. -/
def fileLayer (text : Option String) : Except Error Layer :=
  match text with
  | none => .ok Layer.empty
  | some text =>
    match Toml.read? text with
    | some layer => .ok layer
    | none => .error .malformed

namespace Sources

/-- The layers from the lowest to the highest. -/
def layers (s : Sources) : Except Error (List Layer) := do
  let user ← fileLayer s.user
  let project ← fileLayer s.project
  return [user, project, s.environment.layer]

def load (s : Sources) : Except Error Configuration := do
  let layers ← s.layers
  Configuration.ofLayer (Layer.stack layers)

end Sources

/-- The configuration of one text alone. -/
def Configuration.ofText (text : String) : Except Error Configuration := do
  let layer ← fileLayer (some text)
  Configuration.ofLayer layer

/-! ### The `.env` file -/

/-- The `.env` files that can be found, by the directories that are searched, each as a directory
with those above it.  Those of the package are there only if there is a package. -/
structure DotEnvFiles where
  package : List (Option String)
  working : List (Option String)

namespace DotEnvFiles

/-- How many directories are searched for the file of a package: its own, the one of all packages
and that of the workspace. -/
def packageDepth : Nat := 3

/-- The file that counts: the first one in the directories of the package, or else in the working
directory and those above it. -/
def chosen (f : DotEnvFiles) : Option String :=
  (f.package.take packageDepth ++ f.working).findSome? id

end DotEnvFiles

/-- The sources with the variables of the chosen `.env` file. -/
def Sources.withDotEnv (s : Sources) (files : DotEnvFiles) : Sources :=
  match files.chosen with
  | none => s
  | some text => { s with environment := DotEnv.load s.environment text }

end EntityStore.Config
