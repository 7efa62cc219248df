import EntityStore.Schema.Basic

/-! # Violations of a schema

`Compiled.violations` collects every violation of a schema in a value, not only the first.  It is
recursive on the schema; what a reference leads to is given by a function, and
`followWithin` supplies it from the document for as many references in a row as its fuel allows.

`Compiled.evaluatedNames` and `Compiled.evaluatedItems` say which parts of a value a schema has taken
into account, for the two keywords that constrain the rest. -/

namespace EntityStore.Schema

namespace Compiled

/-- How a reference is followed: the violations of the schema it leads to, and the parts of a value
that this schema takes into account. -/
structure Follow where
  violations : String → Json → Location → List Violation
  names : String → Json → List String
  items : String → Json → List Bool

/-- The properties of an object; none of another value. -/
def propertiesOf : Json → Fields
  | .object fields => fields
  | _ => []

/-- The items of an array; none of another value. -/
def itemsOf : Json → List Json
  | .array items => items
  | _ => []

/-- Neither listed nor matched. -/
def isAdditional (listed : List String) (patterns : List Regex) (name : String) : Bool :=
  !listed.contains name && !patterns.any (fun r => r.occurs name)

/-- Items with their indices, counted from a start. -/
def indexed (start : Nat) : List Json → List (Nat × Json)
  | [] => []
  | j :: rest => (start, j) :: indexed (start + 1) rest

/-- The items of which the flag is not set; missing flags are not set. -/
def unmarked : List Bool → List Json → List Json
  | _, [] => []
  | [], items => items
  | true :: flags, _ :: items => unmarked flags items
  | false :: flags, j :: items => j :: unmarked flags items

/-- One flag for each position of either list, set where one of them is. -/
def mergeFlags : List Bool → List Bool → List Bool
  | [], flags => flags
  | flags, [] => flags
  | a :: as, b :: bs => (a || b) :: mergeFlags as bs

/-- A count lies between two bounds. -/
def within (low : Nat) (high : Option Nat) (count : Nat) : Bool :=
  low ≤ count && high.all (count ≤ ·)

mutual
/-- The violations of a schema in the value at a location. -/
def violations (f : Follow) : Compiled → Json → Location → List Violation
  | always, _, _ => []
  | never, j, l => [⟨l, j, .never⟩]
  | all parts, j, l => violationsAll f parts j l
  | check c, j, l => if c.holds j then [] else [⟨l, j, .check c⟩]
  | allOf members, j, l => violationsAll f members j l
  | anyOf members, j, l => if countMet f members j = 0 then [⟨l, j, .anyOf⟩] else []
  | oneOf members, j, l =>
    match countMet f members j with
    | 0 => [⟨l, j, .oneOfNone⟩]
    | 1 => []
    | _ => [⟨l, j, .oneOfSeveral⟩]
  | not source s, j, l => if (violations f s j []).isEmpty then [⟨l, j, .not source⟩] else []
  | ifThenElse condition then_ else_, j, l =>
    if (violations f condition j []).isEmpty then violations f then_ j l
    else violations f else_ j l
  | property name s, j, l =>
    match Fields.get? name (propertiesOf j) with
    | some v => violations f s v (.key name :: l)
    | none => []
  | matching regex s, j, l =>
    (propertiesOf j).flatMap fun (name, v) =>
      if regex.occurs name then violations f s v (.key name :: l) else []
  | additional listed patterns s, j, l =>
    (propertiesOf j).flatMap fun (name, v) =>
      if isAdditional listed patterns name then violations f s v (.key name :: l) else []
  | closed listed patterns, j, l =>
    match (Fields.names (propertiesOf j)).filter (isAdditional listed patterns) with
    | [] => []
    | found => [⟨l, j, .additionalProperties found⟩]
  | noProperties, j, l =>
    match propertiesOf j with
    | [] => []
    | (_, v) :: _ => [⟨l, v, .never⟩]
  | names s, j, l =>
    (propertiesOf j).flatMap fun (name, _) =>
      (violations f s (.string name) []).map fun v => ⟨l, v.value, v.fault⟩
  | noNames, j, l => if (propertiesOf j).isEmpty then [] else [⟨l, j, .never⟩]
  | dependent name s, j, l =>
    if Fields.contains name (propertiesOf j) then violations f s j l else []
  | item index s, j, l =>
    match (itemsOf j)[index]? with
    | some v => violations f s v (.index index :: l)
    | none => []
  | itemsFrom index s, j, l =>
    (indexed index ((itemsOf j).drop index)).flatMap fun (i, v) =>
      violations f s v (.index i :: l)
  | noItemsFrom index, j, l =>
    match (itemsOf j).drop index with
    | [] => []
    | items => [⟨l, j, .additionalItems items⟩]
  | contains low high s, j, l =>
    match j with
    | .array items =>
      let count := (items.filter fun v => (violations f s v []).isEmpty).length
      if within low high count then [] else [⟨l, j, .contains⟩]
    | _ => []
  | reference pointer, j, l => f.violations pointer j l
  | unevaluatedProperties siblings s, j, l =>
    let seen := namesOfAll f siblings j
    match (propertiesOf j).filter fun (name, v) =>
        !seen.contains name && !(violations f s v []).isEmpty with
    | [] => []
    | rest => [⟨l, j, .unevaluatedProperties (Fields.names rest)⟩]
  | unevaluatedItems siblings s, j, l =>
    match (unmarked (itemsOfAll f siblings j) (itemsOf j)).filter fun v =>
        !(violations f s v []).isEmpty with
    | [] => []
    | rest => [⟨l, j, .unevaluatedItems rest⟩]

def violationsAll (f : Follow) : List Compiled → Json → Location → List Violation
  | [], _, _ => []
  | s :: rest, j, l => violations f s j l ++ violationsAll f rest j l

/-- The number of schemas that the value meets. -/
def countMet (f : Follow) : List Compiled → Json → Nat
  | [], _ => 0
  | s :: rest, j => (if (violations f s j []).isEmpty then 1 else 0) + countMet f rest j

/-- The names of properties that a schema takes into account: those for which it has a schema that
their value meets. -/
def evaluatedNames (f : Follow) : Compiled → Json → List String
  | all parts, j => namesOfAll f parts j
  | allOf members, j | anyOf members, j | oneOf members, j => namesOfMet f members j
  | ifThenElse condition then_ else_, j =>
    if (violations f condition j []).isEmpty then
      evaluatedNames f condition j ++ evaluatedNames f then_ j
    else evaluatedNames f else_ j
  | property name s, j =>
    match Fields.get? name (propertiesOf j) with
    | some v => if (violations f s v []).isEmpty then [name] else []
    | none => []
  | matching regex s, j =>
    Fields.names ((propertiesOf j).filter fun (name, v) =>
      regex.occurs name && (violations f s v []).isEmpty)
  | additional _ _ s, j | unevaluatedProperties _ s, j =>
    Fields.names ((propertiesOf j).filter fun (_, v) => (violations f s v []).isEmpty)
  | dependent name s, j =>
    if Fields.contains name (propertiesOf j) then evaluatedNames f s j else []
  | reference pointer, j => f.names pointer j
  | _, _ => []

def namesOfAll (f : Follow) : List Compiled → Json → List String
  | [], _ => []
  | s :: rest, j => evaluatedNames f s j ++ namesOfAll f rest j

/-- The names that the schemas take into account which the value meets. -/
def namesOfMet (f : Follow) : List Compiled → Json → List String
  | [], _ => []
  | s :: rest, j =>
    (if (violations f s j []).isEmpty then evaluatedNames f s j else []) ++ namesOfMet f rest j

/-- Which items of an array a schema takes into account. -/
def evaluatedItems (f : Follow) : Compiled → Json → List Bool
  | all parts, j => itemsOfAll f parts j
  | allOf members, j | anyOf members, j | oneOf members, j => itemsOfMet f members j
  | ifThenElse condition then_ else_, j =>
    if (violations f condition j []).isEmpty then
      mergeFlags (evaluatedItems f condition j) (evaluatedItems f then_ j)
    else evaluatedItems f else_ j
  | item index _, _ => List.replicate (index + 1) true
  | itemsFrom _ _, j => (itemsOf j).map fun _ => true
  | contains _ _ s, j | unevaluatedItems _ s, j =>
    (itemsOf j).map fun v => (violations f s v []).isEmpty
  | reference pointer, j => f.items pointer j
  | _, _ => []

def itemsOfAll (f : Follow) : List Compiled → Json → List Bool
  | [], _ => []
  | s :: rest, j => mergeFlags (evaluatedItems f s j) (itemsOfAll f rest j)

def itemsOfMet (f : Follow) : List Compiled → Json → List Bool
  | [], _ => []
  | s :: rest, j =>
    mergeFlags (if (violations f s j []).isEmpty then evaluatedItems f s j else [])
      (itemsOfMet f rest j)
end

/-- References are followed at most `fuel` times in a row. -/
def followWithin (target : String → Option Compiled) : Nat → Follow
  | 0 => ⟨fun _ _ _ => [], fun _ _ => [], fun _ _ => []⟩
  | fuel + 1 =>
    let f := followWithin target fuel
    { violations := fun pointer j l => ((target pointer).map fun s => violations f s j l).getD []
      names := fun pointer j => ((target pointer).map fun s => evaluatedNames f s j).getD []
      items := fun pointer j => ((target pointer).map fun s => evaluatedItems f s j).getD [] }

end Compiled
end EntityStore.Schema
