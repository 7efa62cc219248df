import EntityStore.Json.Reader
import EntityStore.Sql.Value
import EntityStore.Text.Split

/-! # Stored documents as the database sees them

A document is stored as JSON text, which is kept as its `Source` tree.  The database looks a path
up through objects only (`lookup?`) and takes the first of several fields of one name.  What it
finds has a `kind` and a `scalar`: numbers and texts are plain values, arrays and objects are
their own text without white space.

`readPath?` reads a path in the notation of the database and `readDocument?` a text as a document. -/

namespace EntityStore.Sql

/-- The number of arrays and objects that may stand inside one another in a stored text. -/
def storageLimit : Nat := 1000

/-- The document that a text spells; a text ends at its first NUL. -/
def readDocument? (cs : List Char) : Option Source :=
  Source.parse? storageLimit (Text.untilNul cs)

/-- The text of the tree spells a document: not too many arrays and objects stand inside one
another. -/
def isDocument (s : Source) : Bool := s.depth ≤ storageLimit

/-! ### Strings -/

/-- The characters of a string body in which half a surrogate pair is read as the replacement
character.  `fuel` is the length of the body. -/
def lenientText : Nat → List Char → List Char
  | 0, _ => []
  | _ + 1, [] => []
  | fuel + 1, '\\' :: 'u' :: a :: b :: c :: d :: rest =>
    match Source.unescape? [] ['\\', 'u', a, b, c, d] with
    | some cs => cs ++ lenientText fuel rest
    | none =>
      match Source.unescape? [] ('\\' :: 'u' :: a :: b :: c :: d :: rest.take 6) with
      | some cs => cs ++ lenientText fuel (rest.drop 6)
      | none => '\ufffd' :: lenientText fuel rest
  | fuel + 1, '\\' :: c :: rest => (Source.simpleEscape? c).getD c :: lenientText fuel rest
  | fuel + 1, c :: rest => c :: lenientText fuel rest

/-- The text of a string body. -/
def bodyText (body : List Char) : List Char :=
  match Source.unescape? [] body with
  | some cs => cs
  | none => lenientText body.length body

/-! ### Looking up -/

/-- The first field of that name. -/
def field? (name : List Char) : List (List Char × Source) → Option Source
  | [] => none
  | (body, s) :: rest => if bodyText body = name then some s else field? name rest

/-- The value at the end of a path of object keys. -/
def lookup? : List (List Char) → Source → Option Source
  | [], s => some s
  | name :: path, .object fields => (field? name fields).bind (lookup? path)
  | _ :: _, _ => none

/-- The quoted labels of a path after its root. -/
def readLabels? : Nat → List Char → Option (List (List Char))
  | _, [] => some []
  | fuel + 1, '.' :: '"' :: rest =>
    match rest.span (· ≠ '"') with
    | (name, '"' :: rest) => (readLabels? fuel rest).map (name :: ·)
    | _ => none
  | _, _ => none

/-- The object keys of a path in the notation `$."a"."b"`. -/
def readPath? : List Char → Option (List (List Char))
  | '$' :: rest => readLabels? rest.length rest
  | _ => none

/-! ### What is found -/

/-- The kinds of value that the database tells apart. -/
inductive Kind
  | null
  | true
  | false
  | integer
  | real
  | text
  | array
  | object
deriving DecidableEq

def Kind.name : Kind → String
  | null => "null"
  | true => "true"
  | false => "false"
  | integer => "integer"
  | real => "real"
  | text => "text"
  | array => "array"
  | object => "object"

def kind : Source → Kind
  | .null => .null
  | .bool true => .true
  | .bool false => .false
  | .number n => if n.isInteger then .integer else .real
  | .string _ => .text
  | .array _ => .array
  | .object _ => .object

/-- The value of a numeral: an integer when it is spelled as one and fits 64 bits, otherwise a
real. -/
def numeralValue (n : Numeral) : Value :=
  let i : Int := if n.negative then -(n.digits : Int) else n.digits
  if n.isInteger && isSigned64 i then .integer i else .real (.ofNumeral n)

/-- The plain value of what a path leads to. -/
def scalar : Source → Value
  | .null => .null
  | .bool b => .ofTruth (some b)
  | .number n => numeralValue n
  | .string body => .text (bodyText body)
  | s => .text s.text

/-- The real at the front of a text, white space and what follows the number ignored; a text that
starts with no number is zero. -/
def leadingReal (cs : List Char) : Real :=
  match Numeral.read? (Source.skipSpace cs) with
  | some (n, _) => .ofNumeral n
  | none => .finite .zero

end EntityStore.Sql
