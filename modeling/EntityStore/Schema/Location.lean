import EntityStore.Json.Basic
import EntityStore.Record.Basic
import EntityStore.Text.Split

/-! # Places in a document

A `Location` is the way from the root of a document to a place in it.  `Location.pointer` writes it
as text with slashes, in which a slash or a tilde of a key is escaped.

`fieldPath` turns such a pointer into the path that a reader of errors sees: keys joined by dots,
indices in brackets.  Whether a piece is a key or an index is decided by walking the document, so a
key made of digits stays a key. -/

namespace EntityStore.Schema

/-- One step down into a document. -/
inductive Step
  | key (name : String)
  | index (i : Nat)
deriving DecidableEq

/-- The steps from the root, the last one first. -/
abbrev Location := List Step

/-! ### Pointers -/

/-- A tilde is written `~0` and a slash `~1`. -/
def escapePointer : List Char → List Char
  | [] => []
  | c :: rest =>
    if c = '~' then '~' :: '0' :: escapePointer rest
    else if c = '/' then '~' :: '1' :: escapePointer rest
    else c :: escapePointer rest

def Step.pointer : Step → List Char
  | key name => '/' :: escapePointer name.toList
  | index i => '/' :: Text.natural i

/-- The pointer of a location: each step after a slash. -/
def Location.pointer (l : Location) : List Char := l.reverse.flatMap Step.pointer

/-- Every `~` followed by the mark is replaced. -/
def replaceMark (mark by_ : Char) : List Char → List Char
  | [] => []
  | [c] => [c]
  | c :: d :: rest =>
    if c = '~' ∧ d = mark then by_ :: replaceMark mark by_ rest
    else c :: replaceMark mark by_ (d :: rest)

/-- A piece of a pointer as it was before escaping. -/
def unescapePointer (cs : List Char) : List Char := replaceMark '0' '~' (replaceMark '1' '/' cs)

/-! ### Field paths -/

/-- An array index as it is written in a pointer. -/
def indexOf? (cs : List Char) : Option Nat :=
  let ds := match cs with
    | '+' :: rest => rest
    | cs => cs
  if ds.isEmpty || !ds.all Text.isDigit then none else some (Text.digitsValue ds)

/-- The rest of a path: the pieces are walked from `node`, and `path` is what was written
before. -/
def pathFrom (path : List Char) (node : Option Json) : List (List Char) → List Char
  | [] => path
  | raw :: rest =>
    let piece := unescapePointer raw
    match node with
    | some (.array items) =>
      pathFrom (path ++ '[' :: piece ++ [']']) ((indexOf? piece).bind (items[·]?)) rest
    | other =>
      pathFrom ((if path.isEmpty then [] else path ++ ['.']) ++ piece)
        (other.bind (Json.field? (String.ofList piece))) rest

/-- The path of the place that a pointer leads to; the root and every path without characters are
`$`. -/
def fieldPath (document : Json) (pointer : List Char) : String :=
  let path := String.ofList (pathFrom [] (some document) (Text.splitAt '/' pointer).tail)
  if path.isEmpty then FieldError.rootPath else path

/-- The path of a key inside the place at `parent`. -/
def joinPath (parent key : String) : String :=
  if parent = FieldError.rootPath then key else parent ++ "." ++ key

end EntityStore.Schema
