import EntityStore.Text.Numeral

/-! # JSON text as a tree of tokens

`Source` is the syntax tree of a JSON text: field order, repeated names, the spelling of numbers
and the escapes of strings are kept, white space between tokens is not.  `Source.parse?` accepts
exactly the JSON grammar, with at most a given number of arrays and objects inside one another;
`Source.text` writes the tree back without white space.

What a text means is decided elsewhere: `EntityStore.Json.Reader` reads it as a value,
`EntityStore.Sql.Document` as a database sees a stored column. -/

namespace EntityStore

inductive Source
  | null
  | bool (value : Bool)
  | number (numeral : Numeral)
  /-- The characters between the quotes, escapes untouched. -/
  | string (body : List Char)
  | array (items : List Source)
  | object (fields : List (List Char × Source))

namespace Source

/-! ### Reading -/

/-- Space, tab, line feed and carriage return. -/
def isSpace (c : Char) : Bool := c = ' ' || c = '\t' || c = '\n' || c = '\r'

def skipSpace (cs : List Char) : List Char := cs.dropWhile isSpace

def isHex (c : Char) : Bool := (Text.hexValue? c).isSome

/-- The rest of a string up to its closing quote; `read` are the characters before, last first.
Control characters have to be escaped. -/
def readBody? (read : List Char) : List Char → Option (List Char × List Char)
  | [] => none
  | '"' :: rest => some (read.reverse, rest)
  | '\\' :: 'u' :: a :: b :: c :: d :: rest =>
    if isHex a && isHex b && isHex c && isHex d then
      readBody? (d :: c :: b :: a :: 'u' :: '\\' :: read) rest
    else none
  | '\\' :: e :: rest =>
    if e = '"' || e = '\\' || e = '/' || e = 'b' || e = 'f' || e = 'n' || e = 'r' || e = 't' then
      readBody? (e :: '\\' :: read) rest
    else none
  | c :: rest => if c = '\\' || c.toNat < 0x20 then none else readBody? (c :: read) rest

/-- A value that is no array and no object. -/
def readScalar? : List Char → Option (Source × List Char)
  | 'n' :: 'u' :: 'l' :: 'l' :: rest => some (.null, rest)
  | 't' :: 'r' :: 'u' :: 'e' :: rest => some (.bool true, rest)
  | 'f' :: 'a' :: 'l' :: 's' :: 'e' :: rest => some (.bool false, rest)
  | '"' :: rest => (readBody? [] rest).map fun (body, rest) => (.string body, rest)
  | cs => (Numeral.read? cs).map fun (n, rest) => (.number n, rest)

/-- At least one item, then commas and further items up to `close`. -/
def readSequence? {α : Type} (item : List Char → Option (α × List Char)) (close : Char) :
    Nat → List Char → Option (List α × List Char)
  | 0, _ => none
  | fuel + 1, cs => do
    let (a, cs) ← item cs
    match skipSpace cs with
    | [] => none
    | c :: rest =>
      if c = close then return ([a], rest)
      else if c = ',' then
        let (as, rest) ← readSequence? item close fuel rest
        return (a :: as, rest)
      else none

/-- A name, a colon and a value. -/
def readField? (value : List Char → Option (Source × List Char)) (cs : List Char) :
    Option ((List Char × Source) × List Char) :=
  match skipSpace cs with
  | '"' :: rest => do
    let (name, rest) ← readBody? [] rest
    match skipSpace rest with
    | ':' :: rest =>
      let (v, rest) ← value rest
      return ((name, v), rest)
    | _ => none
  | _ => none

/-- A value with at most `limit` arrays and objects inside one another and at most `fuel` items
in each. -/
def readValue? (fuel : Nat) : Nat → List Char → Option (Source × List Char)
  | 0, cs => readScalar? (skipSpace cs)
  | limit + 1, cs =>
    match skipSpace cs with
    | '[' :: rest =>
      match skipSpace rest with
      | ']' :: rest => some (.array [], rest)
      | rest => (readSequence? (readValue? fuel limit) ']' fuel rest).map
          fun (items, rest) => (.array items, rest)
    | '\x7b' :: rest =>
      match skipSpace rest with
      | '\x7d' :: rest => some (.object [], rest)
      | rest => (readSequence? (readField? (readValue? fuel limit)) '\x7d' fuel rest).map
          fun (fields, rest) => (.object fields, rest)
    | rest => readScalar? rest

/-- The tree of a complete JSON text with at most `limit` arrays and objects inside one
another. -/
def parse? (limit : Nat) (text : List Char) : Option Source :=
  match readValue? text.length limit text with
  | some (source, rest) => if skipSpace rest = [] then some source else none
  | none => none

/-! ### Writing -/

mutual
/-- The text without white space. -/
def text : Source → List Char
  | .null => ['n', 'u', 'l', 'l']
  | .bool true => ['t', 'r', 'u', 'e']
  | .bool false => ['f', 'a', 'l', 's', 'e']
  | .number n => n.text
  | .string body => '"' :: body ++ ['"']
  | .array items => '[' :: textItems items ++ [']']
  | .object fields => '\x7b' :: textFields fields ++ ['\x7d']

def textItems : List Source → List Char
  | [] => []
  | [s] => text s
  | s :: rest => text s ++ ',' :: textItems rest

def textFields : List (List Char × Source) → List Char
  | [] => []
  | [(name, s)] => '"' :: name ++ '"' :: ':' :: text s
  | (name, s) :: rest => '"' :: name ++ '"' :: ':' :: text s ++ ',' :: textFields rest
end

/-! ### Depth -/

mutual
/-- The number of arrays and objects around the deepest value. -/
def depth : Source → Nat
  | .array items => depthItems items + 1
  | .object fields => depthFields fields + 1
  | _ => 0

def depthItems : List Source → Nat
  | [] => 0
  | s :: rest => max (depth s) (depthItems rest)

def depthFields : List (List Char × Source) → Nat
  | [] => 0
  | (_, s) :: rest => max (depth s) (depthFields rest)
end

end Source
end EntityStore
