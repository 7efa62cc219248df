import EntityStore.Config.Environment

/-! # Variables from `.env` files

A line `NAME=value` adds a variable, unless there is one of that name.  `export` may stand before
the name.  A value ends at white space, may have parts in single or double quotes, and then goes on
over several lines; `$NAME` and `${NAME}` outside single quotes stand for the value of a variable.
A comment starts a line or follows white space.

Reading stops at the first line that is malformed; the lines before it count. -/

namespace EntityStore.Config.DotEnv

open Text (isBlank)

/-! ### Lines

A line that is inside quotes at its end goes on in the next one. -/

/-- Where in a line the reader is. -/
inductive Position
  | plain
  | space
  | escaped
  | double
  | doubleEscaped
  | single
  | singleEscaped
  | comment
deriving DecidableEq

/-- The position after one more character; a line break is no space. -/
def Position.next (p : Position) (c : Char) : Position :=
  let opened : Position :=
    if c = '\\' then escaped else if c = '"' then double else if c = '\'' then single else plain
  match p with
  | plain => if isBlank c && c ≠ '\n' && c ≠ '\r' then space else opened
  | space => if c = '#' then comment else opened
  | escaped => plain
  | double => if c = '\\' then doubleEscaped else if c = '"' then plain else double
  | doubleEscaped => double
  | single => if c = '\\' then singleEscaped else if c = '\'' then plain else single
  | singleEscaped => single
  | comment => comment

/-- The characters up to a comment, and the position at the end. -/
def scanLine (p : Position) : List Char → List Char × Position
  | [] => ([], p)
  | c :: rest =>
    if p.next c = .comment then ([], .comment)
    else
      let (kept, q) := scanLine (p.next c) rest
      (c :: kept, q)

/-- The lines of a text, each with its line break. -/
def lines : List Char → List (List Char)
  | [] => []
  | '\n' :: rest => ['\n'] :: lines rest
  | c :: rest =>
    match lines rest with
    | [] => [[c]]
    | line :: more => (c :: line) :: more

/-- The first character that is no space starts a comment. -/
def isCommentLine (cs : List Char) : Bool := (cs.dropWhile isBlank).head? = some '#'

/-- Lines put together where one goes on in the next.  The last one is missing when the text ends in
its middle. -/
def joinLines (before : List Char) (p : Position) :
    List (List Char) → List (Option (List Char))
  | [] => if p = .plain then [] else [none]
  | line :: more =>
    if isCommentLine (before ++ line) then some [] :: joinLines [] .plain more
    else
      match scanLine p line with
      | (kept, .plain) | (kept, .comment) => some (before ++ kept) :: joinLines [] .plain more
      | (kept, q) => joinLines (before ++ kept) q more

/-! ### Values -/

/-- What a character of a value belongs to. -/
inductive Part
  | plain
  | double
  | single
  /-- After the value only a comment may follow. -/
  | after
deriving DecidableEq

/-- A reference to a variable that is being read. -/
inductive Reference
  | none
  /-- `$NAME`, with the characters so far, last first. -/
  | bare (name : List Char)
  /-- `${NAME}` -/
  | braced (name : List Char)
deriving DecidableEq

/-- A value that is being read; the characters so far, last first. -/
structure Reading where
  read : List Char
  part : Part
  escaped : Bool
  reference : Reference

/-- The characters that a backslash stands before, and what they mean then. -/
def escapedChar? (c : Char) : Option Char :=
  if c = '\\' ∨ c = '\'' ∨ c = '"' ∨ c = '$' ∨ c = ' ' then some c
  else if c = 'n' then some '\n'
  else none

/-- The value of a variable that is referred to; it is empty when there is none. -/
def valueOf (env : Environment) (name : List Char) : List Char :=
  ((env.get? (String.ofList name.reverse)).getD "").toList

/-- Letters and digits, which the name of a reference without braces is made of. -/
def isNameChar (c : Char) : Bool :=
  ('A' ≤ c && c ≤ 'Z') || ('a' ≤ c && c ≤ 'z') || Text.isDigit c

namespace Reading

def start : Reading := ⟨[], .plain, false, .none⟩

/-- The value of a reference is put in. -/
def insert (r : Reading) (env : Environment) (name : List Char) : Reading :=
  { r with read := (valueOf env name).reverse ++ r.read, reference := .none }

def push (r : Reading) (c : Char) : Reading := { r with read := c :: r.read }

/-- One more character outside references and escapes. -/
def plainStep? (r : Reading) (c : Char) : Option Reading :=
  match r.part with
  | .after => none
  | .single => some (if c = '\'' then { r with part := .plain } else r.push c)
  | .double =>
    some (if c = '$' then { r with reference := .bare [] }
      else if c = '"' then { r with part := .plain }
      else if c = '\\' then { r with escaped := true }
      else r.push c)
  | .plain =>
    some (if c = '$' then { r with reference := .bare [] }
      else if c = '\'' then { r with part := .single }
      else if c = '"' then { r with part := .double }
      else if c = '\\' then { r with escaped := true }
      else if c = ' ' ∨ c = '\t' then { r with part := .after }
      else r.push c)

/-- One more character of a value, unless it cannot stand there. -/
def step? (env : Environment) (r : Reading) (c : Char) : Option Reading :=
  if r.escaped then (escapedChar? c).map fun c => { r.push c with escaped := false }
  else
    match r.reference with
    | .none => r.plainStep? c
    | .bare name =>
      if isNameChar c then some { r with reference := .bare (c :: name) }
      else if c = '\x7b' ∧ name = [] then some { r with reference := .braced [] }
      else if c = '$' then some { r.insert env name with reference := .bare [] }
      else some ((r.insert env name).push c)
    | .braced name =>
      if c = '\x7d' then some (r.insert env name)
      else some { r with reference := .braced (c :: name) }

/-- The value at the end of the line; quotes and braces have to be closed. -/
def finish? (env : Environment) (r : Reading) : Option String :=
  match r.part, r.reference with
  | .single, _ | .double, _ | _, .braced _ => none
  | _, .bare name => some (String.ofList (r.insert env name).read.reverse)
  | _, .none => some (String.ofList r.read.reverse)

/-- The rest of a value.  After its end there is white space, and then the line ends or a comment
starts. -/
def run? (env : Environment) (r : Reading) : List Char → Option String
  | [] => r.finish? env
  | c :: rest =>
    if r.part = .after then
      if c = ' ' ∨ c = '\t' then run? env r rest
      else if c = '#' then r.finish? env
      else none
    else
      match r.step? env c with
      | some r => run? env r rest
      | none => none

end Reading

/-! ### Assignments -/

def skipBlank (cs : List Char) : List Char := cs.dropWhile isBlank

/-- A character of the name of a variable. -/
def isKeyChar (c : Char) : Bool := isNameChar c || c = '_' || c = '.'

/-- The name at the front, which does not start with a digit or a point. -/
def readKey? : List Char → Option (List Char × List Char)
  | [] => none
  | c :: rest =>
    if isKeyChar c && !Text.isDigit c && c ≠ '.' then some ((c :: rest).span isKeyChar) else none

/-- A name and what comes after the equals sign behind it. -/
def readTarget? (cs : List Char) : Option (List Char × List Char) := do
  let (key, rest) ← readKey? cs
  match skipBlank rest with
  | '=' :: rest => return (key, rest)
  | rest =>
    if key = "export".toList then
      let (key, rest) ← readKey? rest
      match skipBlank rest with
      | '=' :: rest => return (key, rest)
      | _ => none
    else none

/-- What a line says. -/
inductive Line
  | blank
  | assignment (name value : String)

/-- What a line says, unless it is malformed. -/
def readLine? (env : Environment) (line : List Char) : Option Line :=
  let cs := Text.trimList line
  if cs.isEmpty || cs.head? = some '#' then some .blank
  else
    match readTarget? cs with
    | none => none
    | some (key, rest) =>
      let name := String.ofList key
      match skipBlank rest with
      | [] | '#' :: _ => some (.assignment name "")
      | rest => (Reading.start.run? env rest).map (.assignment name)

/-- The environment after lines, up to the first one that is malformed. -/
def addLines (env : Environment) : List (Option (List Char)) → Environment
  | [] | none :: _ => env
  | some line :: more =>
    match readLine? env line with
    | none => env
    | some .blank => addLines env more
    | some (.assignment name value) => addLines (env.add name value) more

/-- The environment after a file.  A byte order mark at its start is skipped. -/
def load (env : Environment) (text : String) : Environment :=
  let cs := match text.toList with
    | '\ufeff' :: rest => rest
    | cs => cs
  addLines env (joinLines [] .plain (lines cs))

end EntityStore.Config.DotEnv
