import EntityStore.Toml.Number
import EntityStore.Toml.Table
import EntityStore.Toml.Text

/-! # TOML documents

`read?` reads a TOML 1.0 text as a layer of settings.  A document is a list of statements, at most
one a line: `key = value` and the headers of tables and of rows.  `Document.after?` says what a
statement does to the tables so far; a statement that gives something twice makes the document
unreadable. -/

namespace EntityStore.Toml

open Config (Layer Setting)

/-! ### Values -/

/-- The items of an array up to its closing bracket. -/
def readItems? (value : List Char → Option (Setting × List Char)) :
    Nat → List Char → Option (List Setting × List Char)
  | 0, _ => none
  | fuel + 1, cs =>
    match skipFill false cs with
    | ']' :: rest => some ([], rest)
    | cs =>
      match value cs with
      | none => none
      | some (s, rest) =>
        match skipFill false rest with
        | ']' :: rest => some ([s], rest)
        | ',' :: rest => (readItems? value fuel rest).map fun (items, rest) => (s :: items, rest)
        | _ => none

/-- A key, an equals sign and a value. -/
def readAssignment? (value : List Char → Option (Setting × List Char)) (cs : List Char) :
    Option ((List String × Setting) × List Char) :=
  match readKey? cs with
  | some (key, '=' :: rest) => (value (skipSpace rest)).map fun (s, rest) => ((key, s), rest)
  | _ => none

/-- The assignments of an inline table up to its closing brace, of which there is at least one. -/
def readInline? (value : List Char → Option (Setting × List Char)) :
    Nat → List Char → Option (List (List String × Setting) × List Char)
  | 0, _ => none
  | fuel + 1, cs =>
    match readAssignment? value cs with
    | none => none
    | some (a, rest) =>
      match skipSpace rest with
      | '\x7d' :: rest => some ([a], rest)
      | ',' :: rest => (readInline? value fuel rest).map fun (as, rest) => (a :: as, rest)
      | _ => none

/-- Give a value to a key. -/
def assignKey? (entries : Entries) (a : List String × Setting) : Option Entries :=
  match a.1.getLast? with
  | some name => entries.assign? a.1.dropLast name a.2
  | none => none

/-- The table that assignments make. -/
def inlineTable? (assignments : List (List String × Setting)) : Option Setting :=
  (assignments.foldlM assignKey? []).map fun entries => .table (Entries.settings entries)

/-- A value that is no array and no table. -/
def readScalar? : List Char → Option (Setting × List Char)
  | 't' :: 'r' :: 'u' :: 'e' :: rest => some (.flag true, rest)
  | 'f' :: 'a' :: 'l' :: 's' :: 'e' :: rest => some (.flag false, rest)
  | cs =>
    match readString? cs with
    | some (s, rest) => some (.text s, rest)
    | none => readNumber? cs

/-- A value with at most `limit` arrays and tables inside one another and at most `fuel` items in
each. -/
def readValue? (fuel : Nat) : Nat → List Char → Option (Setting × List Char)
  | 0, cs => readScalar? cs
  | limit + 1, cs =>
    match cs with
    | '[' :: rest =>
      (readItems? (readValue? fuel limit) fuel rest).map fun (items, rest) => (.list items, rest)
    | '\x7b' :: rest =>
      match skipSpace rest with
      | '\x7d' :: rest => some (.table [], rest)
      | rest =>
        match readInline? (readValue? fuel limit) fuel rest with
        | some (assignments, rest) => (inlineTable? assignments).map (·, rest)
        | none => none
    | cs => readScalar? cs

/-! ### Statements -/

inductive Statement
  | assign (key : List String) (value : Setting)
  | table (key : List String)
  | row (key : List String)

/-- The header of a row. -/
def readRowHeader? (cs : List Char) : Option (Statement × List Char) :=
  match readKey? cs with
  | some (key, ']' :: ']' :: rest) => some (.row key, rest)
  | _ => none

/-- The header of a table. -/
def readTableHeader? (cs : List Char) : Option (Statement × List Char) :=
  match readKey? cs with
  | some (key, ']' :: rest) => some (.table key, rest)
  | _ => none

/-- The statement of a line that is not blank. -/
def readStatement? : List Char → Option (Statement × List Char)
  | '[' :: '[' :: rest => readRowHeader? rest
  | '[' :: rest => readTableHeader? rest
  | cs => (readAssignment? (readValue? cs.length nestingLimit) cs).map
      fun ((key, value), rest) => (.assign key value, rest)

/-- What comes after a comment, or all of it when there is none. -/
def skipComment : List Char → List Char
  | '#' :: rest => rest.dropWhile isPlain
  | cs => cs

/-- The statements of a text, line by line. -/
def readStatements? : Nat → List Char → Option (List Statement)
  | 0, _ => none
  | fuel + 1, cs =>
    match skipComment (skipSpace cs) with
    | [] => some []
    | cs =>
      match lineBreak? cs with
      | some rest => readStatements? fuel rest
      | none =>
        match readStatement? cs with
        | none => none
        | some (s, rest) =>
          match skipComment (skipSpace rest) with
          | [] => some [s]
          | rest =>
            match lineBreak? rest with
            | some rest => (readStatements? fuel rest).map (s :: ·)
            | none => none

/-! ### Documents -/

/-- The tables so far, and the table that assignments go to. -/
structure Document where
  entries : Entries
  current : List String

namespace Document

def empty : Document := ⟨[], []⟩

/-- The tables after one more statement. -/
def after? (d : Document) : Statement → Option Document
  | .assign key value =>
    (d.entries.within? false (fun _ inner => assignKey? inner (key, value)) d.current .header).map
      fun entries => ⟨entries, d.current⟩
  | .table key =>
    match key.getLast? with
    | some name => (d.entries.openTable? key.dropLast name).map fun entries => ⟨entries, key⟩
    | none => none
  | .row key =>
    match key.getLast? with
    | some name => (d.entries.openRow? key.dropLast name).map fun entries => ⟨entries, key⟩
    | none => none

end Document

/-- The settings of a document.  A byte order mark at its start is skipped. -/
def read? (text : String) : Option Layer := do
  let cs := match text.toList with
    | '\ufeff' :: rest => rest
    | cs => cs
  let statements ← readStatements? (cs.length + 1) cs
  let d ← statements.foldlM Document.after? Document.empty
  return Entries.settings d.entries

end EntityStore.Toml
