import EntityStore.Config.Setting

/-! # Tables under construction

A TOML text builds its tables from statements in any order, and the same table may be mentioned
several times: by its header, on the way to another header, and in dotted keys.  `Item` records how
a table came about, because that decides who may still add to it: a header opens a table once, a
dotted key extends only what dotted keys or the way to other headers have made.  Nothing is ever
given twice.

`assign?` adds a value, `openTable?` and `openRow?` start a table and a row of an array of tables;
`settings` is the finished layer. -/

namespace EntityStore.Toml

open Config (Layer Setting)

/-- How a table came about. -/
inductive Origin
  /-- On the way to another header. -/
  | implied
  | dotted
  | header
deriving DecidableEq

inductive Item
  | value (setting : Setting)
  | table (origin : Origin) (entries : List (String × Item))
  /-- An array of tables, by its last row and the rows before, last first. -/
  | rows (latest : List (String × Item)) (earlier : List (List (String × Item)))

abbrev Entries := List (String × Item)

namespace Entries

def get? (name : String) : Entries → Option Item
  | [] => none
  | (n, i) :: rest => if n = name then some i else get? name rest

def put (name : String) (item : Item) : Entries → Entries
  | [] => [(name, item)]
  | (n, i) :: rest => if n = name then (name, item) :: rest else (n, i) :: put name item rest

/-! ### Changing -/

/-- Change the entries of the table at a path, of which the change is told how it came about.
Tables that are not there are made; of an array of tables the last row counts.  A path of dotted
keys does not lead through a table that has a header. -/
def within? (dotted : Bool) (change : Origin → Entries → Option Entries) :
    List String → Origin → Entries → Option Entries
  | [], origin, entries => change origin entries
  | name :: path, _, entries =>
    match get? name entries with
    | none =>
      let origin : Origin := if dotted then .dotted else .implied
      match within? dotted change path origin [] with
      | some inner => some (put name (.table origin inner) entries)
      | none => none
    | some (.value _) => none
    | some (.rows latest earlier) =>
      match within? dotted change path .header latest with
      | some inner => some (put name (.rows inner earlier) entries)
      | none => none
    | some (.table origin inner) =>
      if dotted && origin = .header then none
      else
        match within? dotted change path origin inner with
        | some inner => some (put name (.table origin inner) entries)
        | none => none

/-- Give a value to the key `path.name`.  The table is the one at hand when the path is empty, and
otherwise one that dotted keys have made. -/
def assign? (path : List String) (name : String) (value : Setting) (entries : Entries) :
    Option Entries :=
  within? true (fun origin inner =>
    if decide (origin = .dotted) = path.isEmpty then none
    else if (get? name inner).isSome then none
    else some (put name (.value value) inner)) path .header entries

/-- The header of a table: it may have been implied, and nothing else. -/
def openTable? (path : List String) (name : String) (entries : Entries) : Option Entries :=
  within? false (fun _ inner =>
    match get? name inner with
    | none => some (put name (.table .header []) inner)
    | some (.table .implied below) => some (put name (.table .header below) inner)
    | some _ => none) path .header entries

/-- The header of a row of an array of tables. -/
def openRow? (path : List String) (name : String) (entries : Entries) : Option Entries :=
  within? false (fun _ inner =>
    match get? name inner with
    | none => some (put name (.rows [] []) inner)
    | some (.rows latest earlier) => some (put name (.rows [] (latest :: earlier)) inner)
    | some _ => none) path .header entries

end Entries

/-! ### The finished table -/

mutual
def Item.setting : Item → Setting
  | .value s => s
  | .table _ entries => .table (Entries.settings entries)
  | .rows latest earlier =>
    .list ((Item.rowSettings earlier).reverse ++ [.table (Entries.settings latest)])

def Entries.settings : List (String × Item) → Layer
  | [] => Layer.empty
  | (name, item) :: rest => (Entries.settings rest).set name (Item.setting item)

def Item.rowSettings : List (List (String × Item)) → List Setting
  | [] => []
  | row :: rest => .table (Entries.settings row) :: Item.rowSettings rest
end

end EntityStore.Toml
