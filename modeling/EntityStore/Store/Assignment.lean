import EntityStore.Store.Row

/-! # Blueprints changed by a statement

A patch of a blueprint is written as one statement.  It sets the columns that the patch has fields
for, and the time of the update.  Every value is bound to a placeholder; placeholders are numbered
from one, column after column, and the next two numbers are those of the tenant and the id of the row
that is meant.  So each number depends on which fields came before it.

A cell is a value as the engine gets it.  It is written into whatever column the statement names, or
the constraints of the column refuse it. -/

namespace EntityStore.Store

open Time (Instant)

/-! ### Cells -/

/-- A column of blueprints that can be set. -/
inductive BlueprintColumn
  | title
  | description
  | schema
  | updated
deriving DecidableEq

/-- A value that is bound to a placeholder. -/
inductive Cell
  | null
  | text (text : String)
  | document (source : Source)

/-- An optional text; null where it is absent. -/
def Cell.ofOption : Option String → Cell
  | none => .null
  | some s => .text s

/-- The text of a cell; a document is a text. -/
def Cell.text? : Cell → Option String
  | .null => none
  | .text s => some s
  | .document source => some (String.ofList source.text)

/-- The document of a cell for the column. -/
def Cell.toDocument (column : String) : Cell → Except Constraint Source
  | .null => .error (.missingColumn column)
  | .text s => neededDocument column s
  | .document source =>
    if Sql.isDocument source then .ok source else .error (.invalidDocument column)

/-- The row with a cell in a column. -/
def BlueprintRow.set (r : BlueprintRow) (column : BlueprintColumn) (value : Cell) :
    Except Constraint BlueprintRow :=
  match column with
  | .title => (needed "title" value.text?).map fun title => { r with title }
  | .description => .ok { r with description := value.text? }
  | .schema => (value.toDocument "schema").map fun schema => { r with schema }
  | .updated => (needed "updated_at" value.text?).map fun updated => { r with updated }

/-! ### Numbers -/

/-- Columns with the numbers of their placeholders, the values of all placeholders so far, and the
next number. -/
structure Assignments where
  columns : List (BlueprintColumn × Nat)
  values : List Cell
  next : Nat

namespace Assignments

def empty : Assignments := ⟨[], [], 1⟩

/-- The column is set to the value of the next placeholder. -/
def set (column : BlueprintColumn) (value : Cell) (a : Assignments) : Assignments :=
  ⟨a.columns ++ [(column, a.next)], a.values ++ [value], a.next + 1⟩

/-- The column is set if there is a value for it. -/
def setSome (column : BlueprintColumn) : Option Cell → Assignments → Assignments
  | none, a => a
  | some value, a => a.set column value

end Assignments

/-! ### Statements -/

/-- A statement that sets columns of the row whose tenant and id have the numbers. -/
structure BlueprintUpdate where
  columns : List (BlueprintColumn × Nat)
  tenant : Nat
  id : Nat
  values : List Cell

/-- The statement of a patch. -/
def BlueprintPatch.statement (patch : BlueprintPatch) (time : Instant) (tenant id : String) :
    BlueprintUpdate :=
  let a := Assignments.empty
    |>.setSome .title (patch.title.map .text)
    |>.setSome .description (patch.description.map .ofOption)
    |>.setSome .schema (patch.schema.map fun schema => .document schema.source)
    |>.set .updated (.text time.stored)
  ⟨a.columns, a.next, a.next + 1, a.values ++ [.text tenant, .text id]⟩

/-- The value of a number, which counts from one; a placeholder without value is null. -/
def cellAt (values : List Cell) : Nat → Cell
  | 0 => .null
  | n + 1 => values[n]?.getD .null

namespace BlueprintUpdate
variable (s : BlueprintUpdate)

/-- The statement is about the row.  Null is equal to nothing. -/
def selects (r : BlueprintRow) : Bool :=
  (cellAt s.values s.tenant).text? = some r.tenant && (cellAt s.values s.id).text? = some r.id

/-- The row with all columns set. -/
def write (r : BlueprintRow) : Except Constraint BlueprintRow :=
  s.columns.foldlM (fun r (column, number) => r.set column (cellAt s.values number)) r

/-- How many rows are changed, and the tables afterwards. -/
def run (t : Tables) : Except Constraint (Nat × Tables) := do
  let rows ← t.blueprints.mapM fun r => if s.selects r then s.write r else .ok r
  return (t.blueprints.countP s.selects, ⟨rows, t.entities⟩)

end BlueprintUpdate
end EntityStore.Store
