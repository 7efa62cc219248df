import EntityStore.Query.Filter

/-! # Search plans

A search asks for filters, an ordering and a window of results.  `Search.compile` turns it into a
`Plan`, or reports the first filter that cannot be compiled, and after the filters the ordering;
the window is always brought inside its limits. -/

namespace EntityStore.Query

/-! ### Ordering -/

/-- What results are ordered by. -/
inductive Target
  | column (column : Column)
  | path (path : Path)
deriving DecidableEq

structure Order where
  target : Target
  direction : Direction
deriving DecidableEq

/-- The latest entities first. -/
def Order.standard : Order := ⟨.column .createdAt, .descending⟩

/-- The order for a target and a direction given as text.  A blank target is the standard one; a
text that names no column is a path. -/
def Order.compile (orderBy : Option String) (direction : Option Direction) : Except Error Order :=
  let direction := direction.getD Order.standard.direction
  let name := (orderBy.map Text.trim).getD ""
  if name.isEmpty then .ok ⟨Order.standard.target, direction⟩
  else
    match Column.ofName? name with
    | some column => .ok ⟨.column column, direction⟩
    | none =>
      match readPath name with
      | .error e => .error e
      | .ok path => .ok ⟨.path path, direction⟩

/-! ### Window -/

/-- The limits of a page: how many results when no valid number is asked for, and how many at
most. -/
structure Limits where
  default : Nat
  max : Nat
deriving DecidableEq

def Limits.standard : Limits := ⟨50, 100⟩

/-- A window of results. -/
structure Page where
  limit : Nat
  offset : Nat
deriving DecidableEq

/-- The window for a limit and an offset as asked.  A limit outside `1 … max` is replaced by the
default and a negative offset by zero. -/
def Limits.window (limits : Limits) (limit offset : Option Int) : Page :=
  let asked := (limit.getD 0).toNat
  ⟨if 1 ≤ asked ∧ asked ≤ limits.max then asked else limits.default, (offset.getD 0).toNat⟩

/-! ### Plans -/

/-- A search as it was asked. -/
structure Search where
  blueprint : String
  filters : List Filter
  orderBy : Option String
  direction : Option Direction
  limit : Option Int64
  offset : Option Int64
deriving DecidableEq

/-- A search in which everything has been checked. -/
structure Plan where
  predicates : List Predicate
  order : Order
  page : Page
deriving DecidableEq

def Search.compile (limits : Limits) (s : Search) : Except Error Plan :=
  match Filter.compileAll s.filters with
  | .error e => .error e
  | .ok predicates =>
    match Order.compile s.orderBy s.direction with
    | .error e => .error e
    | .ok order =>
      .ok ⟨predicates, order, limits.window (s.limit.map Int64.toInt) (s.offset.map Int64.toInt)⟩

end EntityStore.Query
