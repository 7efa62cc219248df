import EntityStore.Query.Statement
import EntityStore.Sql.Eval
import EntityStore.Store.Row

/-! # Searching

A search is run as two statements over the entities of one blueprint: one counts the rows that meet
its conditions, the other one fetches a page of them in order.  Both see the tenant and the
blueprint as the first two placeholders and the search's own from the third on.

Rows that the keys do not tell apart are ordered by id, in the same direction. -/

namespace EntityStore.Store

open Query (Statement Direction Plan)
open Sql (Expr Fault Param Scope Token Value)

variable [FloatReader]

/-! ### Rows as expressions see them -/

def EntityRow.column (r : EntityRow) : Query.Column → Option String
  | .createdAt => some r.created
  | .updatedAt => some r.updated
  | .identifier => some r.identifier
  | .title => r.title

def EntityRow.view (r : EntityRow) : Sql.Row := ⟨r.id, r.data, r.column⟩

/-- The number of the first placeholder of a search. -/
def firstPlaceholder : Nat := 3

/-- What the placeholders of a statement are bound to, the given values from the third on. -/
def boundTo (tenant blueprint : String) (values : List Param) (index : Nat) : Value :=
  match index with
  | 0 => .null
  | 1 => .text tenant.toList
  | 2 => .text blueprint.toList
  | n + 3 =>
    match values[n]? with
    | some p => p.value
    | none => .null

def scopeOf {π : Type} (bound : π → Value) (r : EntityRow) : Scope π := ⟨bound, r.view, none⟩

/-! ### Conditions -/

/-- The depth of the conditions together with the demand for tenant and blueprint. -/
def conditionDepth {π : Type} (conditions : List (Expr π)) : Nat :=
  max 4 (Query.conjunction conditions).height + 1

/-- The deepest expression that the engine takes. -/
def maxDepth : Nat := 1000

/-- The greatest number that the engine takes for a placeholder. -/
def maxPlaceholder : Nat := 32766

/-- Why the engine does not take a statement with that text. -/
def refusal? (s : Statement) (text : List Token) : Option Fault :=
  if maxDepth < conditionDepth s.conditions then some .tooDeep
  else if (Sql.paramsOf text).any (maxPlaceholder < ·) then some .numberTooLarge
  else none

/-- All conditions are true; the first that is not decides. -/
def holdsAll {π : Type} (scope : Scope π) : List (Expr π) → Except Fault Bool
  | [] => .ok true
  | e :: rest =>
    match e.eval scope with
    | .error f => .error f
    | .ok v => if v.truth = some true then holdsAll scope rest else .ok false

/-- The order in which conditions are looked at: those that visit the elements of an array come
last. -/
def evaluationOrder {π : Type} (conditions : List (Expr π)) : List (Expr π) :=
  conditions.filter (fun e => !e.visitsElements) ++ conditions.filter Expr.visitsElements

/-- The rows that meet the conditions. -/
def matching {π : Type} (bound : π → Value) (conditions : List (Expr π)) :
    List EntityRow → Except Fault (List EntityRow)
  | [] => .ok []
  | r :: rest =>
    match holdsAll (scopeOf bound r) (evaluationOrder conditions) with
    | .error f => .error f
    | .ok found =>
      match matching bound conditions rest with
      | .error f => .error f
      | .ok rs => .ok (if found then r :: rs else rs)

/-! ### Order -/

/-- The order of two keys, in which null is below everything. -/
def compareKeys (a b : Value) : Ordering :=
  match a, b with
  | .null, .null => .eq
  | .null, _ => .lt
  | _, .null => .gt
  | a, b => (a.compare? b).getD .eq

/-- A row together with its key. -/
structure Keyed where
  key : Value
  row : EntityRow

/-- By key, then by id. -/
def Keyed.compare (a b : Keyed) : Ordering :=
  (compareKeys a.key b.key).then (Ord.compare a.row.id b.row.id)

def Keyed.le (direction : Direction) (a b : Keyed) : Bool :=
  match direction with
  | .ascending => a.compare b != .gt
  | .descending => a.compare b != .lt

/-- The rows with their keys. -/
def keyed {π : Type} (bound : π → Value) (key : Expr π) : List EntityRow → Except Fault (List Keyed)
  | [] => .ok []
  | r :: rest =>
    match key.eval (scopeOf bound r) with
    | .error f => .error f
    | .ok v =>
      match keyed bound key rest with
      | .error f => .error f
      | .ok ks => .ok (⟨v, r⟩ :: ks)

/-- The rows in order. -/
def sorted (direction : Direction) (ks : List Keyed) : List EntityRow :=
  (ks.mergeSort (Keyed.le direction)).map Keyed.row

/-! ### Statements -/

/-- The number of rows that meet the conditions. -/
def countRows (t : Tables) (tenant blueprint : String) (s : Statement) : Except Fault Nat :=
  match refusal? s (s.conditionTokens .standard) with
  | some f => .error f
  | none =>
    (matching (boundTo tenant blueprint s.countValues) s.conditions
      (t.entitiesOf tenant blueprint)).map List.length

/-- The limit and the offset that are bound to the placeholders of the window. -/
def windowOf (bound : Nat → Value) (s : Statement) : Nat × Nat :=
  let number (v : Value) : Nat :=
    match v with
    | .integer i => i.toNat
    | _ => 0
  (number (bound s.limit), number (bound s.offset))

/-- The rows of the page. -/
def fetchRows (t : Tables) (tenant blueprint : String) (s : Statement) :
    Except Fault (List EntityRow) :=
  match refusal? s
      (s.conditionTokens .standard ++ s.orderTokens .standard ++ s.pageTokens) with
  | some f => .error f
  | none =>
    let bound := boundTo tenant blueprint s.fetchValues
    match matching bound s.conditions (t.entitiesOf tenant blueprint) with
    | .error f => .error f
    | .ok rows =>
      match keyed bound s.key rows with
      | .error f => .error f
      | .ok ks =>
        let (limit, offset) := windowOf bound s
        .ok (((sorted s.direction ks).drop offset).take limit)

/-- How the engine reports a fault. -/
def faultMessage : Fault → String
  | .malformedDocument => "malformed JSON"
  | .badPath => "bad JSON path"
  | .patternTooLong => "LIKE or GLOB pattern too complex"
  | .tooDeep => "Expression tree is too large (maximum depth 1000)"
  | .numberTooLarge => "variable number must be between ?1 and ?32766"

def databaseFault (f : Fault) : StoreError := .internal (.engine (faultMessage f))

/-- A page of the entities of a blueprint that meet a search, and how many there are in all.  A
blueprint that does not exist has none. -/
def search (limits : Query.Limits) (tenant : String) (request : Query.Search) (t : Tables) :
    Except StoreError EntityPage :=
  match request.compile limits with
  | .error e => .error (.filter e)
  | .ok plan =>
    let s := plan.statement firstPlaceholder
    match countRows t tenant request.blueprint s with
    | .error f => .error (databaseFault f)
    | .ok total =>
      match fetchRows t tenant request.blueprint s with
      | .error f => .error (databaseFault f)
      | .ok rows =>
        match readEntities rows with
        | .error e => .error (.internal e)
        | .ok items => .ok ⟨items, total, plan.page.limit, plan.page.offset⟩

end EntityStore.Store
