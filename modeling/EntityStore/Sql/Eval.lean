import EntityStore.Sql.Document
import EntityStore.Sql.Expr
import EntityStore.Sql.Like

/-! # The value of an expression

`Expr.eval` gives the value of an expression on one row, with the values bound to the placeholders
and, inside `anyElement`, the element at hand.  Conditions have three truth values; `and` looks at
its right side only when the left one is not false, and `cases` at a branch only when its guard is
true.  A function that is asked about a text that spells no document fails, and so does a pattern
that is too long. -/

namespace EntityStore.Sql

/-- Why a statement fails, on a row or altogether. -/
inductive Fault
  | malformedDocument
  | badPath
  | patternTooLong
  | tooDeep
  | numberTooLarge
deriving DecidableEq

/-- A stored row, as far as expressions can see it. -/
structure Row where
  id : Option String
  document : Source
  column : Query.Column → Option String

/-- What an expression is evaluated in. -/
structure Scope (π : Type) where
  /-- The value of a placeholder; an unbound one is null. -/
  bound : π → Value
  row : Row
  element : Option Source := none

namespace Truth

def not : Option Bool → Option Bool := Option.map (!·)

def and : Option Bool → Option Bool → Option Bool
  | some false, _ | _, some false => some false
  | some true, some true => some true
  | _, _ => none

def or : Option Bool → Option Bool → Option Bool
  | some true, _ | _, some true => some true
  | some false, some false => some false
  | _, _ => none

end Truth

/-- The relation between two values, unknown when one of them is null. -/
def Relation.test (r : Relation) (x y : Value) : Option Bool :=
  (x.compare? y).map fun o =>
    match r, o with
    | .equal, .eq => true
    | .order .greater, .gt => true
    | .order .greaterEqual, .gt | .order .greaterEqual, .eq => true
    | .order .less, .lt => true
    | .order .lessEqual, .lt | .order .lessEqual, .eq => true
    | _, _ => false

/-- The value is one of the words, unknown for null. -/
def Value.among (x : Value) (words : List String) : Option Bool :=
  match x with
  | .null => none
  | x => some (words.any fun w => x = .text w.toList)

/-- What a path of a document leads to; a null path leads nowhere. -/
def find? (document : Source) (path : Value) : Except Fault (Option Source) :=
  match path with
  | .null => .ok none
  | .text cs =>
    match readPath? cs with
    | some path => .ok (lookup? path document)
    | none => .error .badPath
  | _ => .error .badPath

/-- The document that a value spells; null spells none. -/
def Value.document? (x : Value) : Except Fault (Option Source) :=
  match x with
  | .null => .ok none
  | .text cs =>
    match readDocument? cs with
    | some s => .ok (some s)
    | none => .error .malformedDocument
  | _ => .error .malformedDocument

/-- The kind of a value that may be missing. -/
def kindValue : Option Source → Value
  | none => .null
  | some s => .text (kind s).name.toList

def scalarValue : Option Source → Value
  | none => .null
  | some s => scalar s

def Value.lower : Value → Value
  | .text cs => .text (Text.lower cs)
  | x => x.toText

def Value.cast (x : Value) : Storage → Value
  | .text => x.toText
  | .real =>
    match x with
    | .null => .null
    | .integer i => .real (.finite (.ofInt i))
    | .real r => .real r
    | .text cs => .real (leadingReal cs)

/-- Pattern matching; unknown when the text or the pattern is null. -/
def Value.like (x pattern : Value) : Except Fault (Option Bool) :=
  match x.toText, pattern.toText with
  | x, .text p =>
    if Like.maxLength < (String.ofList p).utf8ByteSize then .error .patternTooLong
    else match x with
      | .text cs => .ok (some (Like.holds p cs))
      | _ => .ok none
  | _, _ => .ok none

/-- The elements of an array; a value that is no array is its own only element. -/
def elements : Source → List Source
  | .array items => items
  | .object fields => fields.map Prod.snd
  | s => [s]

/-- Some item meets the condition; items after the first one that does are not looked at. -/
def anyTrue (condition : Source → Except Fault Value) : List Source → Except Fault Bool
  | [] => .ok false
  | s :: rest =>
    match condition s with
    | .error e => .error e
    | .ok v => if v.truth = some true then .ok true else anyTrue condition rest

mutual
def Expr.eval {π : Type} (scope : Scope π) : Expr π → Except Fault Value
  | .param index => .ok (scope.bound index)
  | .word text => .ok (.text text.toList)
  | .integer value => .ok (.integer value)
  | .column c =>
    .ok (match scope.row.column c with
      | some s => .text s.toList
      | none => .null)
  | .id =>
    match scope.row.id with
    | some id => .ok (.text id.toList)
    | none => .ok .null
  | .kindAt path =>
    match path.eval scope with
    | .error e => .error e
    | .ok p => (find? scope.row.document p).map kindValue
  | .valueAt path =>
    match path.eval scope with
    | .error e => .error e
    | .ok p => (find? scope.row.document p).map scalarValue
  | .elementKind => .ok (kindValue scope.element)
  | .elementValue => .ok (scalarValue scope.element)
  | .kindOf text =>
    match text.eval scope with
    | .error e => .error e
    | .ok v => v.document?.map kindValue
  | .isDocument text =>
    match text.eval scope with
    | .error e => .error e
    | .ok .null => .ok .null
    | .ok v =>
      match v.document? with
      | .error _ => .ok (.integer 0)
      | .ok _ => .ok (.integer 1)
  | .minify text =>
    match text.eval scope with
    | .error e => .error e
    | .ok v => v.document?.map fun
      | none => .null
      | some s => .text s.text
  | .lower text =>
    match text.eval scope with
    | .error e => .error e
    | .ok v => .ok v.lower
  | .cast value storage =>
    match value.eval scope with
    | .error e => .error e
    | .ok v => .ok (v.cast storage)
  | .compare relation left right =>
    match left.eval scope, right.eval scope with
    | .error e, _ | .ok _, .error e => .error e
    | .ok x, .ok y => .ok (.ofTruth (relation.test x y))
  | .among value words =>
    match value.eval scope with
    | .error e => .error e
    | .ok v => .ok (.ofTruth (v.among words))
  | .isNull value =>
    match value.eval scope with
    | .error e => .error e
    | .ok v => .ok (.ofTruth (some (v = .null)))
  | .isNotNull value =>
    match value.eval scope with
    | .error e => .error e
    | .ok v => .ok (.ofTruth (some (v ≠ .null)))
  | .not condition =>
    match condition.eval scope with
    | .error e => .error e
    | .ok v => .ok (.ofTruth (Truth.not v.truth))
  | .and left right =>
    match left.eval scope with
    | .error e => .error e
    | .ok x =>
      if x.truth = some false then .ok (.ofTruth (some false))
      else match right.eval scope with
        | .error e => .error e
        | .ok y => .ok (.ofTruth (Truth.and x.truth y.truth))
  | .or left right =>
    match left.eval scope with
    | .error e => .error e
    | .ok x =>
      if x.truth = some true then .ok (.ofTruth (some true))
      else match right.eval scope with
        | .error e => .error e
        | .ok y => .ok (.ofTruth (Truth.or x.truth y.truth))
  | .like value pattern =>
    match value.eval scope, pattern.eval scope with
    | .error e, _ | .ok _, .error e => .error e
    | .ok x, .ok p => (x.like p).map .ofTruth
  | .cases branches => branches.eval scope (fun guard => guard.truth)
  | .casesOf subject branches =>
    match subject.eval scope with
    | .error e => .error e
    | .ok x => branches.eval scope (fun guard => Relation.equal.test x guard)
  | .anyElement path condition =>
    match path.eval scope with
    | .error e => .error e
    | .ok p =>
      match find? scope.row.document p with
      | .error e => .error e
      | .ok none => .ok (.integer 0)
      | .ok (some s) =>
        (anyTrue (fun element => condition.eval ⟨scope.bound, scope.row, some element⟩)
          (elements s)).map fun found => .ofTruth (some found)
  | .group value => value.eval scope

/-- The value of the first branch that is taken, null when there is none. -/
def Branches.eval {π : Type} (scope : Scope π) (taken : Value → Option Bool) :
    Branches π → Except Fault Value
  | .none => .ok .null
  | .otherwise value => value.eval scope
  | .branch guard value rest =>
    match guard.eval scope with
    | .error e => .error e
    | .ok g => if taken g = some true then value.eval scope else rest.eval scope taken
end

end EntityStore.Sql
