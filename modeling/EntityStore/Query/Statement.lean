import EntityStore.Json.Printer
import EntityStore.Query.Plan
import EntityStore.Sql.Expr
import EntityStore.Sql.Like
import EntityStore.Sql.Value

/-! # Searches as statements

`Plan.statement` gives the condition, the ordering and the window of a search as query
expressions together with the values that are bound to their placeholders.  Nothing of a request
but its shape gets into an expression: paths, values and needles are bound.

Placeholders are numbered from `first` on, conditions before ordering before window.  A `Binder`
hands them out: `bind` gives the next number and keeps the value, and `take` empties the list of
values while the numbers go on.  The conditions and the key of an ordering are written for any
`Supply` of placeholders. -/

namespace EntityStore.Query

open Sql (Expr Branches Param Token Table)

/-! ### Placeholders -/

/-- A supply of placeholders: `bind` hands out the next one for a value. -/
class Supply (π : outParam Type) (β : Type) where
  bind : β → Param → π × β

/-- Placeholders by number: the next number, and the values bound since they were last taken. -/
structure Binder where
  next : Nat
  values : List Param
deriving DecidableEq

/-- The next number is handed out for a value. -/
def Binder.bind (b : Binder) (value : Param) : Nat × Binder :=
  (b.next, ⟨b.next + 1, b.values ++ [value]⟩)

/-- The values are taken out; the numbers go on. -/
def Binder.take (b : Binder) : List Param × Binder := (b.values, ⟨b.next, []⟩)

instance : Supply Nat Binder := ⟨Binder.bind⟩

/-! ### Conditions -/

/-- What is compared with a value: the expressions for its kind and for its plain value. -/
structure Subject (π : Type) where
  kind : Expr π
  value : Expr π

/-- What the path bound to a placeholder leads to. -/
def Subject.at {π : Type} (path : Expr π) : Subject π := ⟨.kindAt path, .valueAt path⟩

/-- The element of an array. -/
def Subject.element {π : Type} : Subject π := ⟨.elementKind, .elementValue⟩

def isKind {π : Type} (subject : Subject π) (kind : String) : Expr π :=
  .compare .equal subject.kind (.word kind)

def isNumeric {π : Type} (kind : Expr π) : Expr π := .among kind ["integer", "real"]

/-- A number, or a text that spells one, stands in a relation to the value. -/
def comparison {π : Type} (subject : Subject π) (relation : Comparison) (value : Expr π) :
    Expr π :=
  let spelled : Expr π :=
    .cases (.branch (.isDocument subject.value) (.kindOf subject.value) .none)
  .group <| .cases <|
    .branch (isNumeric subject.kind) (.compare (.order relation) subject.value value) <|
    .branch (.and (isKind subject "text") (isNumeric (.group spelled)))
      (.compare (.order relation) (.cast subject.value .real) value) <|
    .otherwise (.integer 0)

/-- The text of a needle: a string itself, of any other value its JSON text. -/
def needleText : Json → List Char
  | .string s => s.toList
  | value => value.source.text

section
variable {π β : Type} [Supply π β]

/-- The subject equals a value: the kinds agree, and so do the plain values.  Arrays and objects
are equal when their texts are. -/
def equality (subject : Subject π) (value : Json) (b : β) : Expr π × β :=
  match value with
  | .null => (isKind subject "null", b)
  | .bool true => (isKind subject "true", b)
  | .bool false => (isKind subject "false", b)
  | .number n =>
    let (p, b) := Supply.bind b (.ofNumber n)
    (.group (.and (isNumeric subject.kind) (.compare .equal subject.value (.param p))), b)
  | .string s =>
    let (p, b) := Supply.bind b (.text s)
    (.group (.and (isKind subject "text") (.compare .equal subject.value (.param p))), b)
  | .array _ =>
    let (p, b) := Supply.bind b (.text value.print)
    (.group (.and (isKind subject "array") (.compare .equal subject.value (.minify (.param p)))), b)
  | .object _ =>
    let (p, b) := Supply.bind b (.text value.print)
    (.group (.and (isKind subject "object") (.compare .equal subject.value (.minify (.param p)))),
      b)

/-- The subject equals one of the values, or what was found before holds. -/
def equalityAny (subject : Subject π) (found : Expr π) : List Json → β → Expr π × β
  | [], b => (found, b)
  | value :: rest, b =>
    let (e, b) := equality subject value b
    equalityAny subject (.or found e) rest b

/-- An array has an equal element, or the text of any other value contains that of the needle. -/
def containment (path : Expr π) (needle : Json) (b : β) : Expr π × β :=
  let subject := Subject.at path
  let (member, b) := equality .element needle b
  let (pattern, b) :=
    Supply.bind b (.text (String.ofList (Sql.Like.containing (needleText needle))))
  let text : Expr π := .casesOf subject.kind <|
    .branch (.word "true") (.word "true") <|
    .branch (.word "false") (.word "false") <|
    .otherwise (.cast subject.value .text)
  (.group <| .cases <|
    .branch (isKind subject "array") (.anyElement path member) <|
    .otherwise (.like (.lower text) (.lower (.param pattern))), b)

/-- The condition of a predicate. -/
def Predicate.condition (p : Predicate) (b : β) : Expr π × β :=
  let (place, b) := Supply.bind b (.text p.path.jsonPath)
  let subject := Subject.at (.param place)
  match p with
  | .equals _ value => equality subject value b
  | .notEquals _ value =>
    let (e, b) := equality subject value b
    (.group (.and (.isNotNull subject.kind) (.not e)), b)
  | .compares _ relation value =>
    let (p, b) := Supply.bind b (.ofNumber value)
    (comparison subject relation (.param p), b)
  | .contains _ needle => containment (.param place) needle b
  | .presence _ true => (.isNotNull subject.kind, b)
  | .presence _ false => (.isNull subject.kind, b)
  | .among _ [] => (.integer 0, b)
  | .among _ (value :: rest) =>
    let (e, b) := equality subject value b
    let (e, b) := equalityAny subject e rest b
    (.group e, b)

/-- The conditions of several predicates, one after the other. -/
def conditions : List Predicate → β → List (Expr π) × β
  | [], b => ([], b)
  | p :: rest, b =>
    let (e, b) := p.condition b
    let (es, b) := conditions rest b
    (e :: es, b)

/-- The first key of an ordering; the second one is the row id. -/
def Target.key (target : Target) (b : β) : Expr π × β :=
  match target with
  | .column c => (.column c, b)
  | .path p =>
    let (place, b) := Supply.bind b (.text p.jsonPath)
    (.cast (.valueAt (.param place)) .text, b)

end

/-- All conditions hold; no condition is always true. -/
def conjunction {π : Type} : List (Expr π) → Expr π
  | [] => .integer 1
  | e :: rest => rest.foldl .and e

/-! ### Statements -/

/-- A search as expressions, each part with the values bound in it. -/
structure Statement where
  conditions : List (Expr Nat)
  conditionValues : List Param
  key : Expr Nat
  direction : Direction
  keyValues : List Param
  limit : Nat
  offset : Nat
  pageValues : List Param

/-- The statement of a plan, its placeholders numbered from `first` on. -/
def Plan.statement (plan : Plan) (first : Nat) : Statement :=
  let (conditions, b) := Query.conditions plan.predicates (⟨first, []⟩ : Binder)
  let (conditionValues, b) := b.take
  let (key, b) := plan.order.target.key b
  let (keyValues, b) := b.take
  let (limit, b) := b.bind (.integer plan.page.limit)
  let (offset, b) := b.bind (.ofNatural plan.page.offset)
  let (pageValues, _) := b.take
  { conditions, conditionValues, key, direction := plan.order.direction, keyValues, limit, offset,
    pageValues }

namespace Statement

/-- The values that a count of the results is given. -/
def countValues (s : Statement) : List Param := s.conditionValues

/-- The values that fetching a page is given. -/
def fetchValues (s : Statement) : List Param := s.conditionValues ++ s.keyValues ++ s.pageValues

def conditionTokens (t : Table) (s : Statement) : List Token := (conjunction s.conditions).tokens t

def orderTokens (t : Table) (s : Statement) : List Token :=
  s.key.tokens t ++ [.fixed (" " ++ s.direction.keyword ++ ", ")] ++ Expr.id.tokens t ++
    [.fixed (" " ++ s.direction.keyword)]

def pageTokens (s : Statement) : List Token :=
  [.fixed "LIMIT ", .param s.limit, .fixed " OFFSET ", .param s.offset]

end Statement
end EntityStore.Query
