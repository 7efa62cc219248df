import EntityStore.Query.Vocabulary
import EntityStore.Text.Digits

/-! # Query expressions

`Expr π` is the part of the database's expression language that searches use, with placeholders of
type `π`.  Documents are reached through two functions of a path, `kindAt` and `valueAt`, and inside
`anyElement` through the two columns of the element at hand.  Values occur as placeholders only; the
words in an expression are its own.

In a statement placeholders are numbers.  `Expr.tokens` writes such an expression for a table as a
list of fixed text and placeholders, `Token.text` the text of it.  `Expr.height` is the depth that
the database limits. -/

namespace EntityStore.Sql

/-- The names under which a statement sees the searched table. -/
structure Table where
  name : String
  document : String
  id : String
deriving DecidableEq

def Table.standard : Table := ⟨"e", "data", "id"⟩

/-- What a value can be converted to. -/
inductive Storage
  | text
  | real
deriving DecidableEq

/-- A relation that two values are tested for. -/
inductive Relation
  | equal
  | order (c : Query.Comparison)
deriving DecidableEq

mutual
inductive Expr (π : Type)
  | param (placeholder : π)
  | word (text : String)
  | integer (value : Nat)
  | column (column : Query.Column)
  | id
  /-- The kind of what a path of the document leads to. -/
  | kindAt (path : Expr π)
  /-- The plain value of what a path of the document leads to. -/
  | valueAt (path : Expr π)
  | elementKind
  | elementValue
  /-- The kind of the document that a text spells. -/
  | kindOf (text : Expr π)
  | isDocument (text : Expr π)
  /-- A text that spells a document, without its white space. -/
  | minify (text : Expr π)
  | lower (text : Expr π)
  | cast (value : Expr π) (storage : Storage)
  | compare (relation : Relation) (left right : Expr π)
  | among (value : Expr π) (words : List String)
  | isNull (value : Expr π)
  | isNotNull (value : Expr π)
  | not (condition : Expr π)
  | and (left right : Expr π)
  | or (left right : Expr π)
  /-- Pattern matching with the backslash as escape character. -/
  | like (value pattern : Expr π)
  /-- The first branch whose guard is true. -/
  | cases (branches : Branches π)
  /-- The first branch whose guard equals the subject. -/
  | casesOf (subject : Expr π) (branches : Branches π)
  /-- Some element of the array at a path meets the condition. -/
  | anyElement (path condition : Expr π)
  | group (value : Expr π)

inductive Branches (π : Type)
  | none
  | otherwise (value : Expr π)
  | branch (guard value : Expr π) (rest : Branches π)
end

/-! ### Text -/

/-- A piece of statement text: fixed text or a placeholder. -/
inductive Token
  | fixed (text : String)
  | param (index : Nat)
deriving DecidableEq

def Token.text : Token → List Char
  | fixed text => text.toList
  | param index => '?' :: Text.natural index

/-- The text of a token list. -/
def textOf (tokens : List Token) : String := String.ofList (tokens.flatMap Token.text)

/-- The placeholders of a token list, in order. -/
def paramsOf (tokens : List Token) : List Nat :=
  tokens.filterMap fun
    | .param index => some index
    | .fixed _ => none

def Relation.sign : Relation → String
  | equal => "="
  | order c => c.sign

def Storage.name : Storage → String
  | text => "TEXT"
  | real => "REAL"

/-- A word between single quotes. -/
def quoted (word : String) : String := "'" ++ word ++ "'"

mutual
/-- The text of an expression over a table, as fixed pieces and placeholders. -/
def Expr.tokens (t : Table) : Expr Nat → List Token
  | .param index => [.param index]
  | .word text => [.fixed (quoted text)]
  | .integer value => [.fixed (String.ofList (Text.natural value))]
  | .column c => [.fixed (t.name ++ "." ++ c.name)]
  | .id => [.fixed (t.name ++ "." ++ t.id)]
  | .kindAt path =>
    .fixed ("json_type(" ++ t.name ++ "." ++ t.document ++ ", ") :: path.tokens t ++ [.fixed ")"]
  | .valueAt path =>
    .fixed ("json_extract(" ++ t.name ++ "." ++ t.document ++ ", ") :: path.tokens t ++
      [.fixed ")"]
  | .elementKind => [.fixed "je.type"]
  | .elementValue => [.fixed "je.value"]
  | .kindOf text => .fixed "json_type(" :: text.tokens t ++ [.fixed ")"]
  | .isDocument text => .fixed "json_valid(" :: text.tokens t ++ [.fixed ")"]
  | .minify text => .fixed "json(" :: text.tokens t ++ [.fixed ")"]
  | .lower text => .fixed "lower(" :: text.tokens t ++ [.fixed ")"]
  | .cast value storage =>
    .fixed "CAST(" :: value.tokens t ++ [.fixed (" AS " ++ storage.name ++ ")")]
  | .compare relation left right =>
    left.tokens t ++ .fixed (" " ++ relation.sign ++ " ") :: right.tokens t
  | .among value words =>
    value.tokens t ++ [.fixed (" IN (" ++ String.intercalate ", " (words.map quoted) ++ ")")]
  | .isNull value => value.tokens t ++ [.fixed " IS NULL"]
  | .isNotNull value => value.tokens t ++ [.fixed " IS NOT NULL"]
  | .not condition => .fixed "NOT " :: condition.tokens t
  | .and left right => left.tokens t ++ .fixed " AND " :: right.tokens t
  | .or left right => left.tokens t ++ .fixed " OR " :: right.tokens t
  | .like value pattern =>
    value.tokens t ++ .fixed " LIKE " :: pattern.tokens t ++ [.fixed " ESCAPE '\\'"]
  | .cases branches => .fixed "CASE" :: branches.tokens t
  | .casesOf subject branches => .fixed "CASE " :: subject.tokens t ++ branches.tokens t
  | .anyElement path condition =>
    .fixed ("EXISTS (SELECT 1 FROM json_each(" ++ t.name ++ "." ++ t.document ++ ", ") ::
      path.tokens t ++ .fixed ") AS je WHERE " :: condition.tokens t ++ [.fixed ")"]
  | .group value => .fixed "(" :: value.tokens t ++ [.fixed ")"]

def Branches.tokens (t : Table) : Branches Nat → List Token
  | .none => [.fixed " END"]
  | .otherwise value => .fixed " ELSE " :: value.tokens t ++ [.fixed " END"]
  | .branch guard value rest =>
    .fixed " WHEN " :: guard.tokens t ++ .fixed " THEN " :: value.tokens t ++ rest.tokens t
end

/-! ### Depth -/

mutual
/-- How deep an expression is nested, as the database counts it: a name is one, a qualified name
two, and each operator or function one more than its deepest argument. -/
def Expr.height {π : Type} : Expr π → Nat
  | .param _ | .word _ | .integer _ => 1
  | .column _ | .id | .elementKind | .elementValue => 2
  | .kindAt path | .valueAt path => max 2 path.height + 1
  | .kindOf x | .isDocument x | .minify x | .lower x | .cast x _ => x.height + 1
  | .compare _ x y | .and x y | .or x y => max x.height y.height + 1
  | .among x _ => x.height + 1
  | .isNull x | .isNotNull x | .not x => x.height + 1
  | .like x y => max x.height y.height + 1
  | .cases branches => branches.height + 1
  | .casesOf subject branches => max subject.height branches.height + 1
  | .anyElement path condition => max (max 2 path.height + 1) condition.height + 1
  | .group x => x.height

def Branches.height {π : Type} : Branches π → Nat
  | .none => 0
  | .otherwise value => value.height
  | .branch guard value rest => max guard.height (max value.height rest.height)
end

mutual
/-- The expression looks into the elements of an array. -/
def Expr.visitsElements {π : Type} : Expr π → Bool
  | .anyElement _ _ => true
  | .param _ | .word _ | .integer _ | .column _ | .id | .elementKind | .elementValue => false
  | .kindAt x | .valueAt x | .kindOf x | .isDocument x | .minify x | .lower x | .cast x _
  | .among x _ | .isNull x | .isNotNull x | .not x | .group x => x.visitsElements
  | .compare _ x y | .and x y | .or x y | .like x y => x.visitsElements || y.visitsElements
  | .cases branches => branches.visitsElements
  | .casesOf subject branches => subject.visitsElements || branches.visitsElements

def Branches.visitsElements {π : Type} : Branches π → Bool
  | .none => false
  | .otherwise value => value.visitsElements
  | .branch guard value rest =>
    guard.visitsElements || value.visitsElements || rest.visitsElements
end

end EntityStore.Sql
