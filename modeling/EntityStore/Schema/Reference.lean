import EntityStore.Schema.Compile
import EntityStore.Schema.WellFormed
import EntityStore.Schema.Validate

/-! # References inside a schema document

A reference that is covered is `#`, which means the whole document, or `#/` and the pointer of a place
in it.
`Compiled.references` lists the references of a schema, and `reached?` those together with all that
are found behind them, provided that each leads to a schema. -/

namespace EntityStore.Schema

/-! ### Following a pointer -/

/-- Percent escapes of ASCII characters replaced by the characters. -/
def percentDecoded : List Char → List Char
  | '%' :: a :: b :: rest =>
    match Text.hexValue? a, Text.hexValue? b with
    | some h, some l =>
      if h * 16 + l < 128 then Char.ofNat (h * 16 + l) :: percentDecoded rest
      else '%' :: percentDecoded (a :: b :: rest)
    | _, _ => '%' :: percentDecoded (a :: b :: rest)
  | c :: rest => c :: percentDecoded rest
  | [] => []

/-- The place below a value that the pieces of a pointer lead to. -/
def descend? : List (List Char) → Json → Option Json
  | [], j => some j
  | raw :: rest, j =>
    let piece := unescapePointer raw
    match j with
    | .object fields => (Fields.get? (String.ofList piece) fields).bind (descend? rest)
    | .array items => ((indexOf? piece).bind (items[·]?)).bind (descend? rest)
    | _ => none

/-- The place of a document that a reference names by `#` or by a pointer.  Names that schemas give
themselves (`$id`, `$anchor`) and other documents are not covered: such a reference leads nowhere here,
and a document that has one is not accepted. -/
def resolve? (root : Json) (reference : String) : Option Json :=
  match reference.toList with
  | [] | ['#'] => some root
  | '#' :: '/' :: pointer => descend? (Text.splitAt '/' (percentDecoded pointer)) root
  | _ => none

/-! ### References of a schema -/

mutual
/-- The references that a schema makes itself, those of the siblings it looks at among them. -/
def Compiled.references : Compiled → List String
  | .always | .never | .check _ | .closed _ _ | .noProperties | .noNames | .noItemsFrom _ => []
  | .reference pointer => [pointer]
  | .all ss | .allOf ss | .anyOf ss | .oneOf ss => referencesOf ss
  | .not _ s | .property _ s | .matching _ s | .additional _ _ s | .names s | .dependent _ s
  | .item _ s | .itemsFrom _ s | .contains _ _ s => s.references
  | .unevaluatedProperties siblings s | .unevaluatedItems siblings s =>
    referencesOf siblings ++ s.references
  | .ifThenElse c t e => c.references ++ (t.references ++ e.references)

def referencesOf : List Compiled → List String
  | [] => []
  | s :: rest => s.references ++ referencesOf rest
end

/-- The keywords whose value is a reference. -/
def isReferenceKeyword (keyword : String) : Bool := keyword = "$ref" || keyword = "$dynamicRef"

mutual
/-- The references written anywhere in a document. -/
def writtenReferences : Json → List String
  | .array items => writtenInItems items
  | .object fields => writtenInFields fields
  | _ => []

def writtenInItems : List Json → List String
  | [] => []
  | j :: rest => writtenReferences j ++ writtenInItems rest

def writtenInFields : List (String × Json) → List String
  | [] => []
  | (keyword, j) :: rest =>
    (if isReferenceKeyword keyword then j.asString?.toList else []) ++
      (writtenReferences j ++ writtenInFields rest)
end

/-- The schema that a reference of a document leads to. -/
def target? (d : Dialect) (root : Json) (reference : String) : Option Compiled :=
  (resolve? root reference).bind (Compiled.ofJson? d)

/-- The seen references, the waiting ones and all behind those, unless one of them leads to no
schema.  `fuel` bounds the number of references that are not seen yet. -/
def reached? (target : String → Option Compiled) : Nat → List String → List String →
    Option (List String)
  | 0, seen, waiting => if waiting.all seen.contains then some seen else none
  | fuel + 1, seen, waiting =>
    match waiting.filter (fun r => !seen.contains r) with
    | [] => some seen
    | r :: rest =>
      match target r with
      | none => none
      | some s => reached? target fuel (r :: seen) (s.references ++ rest)

end EntityStore.Schema
