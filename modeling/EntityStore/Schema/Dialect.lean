import EntityStore.Json.Basic

/-! # Schema dialects

A schema document names its dialect under `$schema`; one that names none is in the newest dialect.
Three dialects are covered: drafts 4 and 7 and 2020-12.  The validator knows drafts 6 and 2019-09 as
well.  They are not covered: a document in one of them is refused here, and nothing that is proved
says anything about it. -/

namespace EntityStore.Schema

/-- The dialects that are covered. -/
inductive Dialect
  | draft4
  | draft7
  | draft2020
deriving DecidableEq

namespace Dialect

/-- The name of the dialect in schema documents. -/
def name : Dialect → String
  | draft4 => "http://json-schema.org/draft-04/schema"
  | draft7 => "http://json-schema.org/draft-07/schema"
  | draft2020 => "https://json-schema.org/draft/2020-12/schema"

/-- The covered dialect of a name, with or without hash signs at its end. -/
def ofName? (text : String) : Option Dialect :=
  let trimmed := String.ofList (text.toList.reverse.dropWhile (· = '#')).reverse
  [draft4, draft7, draft2020].find? (fun d => d.name = trimmed)

/-- The dialect of a schema document, unless it names one that is not covered. -/
def of? (schema : Json) : Option Dialect :=
  match schema.field? "$schema" with
  | some (.string text) => ofName? text
  | _ => some draft2020

/-- In the older dialects a reference stands for the whole schema object. -/
def referenceIsAlone : Dialect → Bool
  | draft2020 => false
  | _ => true

/-- The dialect knows a keyword that came after draft 4. -/
def isAfter4 : Dialect → Bool
  | draft4 => false
  | _ => true

def isNewest : Dialect → Bool
  | draft2020 => true
  | _ => false

end Dialect
end EntityStore.Schema
