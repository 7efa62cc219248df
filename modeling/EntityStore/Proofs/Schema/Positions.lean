import EntityStore.Proofs.Schema.Pieces
import EntityStore.Schema.Reference

/-! # The keywords of a schema document

`keywordsIn` lists the keywords at all places of a document where a schema of its dialect stands.
`Dialect.knows` tells them from keywords of later dialects, which ask for nothing
(`demandOf_of_unknown`).

`isDirect` names the keywords that report what their subschemas report; all but two of them ask for
something plain when they count without demands for presence (`isPlain_demandOf`). -/

namespace EntityStore.Schema

/-! ### Keywords of a dialect -/

/-- The keyword does not come from a later dialect. -/
def Dialect.knows (d : Dialect) : String → Bool
  | "const" | "contains" | "propertyNames" | "if" | "then" | "else" => d.isAfter4
  | "$dynamicRef" | "dependentRequired" | "dependentSchemas" | "prefixItems"
  | "unevaluatedProperties" | "unevaluatedItems" => d.isNewest
  | _ => true

theorem demandOf_of_unknown {d : Dialect} {keyword : String} (h : d.knows keyword = false)
    (fields : Fields) (j : Json) : demandOf d fields keyword j = .nothing := by
  unfold Dialect.knows at h
  split at h
  all_goals cases d
  all_goals first
    | exact absurd h (by decide)
    | rfl

theorem knows_of_demandOf {d : Dialect} {fields : Fields} {keyword : String} {j : Json}
    (h : demandOf d fields keyword j ≠ .nothing) : d.knows keyword = true := by
  by_contra hknows
  exact h (demandOf_of_unknown (Bool.eq_false_iff.mpr hknows) fields j)

/-! ### Places of schemas -/

mutual
/-- The keywords of a schema document, of its subschemas, of theirs and so on.  Definitions are not
among them: only references lead there. -/
def keywordsIn (d : Dialect) : Json → List String
  | .object fields => keywordsInFields d fields
  | _ => []

def keywordsInFields (d : Dialect) : List (String × Json) → List String
  | [] => []
  | (keyword, j) :: rest =>
    (if d.knows keyword then
      keyword ::
        match shapeOf keyword, j with
        | .single, j => keywordsIn d j
        | .list, .array items => keywordsInItems d items
        | .map, .object members | .dependencies, .object members => keywordsInMembers d members
        | .singleOrList, .array items => keywordsInItems d items
        | .singleOrList, j => keywordsIn d j
        | _, _ => []
      else []) ++ keywordsInFields d rest

def keywordsInItems (d : Dialect) : List Json → List String
  | [] => []
  | j :: rest => keywordsIn d j ++ keywordsInItems d rest

def keywordsInMembers (d : Dialect) : List (String × Json) → List String
  | [] => []
  | (_, j) :: rest => keywordsIn d j ++ keywordsInMembers d rest
end

variable {d : Dialect}

theorem keywordsInItems_eq_flatMap (items : List Json) :
    keywordsInItems d items = items.flatMap (keywordsIn d) := by
  induction items with
  | nil => rfl
  | cons j rest ih => rw [keywordsInItems, ih, List.flatMap_cons]

theorem keywordsInMembers_eq_flatMap (members : Fields) :
    keywordsInMembers d members = members.flatMap fun m => keywordsIn d m.2 := by
  induction members with
  | nil => rfl
  | cons m rest ih => rw [keywordsInMembers, ih, List.flatMap_cons]

theorem keywordsIn_object (fields : Fields) : keywordsIn d (.object fields) =
    fields.flatMap fun f => if d.knows f.1 then f.1 :: (subschemas f.1 f.2).flatMap (keywordsIn d)
      else [] := by
  rw [keywordsIn]
  induction fields with
  | nil => rfl
  | cons f rest ih =>
      obtain ⟨keyword, j⟩ := f
      rewrite [List.flatMap_cons, ← ih, flatMap_subschemas fun _ => rfl, keywordsInFields.eq_def,
        funext keywordsInItems_eq_flatMap, funext keywordsInMembers_eq_flatMap]
      rfl

theorem mem_keywordsIn {fields : Fields} {f : String × Json} (hf : f ∈ fields)
    (hknows : d.knows f.1 = true) : f.1 ∈ keywordsIn d (.object fields) := by
  rw [keywordsIn_object]
  refine List.mem_flatMap_of_mem hf ?_
  rw [if_pos hknows]
  exact List.mem_cons_self

theorem keywordsIn_subschema {fields : Fields} {f : String × Json} {i : Json} (hf : f ∈ fields)
    (hknows : d.knows f.1 = true) (hi : i ∈ subschemas f.1 f.2) :
    keywordsIn d i ⊆ keywordsIn d (.object fields) := by
  intro keyword hkeyword
  rw [keywordsIn_object]
  refine List.mem_flatMap_of_mem hf ?_
  rw [if_pos hknows]
  exact List.mem_cons_of_mem _ (List.mem_flatMap_of_mem hi hkeyword)

/-! ### Direct keywords -/

/-- Keywords that report of their subschemas only that they are not met, or look at what other
keywords leave over. -/
def summaryKeywords : List String :=
  ["anyOf", "oneOf", "contains", "unevaluatedProperties", "unevaluatedItems"]

/-- The keyword is none of those, and it leads to no other place of the document.  So it reports what
its subschemas report, apart from `not` and `if`, which decide alike in every mode. -/
def isDirect (keyword : String) : Bool :=
  !summaryKeywords.contains keyword && !isReferenceKeyword keyword

/-! ### Plain keywords -/

/-- A schema without subschemas and references that asks for no presence. -/
def Compiled.isLeaf : Compiled → Bool
  | .check (.present _) => false
  | .always | .never | .check _ | .closed _ _ | .noProperties | .noNames | .noItemsFrom _ => true
  | _ => false

/-- What a keyword asks for that looks at nothing but the violations of its subschemas at their
places, leads to no other place, and asks for no presence itself. -/
def Demand.isPlain : Demand → Bool
  | .check c => Compiled.isLeaf (.check c)
  | .reference _ | .present _ | .together _ | .anyOf | .oneOf | .not _ | .condition
  | .contains _ _ => false
  | _ => true

theorem isPlain_of_furtherItems {items : Option Json} {j : Json} {demand : Demand}
    (h : furtherItemsDemand items j = demand) : demand.isPlain = true := by
  rw [← h]
  unfold furtherItemsDemand
  split
  · split <;> rfl
  · rfl

theorem isLeaf_of_checkOf? {fields : Fields} {keyword : String} {j : Json} {c : Check}
    (h : checkOf? d fields keyword j = some (some c)) : Compiled.isLeaf (.check c) = true := by
  unfold checkOf? at h
  split at h
  all_goals first
    | (cases h <;> rfl)
    | (split at h <;> cases h <;> rfl)
    | (obtain ⟨regex, -, rfl⟩ := Option.map_eq_some_iff.mp (Option.some.inj h); rfl)

/-- A direct keyword that counts in the lenient mode is plain, unless it decides by what is not
reported. -/
theorem isPlain_demandOf {fields : Fields} {keyword : String} {j : Json}
    (hdirect : isDirect keyword = true) (hkeeps : Mode.lenient.keeps keyword = true)
    (hnot : keyword ≠ "not") (hif : keyword ≠ "if") :
    (demandOf d fields keyword j).isPlain = true := by
  unfold demandOf
  split
  · next c hc => exact isLeaf_of_checkOf? hc
  · rfl
  · split
    -- the keywords that are not plain are not direct, do not count, or are excluded
    all_goals first
      | rfl
      | exact absurd hdirect (by decide)
      | exact absurd hkeeps (by decide)
      | exact absurd rfl hnot
      | exact absurd rfl hif
      | exact isPlain_of_furtherItems rfl
      | (split <;> first | rfl | (split <;> rfl))

end EntityStore.Schema
