import EntityStore.Proofs.Schema.Strip

/-! # What keywords ask for in a mode

A keyword that counts in a mode asks there for what it asks for in the whole document
(`demandOf_mode`): what it reads from its neighbours stays, and of its own value it reads only what
kind of value it is. -/

namespace EntityStore.Schema

variable (m : Mode) (d : Dialect)

/-! ### Neighbours -/

theorem flaggedBound_fields {flag : String} (h : StripRule.of flag = .keep) (fields : Fields)
    (plain exclusive : Bound) : flaggedBound (m.fields fields) flag plain exclusive =
      flaggedBound fields flag plain exclusive := by
  rw [flaggedBound, flaggedBound, m.get?_fields_keep h]

theorem checkOf?_fields (fields : Fields) (keyword : String) (j : Json) :
    checkOf? d (m.fields fields) keyword j = checkOf? d fields keyword j := by
  have hmin : StripRule.of "exclusiveMinimum" = .keep := rfl
  have hmax : StripRule.of "exclusiveMaximum" = .keep := rfl
  unfold checkOf?
  rw [flaggedBound_fields m hmin, flaggedBound_fields m hmax]

theorem listedNames_fields (fields : Fields) :
    listedNames (m.fields fields) = listedNames fields := by
  rw [listedNames, listedNames, m.get?_fields (m.keeps_of_ne (by decide))]
  cases Fields.get? "properties" fields with
  | none => rfl
  | some j =>
      cases j with
      | object members =>
          rw [Option.map_some, m.value_members rfl]
          simp only [Fields.names, List.map_map]
          rfl
      | _ => rw [Option.map_some, m.value_of_not_object (by decide) rfl]

theorem listedPatterns_fields (fields : Fields) :
    listedPatterns (m.fields fields) = listedPatterns fields := by
  rw [listedPatterns, listedPatterns, m.get?_fields (m.keeps_of_ne (by decide))]
  cases Fields.get? "patternProperties" fields with
  | none => rfl
  | some j =>
      cases j with
      | object members =>
          rw [Option.map_some, m.value_members rfl]
          simp only [Fields.names, List.map_map]
          rfl
      | _ => rw [Option.map_some, m.value_of_not_object (by decide) rfl]

theorem prefixLength_fields (fields : Fields) :
    prefixLength (m.fields fields) = prefixLength fields := by
  rw [prefixLength, prefixLength, m.get?_fields (m.keeps_of_ne (by decide))]
  cases Fields.get? "prefixItems" fields with
  | none => rfl
  | some j =>
      rw [Option.map_some, m.value_schema rfl]
      cases j with
      | array items =>
          rw [m.schema_array]
          exact List.length_map _
      | _ => cases m <;> rfl

theorem furtherItemsDemand_fields (fields : Fields) (j : Json) :
    furtherItemsDemand (Fields.get? "items" (m.fields fields)) j =
      furtherItemsDemand (Fields.get? "items" fields) j := by
  rw [m.get?_fields (m.keeps_of_ne (by decide))]
  cases Fields.get? "items" fields with
  | none => rfl
  | some v =>
      rw [Option.map_some, m.value_schema rfl]
      cases v with
      | array items =>
          rw [m.schema_array]
          unfold furtherItemsDemand
          dsimp only
          rw [List.length_map]
      | _ => cases m <;> rfl

theorem demandOf_fields (fields : Fields) (keyword : String) (j : Json) :
    demandOf d (m.fields fields) keyword j = demandOf d fields keyword j := by
  have hproperties : StripRule.of "properties" ≠ .drop := by decide
  have hpatterns : StripRule.of "patternProperties" ≠ .drop := by decide
  have hmin : StripRule.of "minContains" = .keep := rfl
  have hmax : StripRule.of "maxContains" = .keep := rfl
  unfold demandOf
  rw [checkOf?_fields, listedNames_fields, listedPatterns_fields, prefixLength_fields,
    m.contains_fields hproperties, m.contains_fields hpatterns, m.get?_fields_keep hmin,
    m.get?_fields_keep hmax, furtherItemsDemand_fields]

/-! ### The value of the keyword -/

theorem furtherItemsDemand_schema (items : Option Json) (j : Json) :
    furtherItemsDemand items (m.schema j) = furtherItemsDemand items j := by
  rcases items with _ | _ | _ | _ | _ | _ | _ <;> cases m <;> cases j <;> rfl

/-- A schema is read only for whether it is a boolean or an array. -/
theorem demandOf_schema {keyword : String} (h : StripRule.of keyword = .schema) (fields : Fields)
    (j : Json) : demandOf d fields keyword (m.schema j) = demandOf d fields keyword j := by
  unfold StripRule.of at h
  split at h
  all_goals cases h
  all_goals first
    | exact furtherItemsDemand_schema m _ j
    | cases d <;> cases m <;> cases j <;> rfl

/-- Schemas by name are not read at all. -/
theorem demandOf_members {keyword : String} (h : StripRule.of keyword = .members)
    (fields : Fields) (j j' : Json) : demandOf d fields keyword j = demandOf d fields keyword j' := by
  unfold StripRule.of at h
  split at h
  all_goals cases h
  all_goals rfl

theorem demandOf_mode {keyword : String} (h : m.keeps keyword = true) (fields : Fields)
    (j : Json) : demandOf d (m.fields fields) keyword (m.value keyword j) =
      demandOf d fields keyword j := by
  rw [demandOf_fields]
  cases hrule : StripRule.of keyword with
  | drop =>
      cases m with
      | full => rfl
      | lenient => simp only [Mode.keeps, hrule] at h; cases h
  | dependencies =>
      rw [keyword_of_dependencies hrule]
      rfl
  | members => exact demandOf_members d hrule fields _ _
  | schema => rw [m.value_schema hrule, demandOf_schema m d hrule]
  | keep => rw [m.value_keep hrule]

end EntityStore.Schema
