import EntityStore.Proofs.Json.Canonical
import EntityStore.Proofs.Json.ReadBack
import EntityStore.Proofs.Schema.Form
import EntityStore.Proofs.Schema.Location
import EntityStore.Proofs.Schema.Strip
import Mathlib.Data.Option.Defs

/-! # What is left of a schema document

`SchemaAt` are the locations of a document where a schema stands, `Removed` those that hold a demand
for presence, with all below.  Each location has the rule by which its value is gone through
(`Location.rule`), which depends on the steps to it, and this rule gives what stands there afterwards
(`value?_stripRequired`).  So the demands for presence are removed and nothing else
(`stripRequired_exact`). -/

namespace EntityStore.Schema

/-! ### Keywords -/

/-- Keywords that ask for presence. -/
def presenceKeywords : List String := ["required", "dependentRequired"]

/-- Keywords whose value is an object of schemas by name. -/
def schemaMapKeywords : List String :=
  ["properties", "patternProperties", "dependentSchemas", "$defs", "definitions"]

/-- Keywords whose value is a schema or an array of schemas. -/
def subschemaKeywords : List String :=
  ["additionalProperties", "unevaluatedProperties", "propertyNames", "items", "additionalItems",
    "unevaluatedItems", "prefixItems", "contains", "then", "else", "allOf", "anyOf", "oneOf"]

namespace StripRule

variable {keyword : String}

theorem of_eq_drop_iff : of keyword = drop ↔ keyword ∈ presenceKeywords := by
  unfold of presenceKeywords
  split <;> simp_all

theorem of_eq_members_iff : of keyword = members ↔ keyword ∈ schemaMapKeywords := by
  unfold of schemaMapKeywords
  split <;> simp_all

theorem of_eq_schema_iff : of keyword = schema ↔ keyword ∈ subschemaKeywords := by
  unfold of subschemaKeywords
  split <;> simp_all

theorem of_eq_keep (hpresence : keyword ∉ presenceKeywords) (hmap : keyword ∉ schemaMapKeywords)
    (hsubschema : keyword ∉ subschemaKeywords) (hdependencies : keyword ≠ "dependencies") :
    of keyword = keep := by
  cases hrule : of keyword with
  | drop => exact absurd (of_eq_drop_iff.mp hrule) hpresence
  | members => exact absurd (of_eq_members_iff.mp hrule) hmap
  | schema => exact absurd (of_eq_schema_iff.mp hrule) hsubschema
  | dependencies => exact absurd (keyword_of_dependencies hrule) hdependencies
  | keep => rfl

end StripRule

/-! ### Fields that are gone through -/

section narrowed
variable {p : String × Json → Bool} {g : String → Json → Json} {fields : Fields}

/-- The fields that pass a test, with new values. -/
def narrowed (p : String × Json → Bool) (g : String → Json → Json) (fields : Fields) : Fields :=
  (fields.filter p).map fun f => (f.1, g f.1 f.2)

theorem names_narrowed_sublist : (Fields.names (narrowed p g fields)).Sublist fields.names := by
  unfold narrowed Fields.names
  rw [List.map_map]
  exact List.filter_sublist.map Prod.fst

theorem get?_narrowed (h : fields.Ascending) (name : String) :
    Fields.get? name (narrowed p g fields) =
      ((Fields.get? name fields).filter fun j => p (name, j)).map (g name) := by
  unfold narrowed
  induction fields with
  | nil => rfl
  | cons f rest ih =>
      obtain ⟨key, j⟩ := f
      obtain ⟨hkey, hrest⟩ := List.pairwise_cons.mp h
      rw [List.filter_cons, Fields.get?]
      by_cases hname : key = name
      · -- the names after it are greater, so what fails the test is not found again
        have hnone : Fields.get? name ((rest.filter p).map fun f => (f.1, g f.1 f.2)) = none := by
          apply Fields.get?_eq_none
          intro f hf heq
          obtain ⟨i, hi, rfl⟩ := List.mem_map.mp hf
          have hlt := hkey i (List.mem_filter.mp hi).1
          rw [hname] at hlt
          exact String.lt_irrefl _ (heq ▸ hlt)
        rw [if_pos hname, hname]
        by_cases hp : p (name, j) = true
        · rw [if_pos hp, List.map_cons, Fields.get?, if_pos rfl, Option.filter_some, if_pos hp]
          rfl
        · rw [if_neg hp, hnone, Option.filter_some, if_neg hp]
          rfl
      · rw [if_neg hname, ← ih hrest]
        split
        · rw [List.map_cons, Fields.get?, if_neg hname]
        · rfl

theorem canonical_narrowed (h : (Json.object fields).Canonical)
    (hg : ∀ f ∈ fields, (g f.1 f.2).Canonical) : (Json.object (narrowed p g fields)).Canonical := by
  obtain ⟨hascending, -⟩ := h
  refine ⟨Fields.ascending_iff_names.mpr ?_, Json.canonicalFields_iff.mpr fun f hf => ?_⟩
  · exact (Fields.ascending_iff_names.mp hascending).sublist names_narrowed_sublist
  · obtain ⟨i, hi, rfl⟩ := List.mem_map.mp hf
    exact hg i (List.mem_filter.mp hi).1

/-- A second time nothing changes, if that is so of the values and the test does not mind them. -/
theorem narrowed_narrowed (hg : ∀ f ∈ fields, g f.1 (g f.1 f.2) = g f.1 f.2)
    (hp : ∀ f ∈ fields, p f = true → p (f.1, g f.1 f.2) = true) :
    narrowed p g (narrowed p g fields) = narrowed p g fields := by
  have hall : (narrowed p g fields).filter p = narrowed p g fields := by
    rw [List.filter_eq_self]
    intro f hf
    obtain ⟨i, hi, rfl⟩ := List.mem_map.mp hf
    obtain ⟨hmem, hpass⟩ := List.mem_filter.mp hi
    exact hp i hmem hpass
  rw [narrowed.eq_def p g (narrowed p g fields), hall]
  unfold narrowed
  rw [List.map_map]
  refine List.map_congr_left fun f hf => ?_
  exact Prod.ext rfl (hg f (List.mem_filter.mp hf).1)

end narrowed

theorem stripFields_eq_narrowed (fields : Fields) : stripFields fields =
    narrowed (fun f => StripRule.of f.1 ≠ .drop) stripValue fields :=
  stripFields_eq_map fields

theorem stripMembers_eq_narrowed (members : Fields) : stripMembers members =
    narrowed (fun _ => true) (fun _ => stripRequired) members := by
  rw [narrowed, List.filter_eq_self.mpr fun _ _ => rfl]
  exact stripMembers_eq_map members

theorem stripDependencies_eq_narrowed (members : Fields) : stripDependencies members =
    narrowed (fun m => !m.2.isArray) (fun _ => stripRequired) members :=
  stripDependencies_eq_map members

/-! ### Stripped values -/

/-- What holds of the schemas in the value of a keyword, and makes objects of them, holds of the
value. -/
theorem stripValue_cases {P : Json → Prop} (keyword : String) (j : Json) (hkeep : P j)
    (hschema : P (stripRequired j))
    (hobject : ∀ members p, j = .object members →
      P (.object (narrowed p (fun _ => stripRequired) members))) : P (stripValue keyword j) := by
  unfold stripValue
  split
  · next members _ =>
      rw [stripDependencies_eq_narrowed]
      exact hobject members _ rfl
  · next members _ =>
      rw [stripMembers_eq_narrowed]
      exact hobject members _ rfl
  · exact hschema
  · exact hkeep

/-- Stripping keeps canonical documents canonical. -/
theorem canonical_stripRequired : ∀ j : Json, j.Canonical → (stripRequired j).Canonical
  | .object fields, h => by
      have hvalues := Json.canonicalFields_iff.mp h.2
      rw [stripRequired, stripFields_eq_narrowed]
      refine canonical_narrowed h fun f hf => ?_
      have hfield : sizeOf f.2 < sizeOf (Json.object fields) := sizeOf_field_lt hf
      refine stripValue_cases f.1 f.2 (hvalues f hf) (canonical_stripRequired f.2 (hvalues f hf)) ?_
      intro members p hj
      have hmembers : (Json.object members).Canonical := hj ▸ hvalues f hf
      refine canonical_narrowed hmembers fun m hm => ?_
      have hmember : sizeOf m.2 < sizeOf (Json.object fields) :=
        Nat.lt_trans (hj ▸ sizeOf_field_lt hm) hfield
      exact canonical_stripRequired m.2 (Json.canonicalFields_iff.mp hmembers.2 m hm)
  | .array items, h => by
      have hitems := Json.canonicalItems_iff.mp h
      rw [stripRequired, stripItems_eq_map]
      refine Json.canonicalItems_iff.mpr fun i hi => ?_
      obtain ⟨k, hk, rfl⟩ := List.mem_map.mp hi
      have hitem : sizeOf k < sizeOf (Json.array items) := sizeOf_item_lt hk
      exact canonical_stripRequired k (hitems k hk)
  | .null, h | .bool _, h | .number _, h | .string _, h => h
termination_by j => sizeOf j
decreasing_by all_goals assumption

theorem isArray_stripRequired (j : Json) : (stripRequired j).isArray = j.isArray := by
  cases j <;> rfl

theorem stripValue_stripValue (keyword : String) (j : Json)
    (h : ∀ i, sizeOf i ≤ sizeOf j → stripRequired (stripRequired i) = stripRequired i) :
    stripValue keyword (stripValue keyword j) = stripValue keyword j := by
  have hmember : ∀ members, j = .object members → ∀ m ∈ members,
      stripRequired (stripRequired m.2) = stripRequired m.2 := fun members hj m hm =>
    h m.2 (Nat.le_of_lt (hj ▸ sizeOf_field_lt hm))
  cases hrule : StripRule.of keyword with
  | drop => simp only [stripValue, hrule]
  | keep => simp only [stripValue, hrule]
  | schema =>
      simp only [stripValue, hrule]
      exact h j (Nat.le_refl _)
  | members =>
      cases j with
      | object members =>
          simp only [stripValue, hrule, stripMembers_eq_narrowed]
          exact congrArg Json.object (narrowed_narrowed (hmember members rfl) fun _ _ _ => rfl)
      | null | bool _ | number _ | string _ | array _ => simp only [stripValue, hrule]
  | dependencies =>
      cases j with
      | object members =>
          simp only [stripValue, hrule, stripDependencies_eq_narrowed]
          refine congrArg Json.object (narrowed_narrowed (hmember members rfl) fun m _ hm => ?_)
          rw [isArray_stripRequired]
          exact hm
      | null | bool _ | number _ | string _ | array _ => simp only [stripValue, hrule]

/-- What was stripped stays as it is. -/
theorem stripRequired_stripRequired : ∀ j : Json,
    stripRequired (stripRequired j) = stripRequired j
  | .object fields => by
      simp only [stripRequired, stripFields_eq_narrowed]
      refine congrArg Json.object (narrowed_narrowed (fun f hf => ?_) fun f _ hpass => hpass)
      refine stripValue_stripValue f.1 f.2 fun i hi => ?_
      have hfield : sizeOf i < sizeOf (Json.object fields) :=
        Nat.lt_of_le_of_lt hi (sizeOf_field_lt hf)
      exact stripRequired_stripRequired i
  | .array items => by
      simp only [stripRequired, stripItems_eq_map, List.map_map]
      refine congrArg Json.array (List.map_congr_left fun i hi => ?_)
      have hitem : sizeOf i < sizeOf (Json.array items) := sizeOf_item_lt hi
      exact stripRequired_stripRequired i
  | .null | .bool _ | .number _ | .string _ => rfl
termination_by j => sizeOf j
decreasing_by all_goals assumption

/-! ### Places of schemas -/

/-- A schema, or an array of schemas, stands at the location. -/
inductive SchemaAt (s : Json) : Location → Prop
  | document : SchemaAt s []
  | item {l : Location} (i : Nat) : SchemaAt s l → SchemaAt s (.index i :: l)
  | subschema {l : Location} {keyword : String} : SchemaAt s l → keyword ∈ subschemaKeywords →
      SchemaAt s (.key keyword :: l)
  | named {l : Location} {keyword : String} (name : String) : SchemaAt s l →
      keyword ∈ schemaMapKeywords → SchemaAt s (.key name :: .key keyword :: l)
  | dependency {l : Location} {name : String} : SchemaAt s l →
      (∀ items, Location.value? (.key name :: .key "dependencies" :: l) s ≠ some (.array items)) →
      SchemaAt s (.key name :: .key "dependencies" :: l)

/-- A demand for presence stands at the location or above it. -/
inductive Removed (s : Json) : Location → Prop
  | keyword {l : Location} {keyword : String} : SchemaAt s l → keyword ∈ presenceKeywords →
      Removed s (.key keyword :: l)
  | dependency {l : Location} {name : String} {items : List Json} : SchemaAt s l →
      Location.value? (.key name :: .key "dependencies" :: l) s = some (.array items) →
      Removed s (.key name :: .key "dependencies" :: l)
  | under {l : Location} (step : Step) : Removed s l → Removed s (step :: l)

namespace StripRule

/-- The rule one step below a value, where `child?` stands. -/
def descend (child? : Option Json) : StripRule → Step → StripRule
  | schema, .key keyword => of keyword
  | schema, .index _ => schema
  | members, .key _ => schema
  | dependencies, .key _ => if child?.any Json.isArray then drop else schema
  | drop, _ => drop
  | keep, _ | members, .index _ | dependencies, .index _ => keep

/-- What a value becomes by a rule; nothing is left of what is dropped. -/
def apply : StripRule → Json → Option Json
  | drop, _ => none
  | schema, j => some (stripRequired j)
  | members, .object named => some (.object (stripMembers named))
  | dependencies, .object named => some (.object (stripDependencies named))
  | _, j => some j

/-- What a rule says about a location. -/
def Holds (s : Json) (l : Location) : StripRule → Prop
  | schema => SchemaAt s l
  | drop => Removed s l
  | members => ∃ keyword above, l = .key keyword :: above ∧ keyword ∈ schemaMapKeywords ∧
      SchemaAt s above
  | dependencies => ∃ above, l = .key "dependencies" :: above ∧ SchemaAt s above
  | keep => True

end StripRule

/-- The rule for the value at a location of a schema document. -/
def Location.rule (s : Json) : Location → StripRule
  | [] => .schema
  | step :: l => (rule s l).descend (Location.value? (step :: l) s) step

section places
variable {s : Json} {l : Location}

theorem any_isArray_iff {o : Option Json} :
    o.any Json.isArray = true ↔ ∃ items, o = some (.array items) := by
  cases o with
  | none => exact iff_of_false nofun nofun
  | some j => cases j <;> simp [Json.isArray]

theorem holds_of (hl : SchemaAt s l) (keyword : String) :
    (StripRule.of keyword).Holds s (.key keyword :: l) := by
  cases hrule : StripRule.of keyword with
  | drop => exact .keyword hl (StripRule.of_eq_drop_iff.mp hrule)
  | schema => exact .subschema hl (StripRule.of_eq_schema_iff.mp hrule)
  | members => exact ⟨keyword, l, rfl, StripRule.of_eq_members_iff.mp hrule, hl⟩
  | dependencies =>
      rw [keyword_of_dependencies hrule]
      exact ⟨l, rfl, hl⟩
  | keep => trivial

/-- The rule of a location says what the location is. -/
theorem holds_rule (l : Location) : (l.rule s).Holds s l := by
  induction l with
  | nil => exact .document
  | cons step l ih =>
      rw [Location.rule]
      cases hrule : Location.rule s l with
      | drop =>
          rw [hrule] at ih
          exact .under step ih
      | keep => exact trivial
      | schema =>
          rw [hrule] at ih
          cases step with
          | key keyword => exact holds_of ih keyword
          | index i => exact .item i ih
      | members =>
          rw [hrule] at ih
          obtain ⟨keyword, above, rfl, hkeyword, habove⟩ := ih
          cases step with
          | key name => exact .named name habove hkeyword
          | index i => exact trivial
      | dependencies =>
          rw [hrule] at ih
          obtain ⟨above, rfl, habove⟩ := ih
          cases step with
          | index i => exact trivial
          | key name =>
              rw [StripRule.descend]
              split
              · next hlist =>
                  obtain ⟨items, hitems⟩ := any_isArray_iff.mp hlist
                  exact Removed.dependency habove hitems
              · next hlist =>
                  refine SchemaAt.dependency habove fun items hitems => ?_
                  exact hlist (any_isArray_iff.mpr ⟨items, hitems⟩)

theorem rule_of_schemaAt (h : SchemaAt s l) : l.rule s = .schema := by
  induction h with
  | document => rfl
  | item i _ ih => rw [Location.rule, ih]; rfl
  | subschema _ hkeyword ih =>
      rw [Location.rule, ih]
      exact StripRule.of_eq_schema_iff.mpr hkeyword
  | @named l keyword name _ hkeyword ih =>
      have hmembers : Location.rule s (.key keyword :: l) = .members := by
        rw [Location.rule, ih]
        exact StripRule.of_eq_members_iff.mpr hkeyword
      rw [Location.rule, hmembers]
      rfl
  | @dependency l name _ hvalue ih =>
      have hdependencies : Location.rule s (.key "dependencies" :: l) = .dependencies := by
        rw [Location.rule, ih]
        rfl
      rw [Location.rule, hdependencies, StripRule.descend, if_neg]
      intro hlist
      obtain ⟨items, hitems⟩ := any_isArray_iff.mp hlist
      exact hvalue items hitems

theorem rule_of_removed (h : Removed s l) : l.rule s = .drop := by
  induction h with
  | keyword hl hkeyword =>
      rw [Location.rule, rule_of_schemaAt hl]
      exact StripRule.of_eq_drop_iff.mpr hkeyword
  | @dependency l name items hl hvalue =>
      have hdependencies : Location.rule s (.key "dependencies" :: l) = .dependencies := by
        rw [Location.rule, rule_of_schemaAt hl]
        rfl
      rw [Location.rule, hdependencies, StripRule.descend,
        if_pos (any_isArray_iff.mpr ⟨items, hvalue⟩)]
  | under step _ ih => rw [Location.rule, ih]; rfl

end places

/-! ### What stands at a location afterwards -/

theorem canonical_child? {step : Step} {i j : Json} (hi : i.Canonical)
    (h : step.child? i = some j) : j.Canonical := by
  obtain ⟨name, fields, rfl, rfl, hget⟩ | ⟨k, items, rfl, rfl, hget⟩ := Step.child?_cases h
  · exact Json.canonical_of_get? hi.2 hget
  · exact Json.canonicalItems_iff.mp hi j (List.mem_of_getElem? hget)

theorem canonical_value? {s : Json} (hs : s.Canonical) {l : Location} {j : Json}
    (h : l.value? s = some j) : j.Canonical := by
  induction l generalizing j with
  | nil =>
      cases h
      exact hs
  | cons step l ih =>
      obtain ⟨i, hi, hj⟩ := Location.exists_value?_tail h
      exact canonical_child? (ih hi) hj

namespace StripRule

theorem apply_of (keyword : String) (j : Json) : (of keyword).apply j =
    if of keyword = drop then none else some (stripValue keyword j) := by
  unfold stripValue
  cases of keyword with
  | members => cases j <;> rfl
  | dependencies => cases j <;> rfl
  | drop | schema | keep => rfl

/-- A keyword of a schema. -/
theorem get?_stripFields {fields : Fields} (h : fields.Ascending) (keyword : String) :
    Fields.get? keyword (stripFields fields) =
      (Fields.get? keyword fields).bind (of keyword).apply := by
  rw [stripFields_eq_narrowed, get?_narrowed h]
  cases Fields.get? keyword fields with
  | none => rfl
  | some j =>
      rw [Option.bind_some, apply_of, Option.filter_some]
      by_cases hdrop : of keyword = drop <;> simp [hdrop]

/-- A schema under its name. -/
theorem get?_stripMembers {members : Fields} (h : members.Ascending) (name : String) :
    Fields.get? name (stripMembers members) =
      (Fields.get? name members).bind schema.apply := by
  rw [stripMembers_eq_narrowed, get?_narrowed h]
  cases Fields.get? name members <;> rfl

/-- A dependency under its name. -/
theorem get?_stripDependencies {members : Fields} (h : members.Ascending) (name : String) :
    Fields.get? name (stripDependencies members) = (Fields.get? name members).bind
      (if (Fields.get? name members).any Json.isArray then drop else schema).apply := by
  rw [stripDependencies_eq_narrowed, get?_narrowed h]
  cases Fields.get? name members with
  | none => rfl
  | some j => cases j <;> rfl

/-- Going through a value and then a step down is going down and then through what is there. -/
theorem child?_apply (rule : StripRule) (step : Step) {j : Json} (h : j.Canonical) :
    (rule.apply j).bind step.child? =
      (step.child? j).bind (rule.descend (step.child? j) step).apply := by
  have hidentity : ∀ o : Option Json, o.bind keep.apply = o := fun o => by cases o <;> rfl
  cases rule with
  | drop => cases step.child? j <;> rfl
  | keep => exact (hidentity (step.child? j)).symm
  | schema =>
      cases step with
      | key keyword =>
          cases j with
          | object fields => exact get?_stripFields h.1 keyword
          | null | bool _ | number _ | string _ | array _ => rfl
      | index i =>
          cases j with
          | array items =>
              show (stripItems items)[i]? = items[i]?.bind schema.apply
              rw [stripItems_eq_map, List.getElem?_map]
              cases items[i]? <;> rfl
          | null | bool _ | number _ | string _ | object _ => rfl
  | members =>
      cases step with
      | key name =>
          cases j with
          | object members => exact get?_stripMembers h.1 name
          | null | bool _ | number _ | string _ | array _ => rfl
      | index i =>
          have hitem : (members.apply j).bind (Step.index i).child? = (Step.index i).child? j := by
            cases j <;> rfl
          exact hitem.trans (hidentity _).symm
  | dependencies =>
      cases step with
      | key name =>
          cases j with
          | object members => exact get?_stripDependencies h.1 name
          | null | bool _ | number _ | string _ | array _ => rfl
      | index i =>
          have hitem :
              (dependencies.apply j).bind (Step.index i).child? = (Step.index i).child? j := by
            cases j <;> rfl
          exact hitem.trans (hidentity _).symm

end StripRule

section stripped
variable {s : Json} (hs : s.Canonical)
include hs

/-- At each location of the stripped document stands what its rule makes of what stood there. -/
theorem value?_stripRequired (l : Location) :
    l.value? (stripRequired s) = (l.value? s).bind (l.rule s).apply := by
  induction l with
  | nil => rfl
  | cons step l ih =>
      rw [Location.value?, Location.value?, Location.rule, ih, Location.value?]
      cases hvalue : Location.value? l s with
      | none => rfl
      | some j => exact StripRule.child?_apply (Location.rule s l) step (canonical_value? hs hvalue)

/-- What stands where a schema stands in the stripped document is not changed by stripping it. -/
theorem stripFields_of_schemaAt {l : Location} {fields : Fields}
    (hl : SchemaAt (stripRequired s) l)
    (hvalue : l.value? (stripRequired s) = some (.object fields)) : stripFields fields = fields := by
  have hagain := value?_stripRequired (canonical_stripRequired s hs) l
  rw [stripRequired_stripRequired, rule_of_schemaAt hl, hvalue] at hagain
  have hobject : Json.object fields = .object (stripFields fields) := Option.some.inj hagain
  exact (Json.object.inj hobject).symm

end stripped

/-! ### Nothing else is removed -/

/-- The keywords of a schema ask for no presence. -/
def AsksNoPresence (fields : Fields) : Prop :=
  ∀ f ∈ fields, f.1 ∉ presenceKeywords ∧
    ∀ members, f = ("dependencies", .object members) → ∀ m ∈ members, m.2.isArray = false

theorem asksNoPresence_stripFields (fields : Fields) : AsksNoPresence (stripFields fields) := by
  intro f hf
  rw [stripFields_eq_narrowed] at hf
  obtain ⟨⟨keyword, j⟩, hmem, rfl⟩ := List.mem_map.mp hf
  have hkeeps : StripRule.of keyword ≠ .drop := of_decide_eq_true (List.mem_filter.mp hmem).2
  refine ⟨fun hpresence => hkeeps (StripRule.of_eq_drop_iff.mpr hpresence), ?_⟩
  intro members heq m hm
  obtain ⟨rfl, hvalue⟩ := Prod.mk.inj heq
  have hrule : StripRule.of "dependencies" = .dependencies := rfl
  cases j with
  | object given =>
      simp only [stripValue, hrule, Json.object.injEq] at hvalue
      rw [← hvalue, stripDependencies_eq_narrowed] at hm
      obtain ⟨i, hi, rfl⟩ := List.mem_map.mp hm
      have hlist := (List.mem_filter.mp hi).2
      rw [isArray_stripRequired]
      simpa using hlist
  | null | bool _ | number _ | string _ | array _ =>
      simp only [stripValue, hrule] at hvalue
      cases hvalue

/-- Objects, arrays of one length, or the same value. -/
def SameOutline : Json → Json → Prop
  | .object _, .object _ => True
  | .array items, .array others => items.length = others.length
  | i, j => i = j

theorem sameOutline_refl (j : Json) : SameOutline j j := by
  cases j with
  | object _ => trivial
  | array _ | null | bool _ | number _ | string _ => rfl

/-- What is not dropped keeps its outline. -/
theorem exists_apply {rule : StripRule} (h : rule ≠ .drop) (j : Json) :
    ∃ i, rule.apply j = some i ∧ SameOutline j i := by
  cases rule with
  | drop => exact absurd rfl h
  | keep => exact ⟨j, rfl, sameOutline_refl j⟩
  | schema =>
      refine ⟨stripRequired j, rfl, ?_⟩
      cases j with
      | object fields => trivial
      | array items =>
          show items.length = (stripItems items).length
          rw [stripItems_eq_map, List.length_map]
      | null | bool _ | number _ | string _ => rfl
  | members =>
      cases j with
      | object members => exact ⟨_, rfl, trivial⟩
      | null | bool _ | number _ | string _ | array _ => exact ⟨_, rfl, sameOutline_refl _⟩
  | dependencies =>
      cases j with
      | object members => exact ⟨_, rfl, trivial⟩
      | null | bool _ | number _ | string _ | array _ => exact ⟨_, rfl, sameOutline_refl _⟩

/-- Stripping removes the demands for presence and nothing else.  A second time it changes nothing,
and no schema of the result asks for presence.  At and below the demands of the schemas of the
document nothing is left; at all other places stands what stood there, with the same keys, apart from
the demands, and the same items.  The names of schemas are all kept, whatever they are, and under a
keyword that has no schemas below it that may be changed (`not`, `if`, `enum`, `const`, `default`,
`examples` and unknown ones) the value is the same. -/
theorem stripRequired_exact {s : Json} (hs : s.Canonical) :
    stripRequired (stripRequired s) = stripRequired s ∧
    (∀ l fields, SchemaAt (stripRequired s) l →
      Location.value? l (stripRequired s) = some (.object fields) → AsksNoPresence fields) ∧
    (∀ l, Removed s l → Location.value? l (stripRequired s) = none) ∧
    (∀ l, ¬ Removed s l →
      Option.Rel SameOutline (Location.value? l s) (Location.value? l (stripRequired s))) ∧
    (∀ l keyword (members : Fields), SchemaAt s l → keyword ∈ schemaMapKeywords →
      Location.value? (.key keyword :: l) s = some (.object members) →
      ∃ stripped : Fields, stripped.names = members.names ∧
        Location.value? (.key keyword :: l) (stripRequired s) = some (.object stripped)) ∧
    ∀ l keyword, SchemaAt s l →
      keyword ∉ presenceKeywords ++ schemaMapKeywords ++ subschemaKeywords ++ ["dependencies"] →
      Location.value? (.key keyword :: l) (stripRequired s) =
        Location.value? (.key keyword :: l) s := by
  refine ⟨stripRequired_stripRequired s, fun l fields hl hvalue => ?_, fun l hl => ?_,
    fun l hl => ?_, fun l keyword members hl hkeyword hvalue => ?_, fun l keyword hl hkeyword => ?_⟩
  · rw [← stripFields_of_schemaAt hs hl hvalue]
    exact asksNoPresence_stripFields fields
  · rw [value?_stripRequired hs, rule_of_removed hl]
    cases Location.value? l s <;> rfl
  · have hrule : l.rule s ≠ .drop := by
      intro hdrop
      have hholds := holds_rule (s := s) l
      rw [hdrop] at hholds
      exact hl hholds
    rw [value?_stripRequired hs]
    cases Location.value? l s with
    | none => exact .none
    | some j =>
        obtain ⟨i, hi, houtline⟩ := exists_apply hrule j
        rw [Option.bind_some, hi]
        exact .some houtline
  · have hrule : Location.rule s (.key keyword :: l) = .members := by
      rw [Location.rule, rule_of_schemaAt hl]
      exact StripRule.of_eq_members_iff.mpr hkeyword
    refine ⟨stripMembers members, ?_, by rw [value?_stripRequired hs, hvalue, hrule]; rfl⟩
    rw [stripMembers_eq_map, Fields.names, List.map_map]
    rfl
  · have hrule : Location.rule s (.key keyword :: l) = .keep := by
      simp only [List.mem_append, not_or, List.mem_singleton] at hkeyword
      obtain ⟨⟨⟨hpresence, hmap⟩, hsubschema⟩, hdependencies⟩ := hkeyword
      rw [Location.rule, rule_of_schemaAt hl]
      exact StripRule.of_eq_keep hpresence hmap hsubschema hdependencies
    rw [value?_stripRequired hs, hrule]
    cases Location.value? (.key keyword :: l) s <;> rfl

/-- A property called `required`, demands for presence below `not` and as a dependency. -/
def layeredSchema : Json := .object [
  ("dependencies", .object [("port", .array [.string "host"]),
    ("tls", .object [("required", .array [.string "cert"])])]),
  ("not", .object [("required", .array [.string "legacy"])]),
  ("properties", .object [("required", .object [("required", .array [.string "x"]),
    ("type", .string "object")])]),
  ("required", .array [.string "required"])]

/-- The demands are gone, also that of the property called `required`, which itself stays; what
stands below `not` is the same. -/
theorem stripRequired_exact_layered :
    Location.value? [.key "required"] (stripRequired layeredSchema) = none ∧
    Location.value? [.key "port", .key "dependencies"] (stripRequired layeredSchema) = none ∧
    AsksNoPresence [("type", .string "object")] ∧
    (∃ stripped : Fields, stripped.names = ["required"] ∧
      Location.value? [.key "properties"] (stripRequired layeredSchema) =
        some (.object stripped)) ∧
    Location.value? [.key "not"] (stripRequired layeredSchema) =
      Location.value? [.key "not"] layeredSchema := by
  have hcanonical : layeredSchema.Canonical :=
    (by decide +kernel : layeredSchema.Regular).canonical
  obtain ⟨-, hschemas, hremoved, -, hnames, hkept⟩ := stripRequired_exact hcanonical
  refine ⟨hremoved _ (.keyword .document (by decide)), hremoved _ (.dependency .document rfl),
    hschemas [.key "required", .key "properties"] _ (.named "required" .document (by decide)) rfl,
    hnames [] "properties" _ .document (by decide) rfl, hkept [] "not" .document (by decide)⟩

end EntityStore.Schema
