import EntityStore.Proofs.Schema.Strip

/-! # Well-formed documents without demands for presence

A schema document stays well-formed when its demands for presence are removed
(`wellFormed_stripRequired`): what is removed is never needed, and schemas stay schemas. -/

namespace EntityStore.Schema

/-! ### Documents inside documents -/

theorem sizeOf_item_lt {j : Json} {items : List Json} (h : j ∈ items) :
    sizeOf j < sizeOf (Json.array items) := by
  have := List.sizeOf_lt_of_mem h
  rw [Json.array.sizeOf_spec]
  omega

theorem sizeOf_field_lt {f : String × Json} {fields : Fields} (h : f ∈ fields) :
    sizeOf f.2 < sizeOf (Json.object fields) := by
  have := List.sizeOf_lt_of_mem h
  obtain ⟨name, j⟩ := f
  rw [Prod.mk.sizeOf_spec] at this
  rw [Json.object.sizeOf_spec]
  dsimp only
  omega

/-! ### The form of each keyword -/

variable (d : Dialect)

/-- The value of a keyword has its form. -/
def fieldWellFormed (f : String × Json) : Bool :=
  match d.form f.1, f.2 with
  | .schema, j => wellFormed d j
  | .schemas, .array items => !items.isEmpty && wellFormedItems d items
  | .schemaMap, .object members => wellFormedMembers d members
  | .patternMap, .object members =>
    members.all (fun m => (Regex.read? m.1).isSome) && wellFormedMembers d members
  | .schemaOrSchemas, .array items => !items.isEmpty && wellFormedItems d items
  | .boolOrSchema, .bool _ => true
  | .schemaOrSchemas, j | .boolOrSchema, j => wellFormed d j
  | .dependencies, .object members => wellFormedDependencies d members
  | form, j => form.plain j

theorem wellFormedFields_eq_all (fields : Fields) :
    wellFormedFields d fields = fields.all (fieldWellFormed d) := by
  induction fields with
  | nil => rfl
  | cons f rest ih =>
      obtain ⟨keyword, j⟩ := f
      rewrite [wellFormedFields.eq_def, List.all_cons, ← ih, fieldWellFormed.eq_def]
      rfl

theorem wellFormedItems_eq_all (items : List Json) :
    wellFormedItems d items = items.all (wellFormed d) := by
  induction items with
  | nil => rfl
  | cons j rest ih => rw [List.all_cons, ← ih, wellFormedItems]

theorem wellFormedMembers_eq_all (members : Fields) :
    wellFormedMembers d members = members.all fun m => wellFormed d m.2 := by
  induction members with
  | nil => rfl
  | cons m rest ih => rw [List.all_cons, ← ih, wellFormedMembers]

/-- A list of names where a schema could stand. -/
def dependencyWellFormed (j : Json) : Bool :=
  match j with
  | .array items => isNames (.array items) && (d ≠ .draft4 || !items.isEmpty)
  | j => wellFormed d j

theorem wellFormedDependencies_eq_all (members : Fields) :
    wellFormedDependencies d members = members.all fun m => dependencyWellFormed d m.2 := by
  induction members with
  | nil => rfl
  | cons m rest ih =>
      obtain ⟨name, j⟩ := m
      rewrite [wellFormedDependencies.eq_def, List.all_cons, ← ih, dependencyWellFormed.eq_def]
      rfl

/-- Where a schema or an array of schemas may be changed, the keyword has such a value or is not
known to the dialect. -/
theorem form_of_schema {keyword : String} (h : StripRule.of keyword = .schema) :
    d.form keyword = .any ∨ d.form keyword = .schema ∨ d.form keyword = .schemas ∨
      d.form keyword = .schemaOrSchemas ∨ d.form keyword = .boolOrSchema := by
  unfold StripRule.of at h
  split at h
  all_goals cases h
  all_goals cases d <;> decide

theorem form_of_members {keyword : String} (h : StripRule.of keyword = .members) :
    d.form keyword = .any ∨ d.form keyword = .schemaMap ∨ d.form keyword = .patternMap := by
  unfold StripRule.of at h
  split at h
  all_goals cases h
  all_goals cases d <;> decide

theorem form_dependencies : d.form "dependencies" = .dependencies := by
  cases d <;> rfl

/-! ### Removing demands -/

variable {d}

theorem wellFormedItems_map {items : List Json} {strip : Json → Json}
    (ih : ∀ j ∈ items, wellFormed d j = true → wellFormed d (strip j) = true)
    (h : (!items.isEmpty && wellFormedItems d items) = true) :
    (!(items.map strip).isEmpty && wellFormedItems d (items.map strip)) = true := by
  rw [wellFormedItems_eq_all, Bool.and_eq_true, List.all_eq_true] at h
  rw [wellFormedItems_eq_all, List.isEmpty_map, Bool.and_eq_true, List.all_map, List.all_eq_true]
  exact ⟨h.1, fun j hj => ih j hj (h.2 j hj)⟩

theorem wellFormedMembers_map {members : Fields} {strip : Json → Json}
    (ih : ∀ m ∈ members, wellFormed d m.2 = true → wellFormed d (strip m.2) = true)
    (h : wellFormedMembers d members = true) :
    wellFormedMembers d (members.map fun m => (m.1, strip m.2)) = true := by
  rw [wellFormedMembers_eq_all, List.all_eq_true] at h
  rw [wellFormedMembers_eq_all, List.all_map, List.all_eq_true]
  exact fun m hm => ih m hm (h m hm)

theorem dependencies_map {members : Fields}
    (ih : ∀ m ∈ members, wellFormed d m.2 = true → wellFormed d (stripRequired m.2) = true)
    (h : wellFormedDependencies d members = true) :
    fieldWellFormed d ("dependencies", .object
      ((members.filter fun f => Mode.lenient = .full || !f.2.isArray).map
        fun f => (f.1, Mode.lenient.schema f.2))) = true := by
  rw [wellFormedDependencies_eq_all, List.all_eq_true] at h
  rw [fieldWellFormed, form_dependencies]
  dsimp only
  rw [wellFormedDependencies_eq_all, List.all_map, List.all_eq_true]
  intro (name, j) hm
  rw [List.mem_filter] at hm
  have hwell := h _ hm.1
  cases j with
  | array items => cases hm.2
  | _ => exact ih _ hm.1 hwell

/-- The value of a keyword keeps its form, if the schemas in it stay well-formed. -/
theorem fieldWellFormed_value {keyword : String} {j : Json}
    (ih : ∀ i, sizeOf i ≤ sizeOf j → wellFormed d i = true → wellFormed d (stripRequired i) = true)
    (h : fieldWellFormed d (keyword, j) = true) :
    fieldWellFormed d (keyword, Mode.lenient.value keyword j) = true := by
  cases hrule : StripRule.of keyword with
  | drop =>
      have hsame : Mode.lenient.value keyword j = j := by
        rw [Mode.value, stripValue.eq_def, hrule]
      rw [hsame]
      exact h
  | keep =>
      rw [Mode.lenient.value_keep hrule]
      exact h
  | dependencies =>
      have hkeyword := keyword_of_dependencies hrule
      subst hkeyword
      cases j with
      | object members =>
          rw [Mode.value_dependencies]
          refine dependencies_map (fun m hm => ih m.2 (Nat.le_of_lt (sizeOf_field_lt hm))) ?_
          rw [fieldWellFormed, form_dependencies] at h
          exact h
      | _ =>
          rw [Mode.lenient.value_of_not_object (by decide) rfl]
          exact h
  | members =>
      cases j with
      | object members =>
          have ihm : ∀ m ∈ members, wellFormed d m.2 = true →
              wellFormed d (stripRequired m.2) = true :=
            fun m hm => ih m.2 (Nat.le_of_lt (sizeOf_field_lt hm))
          rw [Mode.lenient.value_members hrule]
          unfold fieldWellFormed at h ⊢
          dsimp only at h ⊢
          rcases form_of_members d hrule with hform | hform | hform
          · rw [hform]
            rfl
          · rw [hform] at h ⊢
            exact wellFormedMembers_map ihm h
          · rw [hform] at h ⊢
            dsimp only at h ⊢
            rw [Bool.and_eq_true] at h ⊢
            rw [List.all_map]
            exact ⟨h.1, wellFormedMembers_map ihm h.2⟩
      | _ =>
          rw [Mode.lenient.value_of_not_object (by rw [hrule]; decide) rfl]
          exact h
  | schema =>
      rw [Mode.lenient.value_schema hrule]
      unfold fieldWellFormed at h ⊢
      dsimp only at h ⊢
      have ihj := ih j (Nat.le_refl _)
      rcases form_of_schema d hrule with hform | hform | hform | hform | hform
      · rw [hform]
        rfl
      · rw [hform] at h ⊢
        exact ihj h
      · rw [hform] at h ⊢
        cases j with
        | array items =>
            rw [Mode.schema_array]
            exact wellFormedItems_map (fun i hi => ih i (Nat.le_of_lt (sizeOf_item_lt hi))) h
        | _ => cases h
      · rw [hform] at h ⊢
        cases j with
        | array items =>
            rw [Mode.schema_array]
            exact wellFormedItems_map (fun i hi => ih i (Nat.le_of_lt (sizeOf_item_lt hi))) h
        | _ => exact ihj h
      · rw [hform] at h ⊢
        cases j with
        | bool b => rfl
        | _ => exact ihj h

/-- A schema document stays well-formed without its demands for presence. -/
theorem wellFormed_stripRequired : ∀ j : Json, wellFormed d j = true →
    wellFormed d (stripRequired j) = true
  | .object fields, h => by
      rw [wellFormed, Bool.and_eq_true, wellFormedFields_eq_all, List.all_eq_true] at h
      have hfields : stripRequired (.object fields) = .object (Mode.lenient.fields fields) := rfl
      rw [hfields, wellFormed, Bool.and_eq_true, wellFormedFields_eq_all, List.all_eq_true]
      refine ⟨?_, fun f hf => ?_⟩
      · have hbounds := h.1
        rw [boundsComplete] at hbounds ⊢
        rw [Mode.lenient.contains_fields (by decide), Mode.lenient.contains_fields (by decide),
          Mode.lenient.contains_fields (by decide), Mode.lenient.contains_fields (by decide)]
        exact hbounds
      · rw [Mode.fields_eq_map, List.mem_map] at hf
        obtain ⟨⟨keyword, j⟩, hmem, rfl⟩ := hf
        have hmem := (List.mem_filter.mp hmem).1
        refine fieldWellFormed_value (fun i hi => ?_) (h.2 _ hmem)
        have hlt : sizeOf i < sizeOf (Json.object fields) :=
          Nat.lt_of_le_of_lt hi (sizeOf_field_lt hmem)
        exact wellFormed_stripRequired i
  | .bool _, h => h
  | .array _, h | .null, h | .number _, h | .string _, h => by cases h
termination_by j => sizeOf j
decreasing_by exact hlt

end EntityStore.Schema
