import EntityStore.Proofs.Wire.Forms

/-! # What the catalog accepts

Each document of the catalog is accepted as a schema, so a value is valid under a name if it has the
form of the record that the name stands for (`validate_filter` and so on).  A record has that form
when it is written, whatever it holds (`validate_write`). -/

namespace EntityStore.Wire

open Query (Filter Search)
open Schema (MeansFrom Validator)

/-- The kind of record that a name of the catalog stands for. -/
def Kind.ofName? : String → Option Kind
  | "blueprint" => some .blueprint
  | "create_blueprint" => some .blueprintDraft
  | "create_entity" => some .entityDraft
  | "entity" => some .entity
  | "filter" => some .filter
  | "search_entities" => some .search
  | "search_page" => some .entityPage
  | "update_entity" => some .entityPatch
  | _ => none

theorem mem_names {name : String} : name ∈ Catalog.names ↔ name = "blueprint" ∨
    name = "create_blueprint" ∨ name = "create_entity" ∨ name = "entity" ∨ name = "filter" ∨
    name = "search_entities" ∨ name = "search_page" ∨ name = "update_entity" := by
  simp only [Catalog.names, Catalog.entries, Fields.names, List.map_cons, List.map_nil,
    List.mem_cons, List.not_mem_nil, or_false]

variable {P : Json → Prop} {j : Json}

/-! ### Documents -/

/-- A value is valid under a name if it has the property that the schema of that name means. -/
theorem validate_iff {name : String} {v : Validator} {fuel : Nat}
    (hname : Catalog.schema? name = some v.root) (hcompile : Validator.compile? v.root = some v)
    (hconstrained : Schema.isUnconstrained v.root = false)
    (hfuel : fuel ≤ v.references.length * 2 + 1)
    (h : MeansFrom (Schema.target? v.dialect v.root) fuel v.schema P) :
    Catalog.validate name j = .ok () ↔ P j := by
  rw [Catalog.validate, hname]
  exact Schema.validate_iff hcompile hconstrained hfuel h

theorem validate_blueprint : Catalog.validate "blueprint" j = .ok () ↔ IsBlueprint j :=
  validate_iff (v := ⟨.draft2020, _, blueprintSchema, []⟩) rfl rfl rfl (Nat.zero_le _)
    fun _ _ => means_blueprint

theorem validate_create_blueprint :
    Catalog.validate "create_blueprint" j = .ok () ↔ IsBlueprintDraft j :=
  validate_iff (v := ⟨.draft2020, _, blueprintDraftSchema, []⟩) rfl rfl rfl (Nat.zero_le _)
    fun _ _ => means_blueprintDraft

theorem validate_create_entity : Catalog.validate "create_entity" j = .ok () ↔ IsEntityDraft j :=
  validate_iff (v := ⟨.draft2020, _, entityDraftSchema, []⟩) rfl rfl rfl (Nat.zero_le _)
    fun _ _ => means_entityDraft

theorem validate_entity : Catalog.validate "entity" j = .ok () ↔ IsEntity j :=
  validate_iff (v := ⟨.draft2020, _, entitySchema, []⟩) rfl rfl rfl (Nat.zero_le _)
    fun _ _ => means_entity

theorem validate_update_entity :
    Catalog.validate "update_entity" j = .ok () ↔ IsEntityPatch j :=
  validate_iff (v := ⟨.draft2020, _, entityPatchSchema, []⟩) rfl rfl rfl (Nat.zero_le _)
    fun _ _ => means_entityPatch

theorem validate_filter : Catalog.validate "filter" j = .ok () ↔ IsFilter j := by
  refine validate_iff (v := ⟨.draft2020, _, filterSchema, ["#/$defs/FilterOperator"]⟩) rfl rfl rfl
    (by decide : 1 ≤ 3) fun n hn => means_filter ?_
  exact MeansFrom.reference (fun _ _ => means_operator) rfl n hn

/-- The schema of a filter is a reference away, and that of its operator another one. -/
theorem validate_search_entities : Catalog.validate "search_entities" j = .ok () ↔ IsSearch j := by
  refine validate_iff (v := ⟨.draft2020, _, searchSchema,
    ["#/$defs/SortDirection", "#/$defs/FilterOperator", "#/$defs/Filter"]⟩) rfl rfl rfl
    (by decide : 2 ≤ 7) fun n hn => means_search ?_ ?_
  · refine MeansFrom.reference (fun m hm => means_filter ?_) rfl n hn
    exact MeansFrom.reference (fun _ _ => means_operator) rfl m hm
  · exact MeansFrom.reference (fun _ _ => means_words _) rfl n (Nat.le_of_succ_le hn)

theorem validate_search_page : Catalog.validate "search_page" j = .ok () ↔ IsEntityPage j := by
  refine validate_iff (v := ⟨.draft2020, _, entityPageSchema, ["#/$defs/Entity"]⟩) rfl rfl rfl
    (by decide : 1 ≤ 3) fun n hn => means_entityPage ?_
  exact MeansFrom.reference (fun _ _ => means_entity) rfl n hn

/-! ### Written records -/

/-- What is found under a name has a form if the value there has it. -/
theorem form_of_get? {fields : Fields} {name : String} {x : Json} (hx : P x)
    (h : fields.get? name = some x) : ∀ v, fields.get? name = some v → P v :=
  fun _ hv => Option.some.inj (h.symm.trans hv) ▸ hx

theorem isText_string (text : String) : IsText (.string text) := ⟨text, rfl⟩

theorem isNullOr_optionalValue {α : Type} {write : α → Json} (h : ∀ a, P (write a)) :
    ∀ a, IsNullOr P (optionalValue write a)
  | none => .inl rfl
  | some a => .inr (h a)

theorem isOperator_ofOperator (o : Query.Operator) : IsOperator (ofOperator o) :=
  ⟨operatorWord o, by cases o <;> decide, rfl⟩

theorem isDirection_ofDirection (d : Query.Direction) : IsDirection (ofDirection d) :=
  ⟨directionWord d, by cases d <;> decide, rfl⟩

theorem isWhole_ofInt64 (i : Int64) : IsWhole (ofInt64 i) := ⟨_, rfl, rfl⟩

theorem isCount_natural (n : Nat) : IsCount (natural n) := by
  refine ⟨_, rfl, rfl, ?_⟩
  rw [Number.compare, ne_eq, Int.compare_eq_lt]
  exact Int.not_lt.mpr (Int.natCast_nonneg n)

theorem isFilter_ofFilter (f : Filter) : IsFilter (ofFilter f) := by
  refine ⟨_, rfl, ?_, ?_⟩
  · simp only [List.forall_mem_cons]
    exact ⟨form_of_get? (isOperator_ofOperator f.operator) rfl,
      form_of_get? (isText_string f.property) rfl, form_of_get? trivial rfl, nofun⟩
  · simp only [List.forall_mem_cons]
    exact ⟨rfl, rfl, nofun⟩

theorem isSearch_ofSearch (s : Search) : IsSearch (ofSearch s) := by
  have hfilters : IsListOf IsFilter (.array (s.filters.map ofFilter)) :=
    ⟨_, rfl, List.forall_mem_map.mpr fun f _ => isFilter_ofFilter f⟩
  refine ⟨_, rfl, ?_, ?_⟩
  · simp only [List.forall_mem_cons]
    exact ⟨form_of_get? (isText_string s.blueprint) rfl, form_of_get? hfilters rfl,
      form_of_get? (isNullOr_optionalValue isWhole_ofInt64 s.limit) rfl,
      form_of_get? (isNullOr_optionalValue isWhole_ofInt64 s.offset) rfl,
      form_of_get? (isNullOr_optionalValue isText_string s.orderBy) rfl,
      form_of_get? (isNullOr_optionalValue isDirection_ofDirection s.direction) rfl, nofun⟩
  · exact List.forall_mem_singleton.mpr rfl

theorem isEntityDraft_ofEntityDraft (d : EntityDraft) : IsEntityDraft (ofEntityDraft d) := by
  refine ⟨_, rfl, ?_, ?_⟩
  · simp only [List.forall_mem_cons]
    exact ⟨form_of_get? (isText_string d.blueprint) rfl, form_of_get? trivial rfl,
      form_of_get? (isText_string d.identifier) rfl,
      form_of_get? (isNullOr_optionalValue isText_string d.title) rfl, nofun⟩
  · simp only [List.forall_mem_cons]
    exact ⟨rfl, rfl, nofun⟩

/-- Fields that are left out have any form. -/
theorem isEntityPatch_ofEntityPatch (p : EntityPatch) : IsEntityPatch (ofEntityPatch p) := by
  refine ⟨_, rfl, ?_, nofun⟩
  simp only [List.forall_mem_cons]
  refine ⟨fun _ _ => trivial, ?_, nofun⟩
  obtain ⟨title, data⟩ := p
  cases title with
  | none => cases data <;> exact nofun
  | some title =>
      have htitle : IsNullOr IsText (.string title) := .inr (isText_string title)
      cases data with
      | none => exact form_of_get? htitle rfl
      | some data => exact form_of_get? htitle rfl

theorem isBlueprintDraft_ofBlueprintDraft (d : BlueprintDraft) :
    IsBlueprintDraft (ofBlueprintDraft d) := by
  refine ⟨_, rfl, ?_, ?_⟩
  · simp only [List.forall_mem_cons]
    exact ⟨form_of_get? (isNullOr_optionalValue isText_string d.description) rfl,
      form_of_get? (isText_string d.id) rfl, form_of_get? trivial rfl,
      form_of_get? (isText_string d.title) rfl, nofun⟩
  · simp only [List.forall_mem_cons]
    exact ⟨rfl, rfl, nofun⟩

theorem isEntity_ofEntity (e : Entity) : IsEntity (ofEntity e) := by
  refine ⟨_, rfl, ?_, ?_⟩
  · simp only [List.forall_mem_cons]
    exact ⟨form_of_get? (isText_string e.blueprint) rfl,
      form_of_get? (isText_string e.created.shown) rfl, form_of_get? trivial rfl,
      form_of_get? (isText_string e.id) rfl, form_of_get? (isText_string e.identifier) rfl,
      form_of_get? (isText_string e.tenant) rfl,
      form_of_get? (isNullOr_optionalValue isText_string e.title) rfl,
      form_of_get? (isText_string e.updated.shown) rfl, nofun⟩
  · simp only [List.forall_mem_cons]
    exact ⟨rfl, rfl, rfl, rfl, rfl, rfl, rfl, nofun⟩

theorem isBlueprint_ofBlueprint (b : Blueprint) : IsBlueprint (ofBlueprint b) := by
  refine ⟨_, rfl, ?_, ?_⟩
  · simp only [List.forall_mem_cons]
    exact ⟨form_of_get? (isText_string b.created.shown) rfl,
      form_of_get? (isNullOr_optionalValue isText_string b.description) rfl,
      form_of_get? (isText_string b.id) rfl, form_of_get? trivial rfl,
      form_of_get? (isText_string b.tenant) rfl, form_of_get? (isText_string b.title) rfl,
      form_of_get? (isText_string b.updated.shown) rfl, nofun⟩
  · simp only [List.forall_mem_cons]
    exact ⟨rfl, rfl, rfl, rfl, rfl, rfl, nofun⟩

theorem isEntityPage_ofEntityPage (p : EntityPage) : IsEntityPage (ofEntityPage p) := by
  have hitems : IsListOf IsEntity (.array (p.items.map ofEntity)) :=
    ⟨_, rfl, List.forall_mem_map.mpr fun e _ => isEntity_ofEntity e⟩
  refine ⟨_, rfl, ?_, ?_⟩
  · simp only [List.forall_mem_cons]
    exact ⟨form_of_get? hitems rfl, form_of_get? (isCount_natural p.limit) rfl,
      form_of_get? (isCount_natural p.offset) rfl, form_of_get? (isCount_natural p.total) rfl, nofun⟩
  · simp only [List.forall_mem_cons]
    exact ⟨rfl, rfl, rfl, rfl, nofun⟩

/-- Every name of the catalog stands for a kind of record, and each record of that kind is valid under
the name once it is written. -/
theorem validate_write {name : String} (hname : name ∈ Catalog.names) :
    ∃ k, Kind.ofName? name = some k ∧ ∀ x : k.Record, Catalog.validate name (k.write x) = .ok () := by
  rcases mem_names.mp hname with rfl | rfl | rfl | rfl | rfl | rfl | rfl | rfl
  · exact ⟨.blueprint, rfl, fun b => validate_blueprint.mpr (isBlueprint_ofBlueprint b)⟩
  · exact ⟨.blueprintDraft, rfl,
      fun d => validate_create_blueprint.mpr (isBlueprintDraft_ofBlueprintDraft d)⟩
  · exact ⟨.entityDraft, rfl, fun d => validate_create_entity.mpr (isEntityDraft_ofEntityDraft d)⟩
  · exact ⟨.entity, rfl, fun e => validate_entity.mpr (isEntity_ofEntity e)⟩
  · exact ⟨.filter, rfl, fun f => validate_filter.mpr (isFilter_ofFilter f)⟩
  · exact ⟨.search, rfl, fun s => validate_search_entities.mpr (isSearch_ofSearch s)⟩
  · exact ⟨.entityPage, rfl, fun p => validate_search_page.mpr (isEntityPage_ofEntityPage p)⟩
  · exact ⟨.entityPatch, rfl, fun p => validate_update_entity.mpr (isEntityPatch_ofEntityPatch p)⟩

/-- Such as a page with an entity without title, whose data is a list. -/
theorem validate_write_search_page : "search_page" ∈ Catalog.names ∧
    Catalog.validate "search_page" (ofEntityPage ⟨[⟨"ent-1", "acme", "service", "api", none,
      .array [.null, .number (.integer (-1))], ⟨1770643800, 0⟩, ⟨1770643859, 1250000000⟩⟩],
      1, 50, 0⟩) = .ok () := by
  have hname : "search_page" ∈ Catalog.names := by decide
  obtain ⟨k, hk, hvalid⟩ := validate_write hname
  cases hk
  exact ⟨hname, hvalid _⟩

end EntityStore.Wire
