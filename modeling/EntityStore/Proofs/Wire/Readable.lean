import EntityStore.Proofs.Wire.Catalog

/-! # Valid values that are read

A value that is valid under a name of the catalog is read as a record of the kind that the name stands
for if its numbers and times are exact (`exists_read?_iff`).  A schema says less of them than a reader
asks: a number may be written with a point or be outside its width, since the format of a number is
not checked, and a time may be any text.  All else that a reader asks for is in the schema: a record
without numbers and times is read whenever it is valid. -/

namespace EntityStore.Wire

open Query (Filter Search)

/-! ### Exact values -/

def IsInt64 (j : Json) : Prop := ∃ i : Int64, j = ofInt64 i

def IsNatural (bound : Nat) (j : Json) : Prop := ∃ n, j = natural n ∧ n < bound

def IsTime (j : Json) : Prop := ∃ text i, j = .string text ∧ Time.readField? text = some i

/-- The field has the form, if it is there. -/
def FieldIs (name : String) (P : Json → Prop) (j : Json) : Prop :=
  ∀ v, j.field? name = some v → P v

def IsTimed (j : Json) : Prop := FieldIs "created_at" IsTime j ∧ FieldIs "updated_at" IsTime j

/-- Numbers are integers of their width, and times are texts that show a time. -/
def Kind.Exact : Kind → Json → Prop
  | search, j => FieldIs "limit" (IsNullOr IsInt64) j ∧ FieldIs "offset" (IsNullOr IsInt64) j
  | entity, j | blueprint, j => IsTimed j
  | entityPage, j => FieldIs "items" (IsListOf IsTimed) j ∧
      FieldIs "total" (IsNatural unsignedBound) j ∧ FieldIs "limit" (IsNatural halfBound) j ∧
      FieldIs "offset" (IsNatural unsignedBound) j
  | filter, _ | entityDraft, _ | entityPatch, _ | blueprintDraft, _ | fieldError, _ | tenant, _ =>
      True

/-! ### Fields -/

section fields
variable {α : Type} {read : Json → Option α} {P Q : Json → Prop} {given : Option Json}

theorem exists_required (h : ∀ v, P v → ∃ a, read v = some a) (hform : ∀ v, given = some v → P v)
    (hgiven : given.isSome = true) : ∃ a, required read given = some a := by
  obtain ⟨v, rfl⟩ := Option.isSome_iff_exists.mp hgiven
  exact h v (hform v rfl)

theorem exists_optional (h : ∀ v, P v → ∃ a, read v = some a)
    (hform : ∀ v, given = some v → IsNullOr P v) : ∃ a, optional read given = some a := by
  cases given with
  | none => exact ⟨none, rfl⟩
  | some v =>
      by_cases hnull : v = .null
      · exact ⟨none, by rw [hnull]; rfl⟩
      · obtain ⟨a, ha⟩ := h v ((hform v rfl).resolve_left hnull)
        exact ⟨some a, by rw [optional_of_ne_null hnull, ha, Option.map_some]⟩

theorem exists_orElse (default : α) (h : ∀ v, P v → ∃ a, read v = some a)
    (hform : ∀ v, given = some v → P v) : ∃ a, orElse default read given = some a := by
  cases given with
  | none => exact ⟨default, rfl⟩
  | some v => exact h v (hform v rfl)

theorem form_of_required {a : α} (h : ∀ v a, read v = some a → P v)
    (hread : required read given = some a) : ∀ v, given = some v → P v := by
  rintro v rfl
  exact h v a hread

theorem form_of_optional {a : Option α} (h : ∀ v a, read v = some a → P v)
    (hread : optional read given = some a) : ∀ v, given = some v → IsNullOr P v := by
  rintro v rfl
  by_cases hnull : v = .null
  · exact .inl hnull
  · rw [optional_of_ne_null hnull, Option.map_eq_some_iff] at hread
    obtain ⟨b, hb, -⟩ := hread
    exact .inr (h v b hb)

/-! ### Lists -/

theorem isListOf_array {items : List Json} : IsListOf P (.array items) ↔ ∀ v ∈ items, P v := by
  constructor
  · rintro ⟨_, hitems, hall⟩
    cases hitems
    exact hall
  · exact fun hall => ⟨items, rfl, hall⟩

theorem isListOf_congr {j : Json} (hj : IsListOf Q j) {P' : Json → Prop}
    (h : ∀ v, Q v → (P v ↔ P' v)) : IsListOf P j ↔ IsListOf P' j := by
  obtain ⟨items, rfl, hitems⟩ := hj
  rw [isListOf_array, isListOf_array]
  exact forall₂_congr fun v hv => h v (hitems v hv)

/-- The items of a canonical list are canonical. -/
theorem IsListOf.canonical {j : Json} (hj : IsListOf Q j) (hcanonical : j.Canonical) :
    IsListOf (fun v => v.Canonical ∧ Q v) j := by
  obtain ⟨items, rfl, hitems⟩ := hj
  exact ⟨items, rfl, fun v hv => ⟨Json.canonicalItems_iff.mp hcanonical v hv, hitems v hv⟩⟩

theorem exists_readItems? {items : List Json} : (∃ as, readItems? read items = some as) ↔
    ∀ v ∈ items, ∃ a, read v = some a := by
  induction items with
  | nil => exact iff_of_true ⟨[], rfl⟩ fun _ hv => absurd hv List.not_mem_nil
  | cons v rest ih =>
      rw [List.forall_mem_cons, ← ih]
      simp only [readItems?, Option.bind_eq_bind, Option.bind_eq_some_iff, Option.pure_def,
        Option.some.injEq]
      constructor
      · rintro ⟨_, a, ha, as, has, -⟩
        exact ⟨⟨a, ha⟩, as, has⟩
      · rintro ⟨⟨a, ha⟩, as, has⟩
        exact ⟨a :: as, a, ha, as, has, rfl⟩

theorem exists_readList? {j : Json} : (∃ as, readList? read j = some as) ↔
    IsListOf (fun v => ∃ a, read v = some a) j := by
  simp only [readList?_eq_some, IsListOf, ← exists_readItems?]
  constructor
  · rintro ⟨as, items, rfl, has⟩
    exact ⟨items, rfl, as, has⟩
  · rintro ⟨items, rfl, as, has⟩
    exact ⟨as, items, rfl, has⟩

end fields

/-! ### Plain values -/

theorem exists_readString? : ∀ j, IsText j → ∃ text, readString? j = some text := by
  rintro _ ⟨text, rfl⟩
  exact ⟨text, rfl⟩

theorem exists_readAny? : ∀ j, IsAnything j → ∃ v, readAny? j = some v := fun j _ =>
  ⟨j.canonical, rfl⟩

theorem exists_readOperator? : ∀ j, IsOperator j → ∃ o, readOperator? j = some o := by
  have hnames : ∀ word ∈ operatorNames.flatten, (operatorOfWord? word).isSome = true := by
    decide
  rintro _ ⟨word, hword, rfl⟩
  exact Option.isSome_iff_exists.mp (hnames word hword)

theorem exists_readDirection? : ∀ j, IsDirection j → ∃ d, readDirection? j = some d := by
  have hnames : ∀ word ∈ ["asc", "desc"], (directionOfWord? word).isSome = true := by decide
  rintro _ ⟨word, hword, rfl⟩
  exact Option.isSome_iff_exists.mp (hnames word hword)

theorem exists_readInt64? : ∀ j, IsInt64 j → ∃ i, readInt64? j = some i := fun _ ⟨i, hi⟩ =>
  ⟨i, readInt64?_eq_some.mpr hi⟩

theorem exists_readNatural? {bound : Nat} :
    ∀ j, IsNatural bound j → ∃ n, readNatural? bound j = some n := fun _ ⟨n, hn⟩ =>
  ⟨n, readNatural?_eq_some.mpr hn⟩

theorem exists_readInstant? : ∀ j, IsTime j → ∃ i, readInstant? j = some i :=
  fun _ ⟨text, i, hi⟩ => ⟨i, readInstant?_eq_some.mpr ⟨text, hi⟩⟩

theorem isInt64_of_read (j : Json) (i : Int64) (h : readInt64? j = some i) : IsInt64 j :=
  ⟨i, readInt64?_eq_some.mp h⟩

theorem isNatural_of_read {bound : Nat} (j : Json) (n : Nat) (h : readNatural? bound j = some n) :
    IsNatural bound j := ⟨n, readNatural?_eq_some.mp h⟩

theorem isTime_of_read (j : Json) (i : Time.Instant) (h : readInstant? j = some i) : IsTime j := by
  obtain ⟨text, hi⟩ := readInstant?_eq_some.mp h
  exact ⟨text, i, hi⟩

/-! ### Records -/

variable {j : Json}

theorem exists_readFilter? (hcanonical : j.Canonical) (h : IsFilter j) :
    ∃ f, readFilter? j = some f := by
  obtain ⟨fields, rfl, hforms, hrequired⟩ := h
  simp only [List.forall_mem_cons] at hforms hrequired
  obtain ⟨hoperator, hproperty, hvalue, -⟩ := hforms
  obtain ⟨hasProperty, hasOperator, -⟩ := hrequired
  obtain ⟨property, hproperty⟩ := exists_required exists_readString? hproperty hasProperty
  obtain ⟨operator, hoperator⟩ := exists_required exists_readOperator? hoperator hasOperator
  obtain ⟨value, hvalue⟩ := exists_orElse .null exists_readAny? hvalue
  exact ⟨⟨property, operator, value⟩, readFilter?_eq_some.mpr
    ⟨_, _, _, slots?_object hcanonical.1 _, hproperty, hoperator, hvalue⟩⟩

theorem exists_readSearch? (hcanonical : j.Canonical) (h : IsSearch j) :
    (∃ s, readSearch? j = some s) ↔ Kind.Exact .search j := by
  obtain ⟨fields, rfl, hforms, hrequired⟩ := h
  simp only [List.forall_mem_cons] at hforms hrequired
  obtain ⟨hblueprint, hfilters, -, -, horder, hdirection, -⟩ := hforms
  have hslots := slots?_object hcanonical.1 Kind.search.slots
  constructor
  · rintro ⟨s, hs⟩
    obtain ⟨_, _, _, _, _, _, hgiven, -, -, -, -, hlimit, hoffset⟩ := readSearch?_eq_some.mp hs
    cases hslots.symm.trans hgiven
    exact ⟨form_of_optional isInt64_of_read hlimit, form_of_optional isInt64_of_read hoffset⟩
  · rintro ⟨hlimit, hoffset⟩
    have hread : ∀ v, Fields.get? "filters" fields = some v →
        IsListOf (fun v => ∃ f, readFilter? v = some f) v := fun v hv => by
      have hitems := (hfilters v hv).canonical (Json.canonical_of_get? hcanonical.2 hv)
      exact (isListOf_congr hitems fun _ hf => iff_of_true hf (exists_readFilter? hf.1 hf.2)).mp
        hitems
    obtain ⟨blueprint, hblueprint⟩ := exists_required exists_readString? hblueprint hrequired.1
    obtain ⟨filters, hfilters⟩ := exists_orElse [] (fun _ => exists_readList?.mpr) hread
    obtain ⟨order, horder⟩ := exists_optional exists_readString? horder
    obtain ⟨direction, hdirection⟩ := exists_optional exists_readDirection? hdirection
    obtain ⟨limit, hlimit⟩ := exists_optional exists_readInt64? hlimit
    obtain ⟨offset, hoffset⟩ := exists_optional exists_readInt64? hoffset
    exact ⟨⟨blueprint, filters, order, direction, limit, offset⟩, readSearch?_eq_some.mpr
      ⟨_, _, _, _, _, _, hslots, hblueprint, hfilters, horder, hdirection, hlimit, hoffset⟩⟩

theorem exists_readEntityDraft? (hcanonical : j.Canonical) (h : IsEntityDraft j) :
    ∃ d, readEntityDraft? j = some d := by
  obtain ⟨fields, rfl, hforms, hrequired⟩ := h
  simp only [List.forall_mem_cons] at hforms hrequired
  obtain ⟨hblueprint, hdata, hidentifier, htitle, -⟩ := hforms
  obtain ⟨hasBlueprint, hasIdentifier, -⟩ := hrequired
  obtain ⟨blueprint, hblueprint⟩ := exists_required exists_readString? hblueprint hasBlueprint
  obtain ⟨identifier, hidentifier⟩ := exists_required exists_readString? hidentifier hasIdentifier
  obtain ⟨title, htitle⟩ := exists_optional exists_readString? htitle
  obtain ⟨data, hdata⟩ := exists_orElse (.object []) exists_readAny? hdata
  exact ⟨⟨blueprint, identifier, title, data⟩, readEntityDraft?_eq_some.mpr
    ⟨_, _, _, _, slots?_object hcanonical.1 _, hblueprint, hidentifier, htitle, hdata⟩⟩

theorem exists_readEntityPatch? (hcanonical : j.Canonical) (h : IsEntityPatch j) :
    ∃ p, readEntityPatch? j = some p := by
  obtain ⟨fields, rfl, hforms, -⟩ := h
  simp only [List.forall_mem_cons] at hforms
  obtain ⟨hdata, htitle, -⟩ := hforms
  obtain ⟨title, htitle⟩ := exists_optional exists_readString? htitle
  obtain ⟨data, hdata⟩ := exists_optional exists_readAny? fun v hv => .inr (hdata v hv)
  exact ⟨⟨title, data⟩, readEntityPatch?_eq_some.mpr
    ⟨_, _, slots?_object hcanonical.1 _, htitle, hdata⟩⟩

theorem exists_readBlueprintDraft? (hcanonical : j.Canonical) (h : IsBlueprintDraft j) :
    ∃ d, readBlueprintDraft? j = some d := by
  obtain ⟨fields, rfl, hforms, hrequired⟩ := h
  simp only [List.forall_mem_cons] at hforms hrequired
  obtain ⟨hdescription, hid, hschema, htitle, -⟩ := hforms
  obtain ⟨hasId, hasTitle, -⟩ := hrequired
  obtain ⟨id, hid⟩ := exists_required exists_readString? hid hasId
  obtain ⟨title, htitle⟩ := exists_required exists_readString? htitle hasTitle
  obtain ⟨description, hdescription⟩ := exists_optional exists_readString? hdescription
  obtain ⟨schema, hschema⟩ := exists_orElse (.object []) exists_readAny? hschema
  exact ⟨⟨id, title, description, schema⟩, readBlueprintDraft?_eq_some.mpr
    ⟨_, _, _, _, slots?_object hcanonical.1 _, hid, htitle, hdescription, hschema⟩⟩

theorem exists_readEntity? (hcanonical : j.Canonical) (h : IsEntity j) :
    (∃ e, readEntity? j = some e) ↔ IsTimed j := by
  obtain ⟨fields, rfl, hforms, hrequired⟩ := h
  simp only [List.forall_mem_cons] at hforms hrequired
  obtain ⟨hblueprint, -, hdata, hid, hidentifier, htenant, htitle, -, -⟩ := hforms
  obtain ⟨hasId, hasTenant, hasBlueprint, hasIdentifier, hasData, hasCreated, hasUpdated, -⟩ :=
    hrequired
  have hslots := slots?_object hcanonical.1 Kind.entity.slots
  constructor
  · rintro ⟨e, he⟩
    obtain ⟨_, _, _, _, _, _, _, _, hgiven, -, -, -, -, -, -, hcreated, hupdated⟩ :=
      readEntity?_eq_some.mp he
    cases hslots.symm.trans hgiven
    exact ⟨form_of_required isTime_of_read hcreated, form_of_required isTime_of_read hupdated⟩
  · rintro ⟨hcreated, hupdated⟩
    obtain ⟨id, hid⟩ := exists_required exists_readString? hid hasId
    obtain ⟨tenant, htenant⟩ := exists_required exists_readString? htenant hasTenant
    obtain ⟨blueprint, hblueprint⟩ := exists_required exists_readString? hblueprint hasBlueprint
    obtain ⟨identifier, hidentifier⟩ :=
      exists_required exists_readString? hidentifier hasIdentifier
    obtain ⟨title, htitle⟩ := exists_optional exists_readString? htitle
    obtain ⟨data, hdata⟩ := exists_required exists_readAny? hdata hasData
    obtain ⟨created, hcreated⟩ := exists_required exists_readInstant? hcreated hasCreated
    obtain ⟨updated, hupdated⟩ := exists_required exists_readInstant? hupdated hasUpdated
    exact ⟨⟨id, tenant, blueprint, identifier, title, data, created, updated⟩,
      readEntity?_eq_some.mpr ⟨_, _, _, _, _, _, _, _, hslots, hid, htenant, hblueprint,
        hidentifier, htitle, hdata, hcreated, hupdated⟩⟩

theorem exists_readBlueprint? (hcanonical : j.Canonical) (h : IsBlueprint j) :
    (∃ b, readBlueprint? j = some b) ↔ IsTimed j := by
  obtain ⟨fields, rfl, hforms, hrequired⟩ := h
  simp only [List.forall_mem_cons] at hforms hrequired
  obtain ⟨-, hdescription, hid, hschema, htenant, htitle, -, -⟩ := hforms
  obtain ⟨hasTenant, hasId, hasTitle, hasSchema, hasCreated, hasUpdated, -⟩ := hrequired
  have hslots := slots?_object hcanonical.1 Kind.blueprint.slots
  constructor
  · rintro ⟨b, hb⟩
    obtain ⟨_, _, _, _, _, _, _, hgiven, -, -, -, -, -, hcreated, hupdated⟩ :=
      readBlueprint?_eq_some.mp hb
    cases hslots.symm.trans hgiven
    exact ⟨form_of_required isTime_of_read hcreated, form_of_required isTime_of_read hupdated⟩
  · rintro ⟨hcreated, hupdated⟩
    obtain ⟨tenant, htenant⟩ := exists_required exists_readString? htenant hasTenant
    obtain ⟨id, hid⟩ := exists_required exists_readString? hid hasId
    obtain ⟨title, htitle⟩ := exists_required exists_readString? htitle hasTitle
    obtain ⟨description, hdescription⟩ := exists_optional exists_readString? hdescription
    obtain ⟨schema, hschema⟩ := exists_required exists_readAny? hschema hasSchema
    obtain ⟨created, hcreated⟩ := exists_required exists_readInstant? hcreated hasCreated
    obtain ⟨updated, hupdated⟩ := exists_required exists_readInstant? hupdated hasUpdated
    exact ⟨⟨tenant, id, title, description, schema, created, updated⟩,
      readBlueprint?_eq_some.mpr ⟨_, _, _, _, _, _, _, hslots, htenant, hid, htitle,
        hdescription, hschema, hcreated, hupdated⟩⟩

theorem exists_readEntityPage? (hcanonical : j.Canonical) (h : IsEntityPage j) :
    (∃ p, readEntityPage? j = some p) ↔ Kind.Exact .entityPage j := by
  obtain ⟨fields, rfl, hforms, hrequired⟩ := h
  simp only [List.forall_mem_cons] at hforms hrequired
  obtain ⟨hitems, -, -, -, -⟩ := hforms
  obtain ⟨hasItems, hasTotal, hasLimit, hasOffset, -⟩ := hrequired
  have hslots := slots?_object hcanonical.1 Kind.entityPage.slots
  have hread : ∀ v, Fields.get? "items" fields = some v →
      (IsListOf (fun v => ∃ e, readEntity? v = some e) v ↔ IsListOf IsTimed v) := fun v hv =>
    isListOf_congr ((hitems v hv).canonical (Json.canonical_of_get? hcanonical.2 hv))
      fun _ he => exists_readEntity? he.1 he.2
  constructor
  · rintro ⟨p, hp⟩
    obtain ⟨_, _, _, _, hgiven, hentities, htotal, hlimit, hoffset⟩ := readEntityPage?_eq_some.mp hp
    cases hslots.symm.trans hgiven
    have hlist := form_of_required (fun _ as has => exists_readList?.mp ⟨as, has⟩) hentities
    exact ⟨fun v hv => (hread v hv).mp (hlist v hv), form_of_required isNatural_of_read htotal,
      form_of_required isNatural_of_read hlimit, form_of_required isNatural_of_read hoffset⟩
  · rintro ⟨htimed, htotal, hlimit, hoffset⟩
    obtain ⟨items, hitems⟩ := exists_required (fun _ => exists_readList?.mpr)
      (fun v hv => (hread v hv).mpr (htimed v hv)) hasItems
    obtain ⟨total, htotal⟩ := exists_required exists_readNatural? htotal hasTotal
    obtain ⟨limit, hlimit⟩ := exists_required exists_readNatural? hlimit hasLimit
    obtain ⟨offset, hoffset⟩ := exists_required exists_readNatural? hoffset hasOffset
    exact ⟨⟨items, total, limit, offset⟩, readEntityPage?_eq_some.mpr
      ⟨_, _, _, _, hslots, hitems, htotal, hlimit, hoffset⟩⟩

/-- Every name of the catalog stands for a kind of record, and a value that is valid under the name
is read as a record of that kind if its numbers and times are exact. -/
theorem exists_read?_iff {name : String} (hname : name ∈ Catalog.names) :
    ∃ k, Kind.ofName? name = some k ∧ ∀ j : Json, j.Canonical →
      Catalog.validate name j = .ok () → ((∃ x, k.read? j = some x) ↔ k.Exact j) := by
  rcases mem_names.mp hname with rfl | rfl | rfl | rfl | rfl | rfl | rfl | rfl
  · exact ⟨.blueprint, rfl, fun _ hj h => exists_readBlueprint? hj (validate_blueprint.mp h)⟩
  · exact ⟨.blueprintDraft, rfl, fun _ hj h =>
      iff_of_true (exists_readBlueprintDraft? hj (validate_create_blueprint.mp h)) trivial⟩
  · exact ⟨.entityDraft, rfl, fun _ hj h =>
      iff_of_true (exists_readEntityDraft? hj (validate_create_entity.mp h)) trivial⟩
  · exact ⟨.entity, rfl, fun _ hj h => exists_readEntity? hj (validate_entity.mp h)⟩
  · exact ⟨.filter, rfl, fun _ hj h =>
      iff_of_true (exists_readFilter? hj (validate_filter.mp h)) trivial⟩
  · exact ⟨.search, rfl, fun _ hj h => exists_readSearch? hj (validate_search_entities.mp h)⟩
  · exact ⟨.entityPage, rfl, fun _ hj h => exists_readEntityPage? hj (validate_search_page.mp h)⟩
  · exact ⟨.entityPatch, rfl, fun _ hj h =>
      iff_of_true (exists_readEntityPatch? hj (validate_update_entity.mp h)) trivial⟩

/-- A search for a page of so many entities. -/
def searchOf (limit : Number) : Json :=
  .object [("blueprint_id", .string "service"), ("limit", .number limit)]

theorem canonical_searchOf (limit : Number) : (searchOf limit).Canonical := by
  refine ⟨Fields.ascending_iff_names.mpr ?_, trivial, trivial, trivial⟩
  simp only [Fields.names, List.map_cons, List.map_nil]
  decide

theorem validate_searchOf (limit : Number) (h : limit.isIntegral = true) :
    Catalog.validate "search_entities" (searchOf limit) = .ok () := by
  refine validate_search_entities.mpr ⟨_, rfl, ?_, List.forall_mem_singleton.mpr rfl⟩
  simp only [List.forall_mem_cons]
  exact ⟨form_of_get? (isText_string "service") rfl, nofun,
    form_of_get? (.inr ⟨limit, rfl, h⟩) rfl, nofun, nofun, nofun, nofun⟩

/-- A search for five entities is read, as five is an integer of 64 bits. -/
theorem exists_read?_iff_five : "search_entities" ∈ Catalog.names ∧
    Catalog.validate "search_entities" (searchOf (.integer 5)) = .ok () ∧
    ∃ s, readSearch? (searchOf (.integer 5)) = some s := by
  have hname : "search_entities" ∈ Catalog.names := by decide
  have hvalid := validate_searchOf (.integer 5) rfl
  obtain ⟨k, hk, hread⟩ := exists_read?_iff hname
  cases hk
  have hexact : Kind.Exact .search (searchOf (.integer 5)) :=
    ⟨form_of_get? (.inr ⟨5, rfl⟩) rfl, nofun⟩
  exact ⟨hname, hvalid, (hread _ (canonical_searchOf _) hvalid).mpr hexact⟩

/-- Five with a point. -/
def pointedFive : Number := .float ⟨false, 0x4014000000000000, by decide⟩

/-- With a point, the search is valid too, but it is not read. -/
theorem valid_search_not_read : Kind.ofName? "search_entities" = some .search ∧
    (searchOf pointedFive).Canonical ∧
    Catalog.validate "search_entities" (searchOf pointedFive) = .ok () ∧
    readSearch? (searchOf pointedFive) = none :=
  ⟨rfl, canonical_searchOf _, validate_searchOf _ (by decide), by decide⟩

end EntityStore.Wire
