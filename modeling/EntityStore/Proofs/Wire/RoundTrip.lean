import EntityStore.Proofs.Wire.Kind

/-! # Reading undoes writing

A record that is written is an object with its names in order (`exists_write`), and reading that
gives the record again, for each kind (`readFilter?_ofFilter` and so on): its documents have to be
canonical, its instants to be ones that there are with years of four digits, and its numbers to be of
their width.  What is read of any spelling is such a record (`proper_of_read?`).  So every spelling
that is accepted has one written form, which is read as the same record (`read?_write`). -/

namespace EntityStore.Wire

open Query (Filter Search)
open Time (Instant)

/-! ### Proper records -/

/-- The data is canonical, and the entity was created and updated at instants that there are. -/
structure ProperEntity (e : Entity) : Prop where
  data : e.data.Canonical
  created : e.created.Valid
  updated : e.updated.Valid

def DatedEntity (e : Entity) : Prop := e.created.Dated ∧ e.updated.Dated

namespace Kind

/-- The values in a record are ones that there are: documents are canonical, instants exist, and
numbers have their width. -/
def Proper : (k : Kind) → k.Record → Prop
  | filter, f => f.value.Canonical
  | search, s => ∀ f ∈ s.filters, f.value.Canonical
  | entityDraft, d => d.data.Canonical
  | entityPatch, p => ∀ data ∈ p.data, data.Canonical
  | blueprintDraft, d => d.schema.Canonical
  | entity, e => ProperEntity e
  | blueprint, b => b.schema.Canonical ∧ b.created.Valid ∧ b.updated.Valid
  | entityPage, p => (∀ e ∈ p.items, ProperEntity e) ∧ p.total < unsignedBound ∧
      p.limit < halfBound ∧ p.offset < unsignedBound
  | fieldError, _ | tenant, _ => True

/-- The years of all instants have up to four digits. -/
def Dated : (k : Kind) → k.Record → Prop
  | entity, e => DatedEntity e
  | blueprint, b => b.created.Dated ∧ b.updated.Dated
  | entityPage, p => ∀ e ∈ p.items, DatedEntity e
  | filter, _ | search, _ | entityDraft, _ | entityPatch, _ | blueprintDraft, _ | fieldError, _
  | tenant, _ => True

/-- A patch whose data is null, which is written as if there were none. -/
def HidesNull : (k : Kind) → k.Record → Prop
  | entityPatch, p => p.data = some .null
  | filter, _ | search, _ | entityDraft, _ | blueprintDraft, _ | entity, _ | blueprint, _
  | entityPage, _ | fieldError, _ | tenant, _ => False

end Kind

/-! ### Written forms -/

theorem sublist_presentField (name : String) (given : Option Json) :
    (presentField name given).names.Sublist [name] := by
  cases given with
  | none => exact List.nil_sublist _
  | some j => exact List.Sublist.refl _

/-- A written record is an object whose names ascend. -/
theorem exists_write : ∀ (k : Kind) (x : k.Record),
    ∃ fields : Fields, k.write x = .object fields ∧ fields.Ascending
  | .entityPatch, p => by
      have hnames : ["data", "title"].Pairwise (· < ·) := by decide
      refine ⟨_, rfl, Fields.ascending_iff_names.mpr (hnames.sublist ?_)⟩
      rw [Fields.names, List.map_append]
      exact (sublist_presentField "data" p.data).append (sublist_presentField "title" _)
  | .filter, _ | .search, _ | .entityDraft, _ | .blueprintDraft, _ | .entity, _ | .blueprint, _
  | .entityPage, _ | .fieldError, _ | .tenant, _ => by
      refine ⟨_, rfl, Fields.ascending_iff_names.mpr ?_⟩
      simp only [Fields.names, List.map_cons, List.map_nil]
      decide

/-- The declared fields of a written record. -/
theorem slots?_write (k : Kind) (x : k.Record) (slots : List Slot) :
    slots? slots (k.write x) = some (slots.map fun slot => (k.write x).field? slot.name) := by
  obtain ⟨fields, hfields, hascending⟩ := exists_write k x
  rw [hfields]
  exact slots?_object hascending slots

theorem readInstant?_ofInstant {i : Instant} (hvalid : i.Valid) (hdated : i.Dated) :
    readInstant? (ofInstant i) = some i :=
  Instant.readField?_shown (Instant.storable_iff.mpr ⟨hvalid, hdated⟩)

theorem readFilter?_ofFilter {f : Filter} (h : f.value.Canonical) :
    readFilter? (ofFilter f) = some f :=
  readFilter?_eq_some.mpr ⟨_, _, _, slots?_write .filter f _, rfl,
    readOperator?_ofOperator f.operator, readAny?_of_canonical h⟩

theorem readSearch?_ofSearch {s : Search} (h : ∀ f ∈ s.filters, f.value.Canonical) :
    readSearch? (ofSearch s) = some s := by
  have hfilters : readItems? readFilter? (s.filters.map ofFilter) = some s.filters :=
    readItems?_map fun f hf => readFilter?_ofFilter (h f hf)
  have hdirection : optional readDirection? (some (optionalValue ofDirection s.direction)) =
      some s.direction :=
    optional_optionalValue (fun d _ => readDirection?_ofDirection d) fun _ _ => Json.noConfusion
  have hinteger : ∀ i : Option Int64,
      optional readInt64? (some (optionalValue ofInt64 i)) = some i := fun _ =>
    optional_optionalValue (fun _ _ => readInt64?_eq_some.mpr rfl) fun _ _ => Json.noConfusion
  exact readSearch?_eq_some.mpr ⟨_, _, _, _, _, _, slots?_write .search s _, rfl, hfilters,
    optional_string s.orderBy, hdirection, hinteger s.limit, hinteger s.offset⟩

theorem readEntityDraft?_ofEntityDraft {d : EntityDraft} (h : d.data.Canonical) :
    readEntityDraft? (ofEntityDraft d) = some d :=
  readEntityDraft?_eq_some.mpr ⟨_, _, _, _, slots?_write .entityDraft d _, rfl, rfl,
    optional_string d.title, readAny?_of_canonical h⟩

/-- Null is read as if there were no data. -/
theorem readEntityPatch?_ofEntityPatch {p : EntityPatch} (h : ∀ data ∈ p.data, data.Canonical) :
    readEntityPatch? (ofEntityPatch p) = some { p with data := p.data.filter (· ≠ .null) } := by
  refine readEntityPatch?_eq_some.mpr ⟨p.title.map .string, p.data, ?_, ?_, ?_⟩
  · refine (slots?_write .entityPatch p _).trans ?_
    obtain ⟨title, data⟩ := p
    cases title <;> cases data <;> rfl
  · obtain ⟨title, data⟩ := p
    cases title <;> rfl
  · obtain ⟨title, data⟩ := p
    cases data with
    | none => rfl
    | some data =>
        by_cases hnull : data = .null
        · rw [hnull]
          rfl
        · rw [optional_of_ne_null hnull, readAny?_of_canonical (h data rfl), Option.map_some,
            Option.filter_some, if_pos (decide_eq_true hnull)]

theorem readBlueprintDraft?_ofBlueprintDraft {d : BlueprintDraft} (h : d.schema.Canonical) :
    readBlueprintDraft? (ofBlueprintDraft d) = some d :=
  readBlueprintDraft?_eq_some.mpr ⟨_, _, _, _, slots?_write .blueprintDraft d _, rfl, rfl,
    optional_string d.description, readAny?_of_canonical h⟩

theorem readEntity?_ofEntity {e : Entity} (h : ProperEntity e) (hdated : DatedEntity e) :
    readEntity? (ofEntity e) = some e :=
  readEntity?_eq_some.mpr ⟨_, _, _, _, _, _, _, _, slots?_write .entity e _, rfl, rfl, rfl, rfl,
    optional_string e.title, readAny?_of_canonical h.data,
    readInstant?_ofInstant h.created hdated.1, readInstant?_ofInstant h.updated hdated.2⟩

theorem readBlueprint?_ofBlueprint {b : Blueprint} (h : Kind.Proper .blueprint b)
    (hdated : Kind.Dated .blueprint b) : readBlueprint? (ofBlueprint b) = some b := by
  obtain ⟨hschema, hcreated, hupdated⟩ := h
  exact readBlueprint?_eq_some.mpr ⟨_, _, _, _, _, _, _, slots?_write .blueprint b _, rfl, rfl, rfl,
    optional_string b.description, readAny?_of_canonical hschema,
    readInstant?_ofInstant hcreated hdated.1, readInstant?_ofInstant hupdated hdated.2⟩

theorem readEntityPage?_ofEntityPage {p : EntityPage} (h : Kind.Proper .entityPage p)
    (hdated : Kind.Dated .entityPage p) : readEntityPage? (ofEntityPage p) = some p := by
  obtain ⟨hentities, htotal, hlimit, hoffset⟩ := h
  have hitems : readItems? readEntity? (p.items.map ofEntity) = some p.items :=
    readItems?_map fun e he => readEntity?_ofEntity (hentities e he) (hdated e he)
  exact readEntityPage?_eq_some.mpr ⟨_, _, _, _, slots?_write .entityPage p _, hitems,
    readNatural?_eq_some.mpr ⟨rfl, htotal⟩, readNatural?_eq_some.mpr ⟨rfl, hlimit⟩,
    readNatural?_eq_some.mpr ⟨rfl, hoffset⟩⟩

theorem readFieldError?_ofFieldError (e : FieldError) :
    readFieldError? (ofFieldError e) = some e :=
  readFieldError?_eq_some.mpr ⟨_, _, slots?_write .fieldError e _, rfl, rfl⟩

theorem readTenant?_ofTenant (t : Tenant) : readTenant? (ofTenant t) = some t :=
  readTenant?_eq_some.mpr ⟨_, slots?_write .tenant t _, rfl⟩

/-! ### Records that are read -/

theorem valid_of_readInstant? {given : Option Json} {i : Instant}
    (h : required readInstant? given = some i) : i.Valid := by
  cases given with
  | none => cases h
  | some j =>
      obtain ⟨_, -, hread⟩ := readInstant?_eq_some.mp h
      exact Time.valid_of_readField? hread

theorem lt_of_readNatural? {bound n : Nat} {given : Option Json}
    (h : required (readNatural? bound) given = some n) : n < bound := by
  cases given with
  | none => cases h
  | some j => exact (readNatural?_eq_some.mp h).2

theorem canonical_null : Json.null.Canonical := trivial

theorem canonical_empty : (Json.object []).Canonical := ⟨List.Pairwise.nil, trivial⟩

theorem proper_of_readFilter? {j : Json} {f : Filter} (h : readFilter? j = some f) :
    f.value.Canonical := by
  obtain ⟨_, _, _, -, -, -, hvalue⟩ := readFilter?_eq_some.mp h
  exact orElse_readAny?_eq_some canonical_null hvalue

theorem proper_of_readSearch? {j : Json} {s : Search} (h : readSearch? j = some s) :
    ∀ f ∈ s.filters, f.value.Canonical := by
  obtain ⟨_, given, _, _, _, _, -, -, hfilters, -⟩ := readSearch?_eq_some.mp h
  cases given with
  | none =>
      rw [← Option.some.inj hfilters]
      exact nofun
  | some j =>
      obtain ⟨_, -, hitems⟩ := readList?_eq_some.mp hfilters
      exact forall_mem_of_readItems? (fun _ _ => proper_of_readFilter?) hitems

theorem proper_of_readEntity? {j : Json} {e : Entity} (h : readEntity? j = some e) :
    ProperEntity e := by
  obtain ⟨_, _, _, _, _, _, _, _, -, -, -, -, -, -, hdata, hcreated, hupdated⟩ :=
    readEntity?_eq_some.mp h
  exact ⟨required_readAny?_eq_some hdata, valid_of_readInstant? hcreated,
    valid_of_readInstant? hupdated⟩

theorem proper_of_readEntityPage? {j : Json} {p : EntityPage} (h : readEntityPage? j = some p) :
    Kind.Proper .entityPage p := by
  obtain ⟨given, _, _, _, -, hitems, htotal, hlimit, hoffset⟩ := readEntityPage?_eq_some.mp h
  refine ⟨?_, lt_of_readNatural? htotal, lt_of_readNatural? hlimit, lt_of_readNatural? hoffset⟩
  cases given with
  | none => cases hitems
  | some j =>
      obtain ⟨_, -, hitems⟩ := readList?_eq_some.mp hitems
      exact forall_mem_of_readItems? (fun _ _ => proper_of_readEntity?) hitems

/-- What is read is a proper record, and no null is hidden in it. -/
theorem proper_of_read? {j : Json} : ∀ {k : Kind} {x : k.Record}, k.read? j = some x →
    k.Proper x ∧ ¬ k.HidesNull x
  | .filter, _, h => ⟨proper_of_readFilter? h, id⟩
  | .search, _, h => ⟨proper_of_readSearch? h, id⟩
  | .entityDraft, _, h => by
      obtain ⟨_, _, _, _, -, -, -, -, hdata⟩ := readEntityDraft?_eq_some.mp h
      exact ⟨orElse_readAny?_eq_some canonical_empty hdata, id⟩
  | .entityPatch, _, h => by
      obtain ⟨_, _, -, -, hdata⟩ := readEntityPatch?_eq_some.mp h
      have hgiven := optional_readAny?_eq_some hdata
      exact ⟨fun data hmem => (hgiven data hmem).1, fun hnull => (hgiven .null hnull).2 rfl⟩
  | .blueprintDraft, _, h => by
      obtain ⟨_, _, _, _, -, -, -, -, hschema⟩ := readBlueprintDraft?_eq_some.mp h
      exact ⟨orElse_readAny?_eq_some canonical_empty hschema, id⟩
  | .entity, _, h => ⟨proper_of_readEntity? h, id⟩
  | .blueprint, _, h => by
      obtain ⟨_, _, _, _, _, _, _, -, -, -, -, -, hschema, hcreated, hupdated⟩ :=
        readBlueprint?_eq_some.mp h
      exact ⟨⟨required_readAny?_eq_some hschema, valid_of_readInstant? hcreated,
        valid_of_readInstant? hupdated⟩, id⟩
  | .entityPage, _, h => ⟨proper_of_readEntityPage? h, id⟩
  | .fieldError, _, _ | .tenant, _, _ => ⟨trivial, id⟩

/-! ### Both ways -/

/-- A proper record is read back, unless it is a patch that hides a null. -/
theorem read?_write_iff : ∀ {k : Kind} {x : k.Record}, k.Proper x → k.Dated x →
    (k.read? (k.write x) = some x ↔ ¬ k.HidesNull x)
  | .filter, _, h, _ => iff_of_true (readFilter?_ofFilter h) id
  | .search, _, h, _ => iff_of_true (readSearch?_ofSearch h) id
  | .entityDraft, _, h, _ => iff_of_true (readEntityDraft?_ofEntityDraft h) id
  | .entityPatch, ⟨title, data⟩, h, _ => by
      have hread : Kind.entityPatch.read? _ = _ := readEntityPatch?_ofEntityPatch h
      rw [Kind.write, hread, Option.some.injEq, Kind.HidesNull, EntityPatch.mk.injEq]
      cases data with
      | none => simp
      | some data => by_cases hnull : data = .null <;> simp [hnull]
  | .blueprintDraft, _, h, _ => iff_of_true (readBlueprintDraft?_ofBlueprintDraft h) id
  | .entity, _, h, hdated => iff_of_true (readEntity?_ofEntity h hdated) id
  | .blueprint, _, h, hdated => iff_of_true (readBlueprint?_ofBlueprint h hdated) id
  | .entityPage, _, h, hdated => iff_of_true (readEntityPage?_ofEntityPage h hdated) id
  | .fieldError, e, _, _ => iff_of_true (readFieldError?_ofFieldError e) id
  | .tenant, t, _, _ => iff_of_true (readTenant?_ofTenant t) id

/-- Reading undoes writing.  Whatever the spelling that a record was read from, it is written as an
object that is read as the same record, if the years of its instants have up to four digits; so it
has one written form, which is its own written form.  And every proper record is read back from its
written form, unless it is a patch whose data is null, which is written as one without data is
read. -/
theorem read?_write (k : Kind) :
    (∀ j x, k.read? j = some x → k.Dated x →
      (k.write x).isObject = true ∧ k.read? (k.write x) = some x ∧
        (k.read? (k.write x)).map k.write = some (k.write x)) ∧
    ∀ x, k.Proper x → k.Dated x → (k.read? (k.write x) = some x ↔ ¬ k.HidesNull x) := by
  refine ⟨fun j x hread hdated => ?_, fun _ => read?_write_iff⟩
  obtain ⟨hproper, hshown⟩ := proper_of_read? hread
  obtain ⟨fields, hfields, -⟩ := exists_write k x
  have hagain := (read?_write_iff hproper hdated).mpr hshown
  exact ⟨by rw [hfields]; rfl, hagain, by rw [hagain, Option.map_some]⟩

/-- A page as a list of its fields, whose entity has a field that is not known, a key given twice and
times with an offset and in a leap second. -/
def spelledPage : Json := .array [.array [.object [("id", .string "ent-1"),
    ("tenant_id", .string "acme"), ("blueprint_id", .string "service"), ("color", .string "red"),
    ("identifier", .string "api"), ("data", .object [("tls", .null), ("port", .number (.integer 80)),
      ("port", .number (.integer 443))]),
    ("created_at", .string "2026-02-09 14:30:00+01:00"),
    ("updated_at", .string "2026-02-09T13:30:60.25Z")]],
  .number (.integer 1), .number (.integer 50), .number (.integer 0)]

def page : EntityPage :=
  ⟨[⟨"ent-1", "acme", "service", "api", none,
    .object [("port", .number (.integer 443)), ("tls", .null)], ⟨1770643800, 0⟩,
    ⟨1770643859, 1250000000⟩⟩], 1, 50, 0⟩

/-- The page is written as an object and read back; a patch whose data is null is not. -/
theorem read?_write_page :
    Kind.entityPage.read? spelledPage = some page ∧
      Kind.entityPage.read? (Kind.entityPage.write page) = some page ∧
      (ofInstant ⟨1770643859, 1250000000⟩ = .string "2026-02-09T13:30:60.250Z") ∧
      Kind.entityPatch.read? (Kind.entityPatch.write ⟨none, some .null⟩) ≠ some ⟨none, some .null⟩ := by
  have hread : Kind.entityPage.read? spelledPage = some page := by decide +kernel
  have hdated : Kind.Dated .entityPage page :=
    List.forall_mem_singleton.mpr ⟨⟨by decide, by decide⟩, by decide, by decide⟩
  refine ⟨hread, ((read?_write .entityPage).1 spelledPage page hread hdated).2.1, by decide +kernel,
    fun h => ?_⟩
  have hnull : ∀ data ∈ some Json.null, data.Canonical := by
    rintro _ ⟨⟩
    exact canonical_null
  exact ((read?_write .entityPatch).2 ⟨none, some .null⟩ hnull trivial).mp h rfl

end EntityStore.Wire
