import EntityStore.Proofs.Store.Faultless
import EntityStore.Proofs.Store.Lookup

/-! # What a write of an entity is answered

A request to write an entity can have several faults at once, and only the first is answered, in a
fixed order: the entity or the blueprint is not there, the identifier is blank, the data is no object,
the schema refuses it, the identifier is taken, the data is too deep for its column.  `CreateOutcome`
and `UpdateOutcome` say which answer there is in which case, and a write answers that and nothing else
(`entity_write_outcome`).

A schema is held to as it is read: it is the one that was given if that reads back, and it is not read
if it is nested too deep.  An update takes the data of the entity as it is read, and the blueprint too.
So the blueprint is there, since entities belong to blueprints, unless its id has a NUL
(`update_of_cut_blueprint`). -/

namespace EntityStore.Store

open Schema (checkSchema validate)

variable {call : Call} {t : Tables} {tenant blueprint id : String} {draft : EntityDraft}
  {patch : EntityPatch}

/-! ### The schema of a blueprint -/

/-- The blueprint holds the schema, which was accepted. -/
structure Tables.HasSchema (t : Tables) (tenant blueprint : String) (schema : Json) : Prop where
  stored : ∃ b ∈ t.blueprints, b.key = (tenant, blueprint) ∧ b.schema = schema.source
  regular : schema.Regular
  accepted : checkSchema schema = .ok ()

theorem blueprint?_eq_some (ht : Unique BlueprintRow.key t.blueprints) {b : BlueprintRow} :
    t.blueprint? tenant blueprint = some b ↔ b ∈ t.blueprints ∧ b.key = (tenant, blueprint) := by
  rw [← BlueprintRow.isAt_iff]
  exact ht.find?_eq_some fun r s hr hs =>
    (BlueprintRow.isAt_iff.mp hr).trans (BlueprintRow.isAt_iff.mp hs).symm

theorem blueprint?_eq_none :
    t.blueprint? tenant blueprint = none ↔ ∀ b ∈ t.blueprints, b.key ≠ (tenant, blueprint) := by
  rw [Tables.blueprint?, List.find?_eq_none]
  exact forall₂_congr fun b _ => not_congr BlueprintRow.isAt_iff

/-! ### Documents and drafts -/

/-- A document meets a schema, or something is wrong with it, or the schema cannot be used. -/
theorem validate_cases (mode : Schema.Mode) (schema data : Json) :
    validate mode schema data = .ok () ∨
      (∃ errors, validate mode schema data = .error (.document errors)) ∨
      ∃ fault, validate mode schema data = .error (.schema fault) := by
  rw [validate]
  split
  · exact .inl rfl
  · split
    · exact .inr (.inr ⟨_, rfl⟩)
    · split
      · exact .inl rfl
      · exact .inr (.inl ⟨_, rfl⟩)

/-- What comes of a draft that is held to a schema. -/
inductive DraftOutcome (call : Call) (t : Tables) (id : String) (draft : EntityDraft)
    (schema : Json) : Except StoreError Entity → Prop
  | blank : Text.trim draft.identifier = "" →
      DraftOutcome call t id draft schema (.error (.field "identifier" "must not be empty"))
  | notObject : Text.trim draft.identifier ≠ "" → draft.data.isObject = false →
      DraftOutcome call t id draft schema (.error (.field "data" "must be a JSON object"))
  | unusable {fault : Schema.SchemaFault} : Text.trim draft.identifier ≠ "" →
      draft.data.isObject = true → validate .full schema draft.data = .error (.schema fault) →
      DraftOutcome call t id draft schema (.error (.ofSchemaError (.schema fault)))
  | invalid {errors : List FieldError} : Text.trim draft.identifier ≠ "" →
      draft.data.isObject = true → validate .full schema draft.data = .error (.document errors) →
      DraftOutcome call t id draft schema (.error (.validation errors))
  | taken : Text.trim draft.identifier ≠ "" → draft.data.isObject = true →
      validate .full schema draft.data = .ok () →
      (∃ r ∈ t.entities, r.name = (call.tenant, draft.blueprint, draft.identifier)) →
      DraftOutcome call t id draft schema
        (.error (.identifierTaken draft.blueprint draft.identifier))
  | deep : Text.trim draft.identifier ≠ "" → draft.data.isObject = true →
      validate .full schema draft.data = .ok () →
      (∀ r ∈ t.entities, r.name ≠ (call.tenant, draft.blueprint, draft.identifier)) →
      Sql.storageLimit < draft.data.depth → DraftOutcome call t id draft schema
        (.error (.internal (Constraint.invalidDocument "data").databaseError))
  | created : Text.trim draft.identifier ≠ "" → draft.data.isObject = true →
      validate .full schema draft.data = .ok () →
      (∀ r ∈ t.entities, r.name ≠ (call.tenant, draft.blueprint, draft.identifier)) →
      draft.data.depth ≤ Sql.storageLimit →
      DraftOutcome call t id draft schema (.ok (call.entity id draft))

theorem exists_draftOutcome (call : Call) (t : Tables) (id : String) (draft : EntityDraft)
    (schema : Json) : ∃ answer, DraftOutcome call t id draft schema answer := by
  by_cases hblank : Text.trim draft.identifier = ""
  · exact ⟨_, .blank hblank⟩
  cases hobject : draft.data.isObject with
  | false => exact ⟨_, .notObject hblank hobject⟩
  | true =>
      obtain hvalid | ⟨errors, hinvalid⟩ | ⟨fault, hunusable⟩ :=
        validate_cases .full schema draft.data
      · by_cases htaken : ∃ r ∈ t.entities,
            r.name = (call.tenant, draft.blueprint, draft.identifier)
        · exact ⟨_, .taken hblank hobject hvalid htaken⟩
        · have hfree : ∀ r ∈ t.entities,
              r.name ≠ (call.tenant, draft.blueprint, draft.identifier) :=
            fun r hr hname => htaken ⟨r, hr, hname⟩
          obtain hdeep | hdepth := Nat.lt_or_ge Sql.storageLimit draft.data.depth
          · exact ⟨_, .deep hblank hobject hvalid hfree hdeep⟩
          · exact ⟨_, .created hblank hobject hvalid hfree hdepth⟩
      · exact ⟨_, .invalid hblank hobject hinvalid⟩
      · exact ⟨_, .unusable hblank hobject hunusable⟩

theorem entityNamed?_isSome {identifier : String} :
    (t.entityNamed? tenant blueprint identifier).isSome = true ↔
      ∃ r ∈ t.entities, r.name = (tenant, blueprint, identifier) := by
  rw [Tables.entityNamed?, List.find?_isSome]
  exact exists_congr fun r => and_congr_right fun _ => EntityRow.isNamed_iff

section reader
variable [FloatReader]

/-! ### The schema that is read -/

/-- What comes of the schema of a blueprint, which is read anew. -/
inductive SchemaOutcome (t : Tables) (tenant blueprint : String) : Except StoreError Json → Prop
  | missing : (∀ b ∈ t.blueprints, b.key ≠ (tenant, blueprint)) →
      SchemaOutcome t tenant blueprint (.error (.blueprintNotFound blueprint))
  | deep {schema : Json} : t.HasSchema tenant blueprint schema → Json.depthLimit < schema.depth →
      SchemaOutcome t tenant blueprint (.error (.internal (.query "Invalid JSON in column")))
  | read {schema : Json} : t.HasSchema tenant blueprint schema → schema.depth ≤ Json.depthLimit →
      SchemaOutcome t tenant blueprint (.ok schema.reread)

/-- The schema is read from its text. -/
theorem requireSchema_of_hasSchema (ht : Unique BlueprintRow.key t.blueprints) {schema : Json}
    (h : t.HasSchema tenant blueprint schema) : requireSchema tenant blueprint t =
      if schema.depth ≤ Json.depthLimit then .ok schema.reread
      else .error (.internal (.query "Invalid JSON in column")) := by
  obtain ⟨b, hb, hkey, hsource⟩ := h.stored
  rw [requireSchema, schemaOf?, (blueprint?_eq_some ht).mpr ⟨hb, hkey⟩]
  dsimp only
  rw [hsource, readDocument_regular h.regular]
  by_cases hdepth : schema.depth ≤ Json.depthLimit
  · rw [if_pos hdepth, if_pos hdepth]
    rfl
  · rw [if_neg hdepth, if_neg hdepth]
    rfl

theorem SchemaOutcome.eq (ht : Unique BlueprintRow.key t.blueprints)
    {answer : Except StoreError Json} (h : SchemaOutcome t tenant blueprint answer) :
    requireSchema tenant blueprint t = answer := by
  cases h with
  | missing hnone => rw [requireSchema, schemaOf?, blueprint?_eq_none.mpr hnone]
  | deep hschema hdeep => rw [requireSchema_of_hasSchema ht hschema, if_neg (Nat.not_le.mpr hdeep)]
  | read hschema hdepth => rw [requireSchema_of_hasSchema ht hschema, if_pos hdepth]

theorem exists_schemaOutcome (ht : Consistent Json.Regular t) (tenant blueprint : String) :
    ∃ answer, SchemaOutcome t tenant blueprint answer := by
  by_cases hfound : ∃ b ∈ t.blueprints, b.key = (tenant, blueprint)
  · obtain ⟨b, hb, hkey⟩ := hfound
    obtain ⟨schema, hregular, haccepted, hsource⟩ := ht.schemas b hb
    have hschema : t.HasSchema tenant blueprint schema :=
      ⟨⟨b, hb, hkey, hsource⟩, hregular, haccepted⟩
    obtain hdeep | hdepth := Nat.lt_or_ge Json.depthLimit schema.depth
    · exact ⟨_, .deep hschema hdeep⟩
    · exact ⟨_, .read hschema hdepth⟩
  · exact ⟨_, .missing fun b hb hkey => hfound ⟨b, hb, hkey⟩⟩

/-! ### Creating -/

/-- What a new entity is answered.  The blueprint is looked for before the draft is looked at. -/
inductive CreateOutcome (call : Call) (t : Tables) (id : String) (draft : EntityDraft) :
    Except StoreError Entity → Prop
  | refused {fault : StoreError} : SchemaOutcome t call.tenant draft.blueprint (.error fault) →
      CreateOutcome call t id draft (.error fault)
  | held {schema : Json} {answer : Except StoreError Entity} :
      SchemaOutcome t call.tenant draft.blueprint (.ok schema) →
      DraftOutcome call t id draft schema answer → CreateOutcome call t id draft answer

theorem exists_createOutcome (ht : Consistent Json.Regular t) (call : Call) (id : String)
    (draft : EntityDraft) : ∃ answer, CreateOutcome call t id draft answer := by
  obtain ⟨answer, hschema⟩ := exists_schemaOutcome ht call.tenant draft.blueprint
  cases answer with
  | error fault => exact ⟨_, .refused hschema⟩
  | ok schema =>
      obtain ⟨answer, hdraft⟩ := exists_draftOutcome call t id draft schema
      exact ⟨answer, .held hschema hdraft⟩

theorem createEntity_of_checkDraft_error {fault : StoreError}
    (h : checkDraft call.tenant draft t = .error fault) :
    (createEntity call id draft t).1 = .error fault := by
  rw [createEntity, h]
  rfl

/-- A draft that passes is inserted under a new id, if its data is a document. -/
theorem insertEntity_of_checkDraft (h : checkDraft call.tenant draft t = .ok ())
    (hfresh : ∀ r ∈ t.entities, r.id ≠ some id) :
    t.insertEntity (.ofEntity (call.entity id draft)) =
      if Sql.isDocument draft.data.source then
        .ok ⟨t.blueprints, t.entities ++ [.ofEntity (call.entity id draft)]⟩
      else .error (.invalidDocument "data") := by
  have hblueprint := blueprint_of_checkDraft h
  have hcolumn : (EntityRow.ofEntity (call.entity id draft)).data = draft.data.source := rfl
  rw [Tables.insertEntity, hcolumn]
  cases Sql.isDocument draft.data.source with
  | false => rfl
  | true =>
      obtain ⟨schema, -, -, -, -, hfree⟩ := checkDraft_iff.mp h
      rw [Bool.not_true, if_neg Bool.false_ne_true, if_neg, if_neg, if_neg]
      · rfl
      · dsimp only [EntityRow.ofEntity, Call.entity]
        rw [Option.isNone_iff_eq_none]
        exact Option.isSome_iff_ne_none.mp hblueprint
      · dsimp only [EntityRow.ofEntity, Call.entity]
        rw [hfree]
        exact Bool.false_ne_true
      · rw [Bool.and_eq_true, List.any_eq_true]
        rintro ⟨-, r, hr, hid⟩
        exact hfresh r hr (of_decide_eq_true hid)

theorem createEntity_of_checkDraft_ok (h : checkDraft call.tenant draft t = .ok ())
    (hfresh : ∀ r ∈ t.entities, r.id ≠ some id) :
    (createEntity call id draft t).1 =
      if Sql.isDocument draft.data.source then .ok (call.entity id draft)
      else .error (.internal (Constraint.invalidDocument "data").databaseError) := by
  have hinsert := insertEntity_of_checkDraft h hfresh
  rw [Call.entity] at hinsert ⊢
  rw [createEntity, h]
  dsimp only
  rw [hinsert]
  cases Sql.isDocument draft.data.source <;> rfl

theorem DraftOutcome.eq {schema : Json} {answer : Except StoreError Entity}
    (hschema : requireSchema call.tenant draft.blueprint t = .ok schema)
    (hfresh : ∀ r ∈ t.entities, r.id ≠ some id) (h : DraftOutcome call t id draft schema answer) :
    (createEntity call id draft t).1 = answer := by
  have hblank : ∀ {text : String}, Text.trim text ≠ "" → Text.allBlank text = false := fun hne =>
    Bool.eq_false_iff.mpr fun h => hne ((Text.trim_eq_empty_iff _).mpr h)
  have hpasses : Text.trim draft.identifier ≠ "" → draft.data.isObject = true →
      validate .full schema draft.data = .ok () →
      (∀ r ∈ t.entities, r.name ≠ (call.tenant, draft.blueprint, draft.identifier)) →
      checkDraft call.tenant draft t = .ok () := by
    intro hne hobject hvalid hfree
    refine checkDraft_iff.mpr
      ⟨schema, hschema, hblank hne, hobject, requireValid_eq_ok.mpr hvalid, ?_⟩
    rw [← Option.not_isSome_iff_eq_none, entityNamed?_isSome]
    rintro ⟨r, hr, hname⟩
    exact hfree r hr hname
  cases h with
  | blank hempty =>
      refine createEntity_of_checkDraft_error ?_
      rw [checkDraft, hschema]
      exact if_pos ((Text.trim_eq_empty_iff _).mp hempty)
  | notObject hne hobject =>
      refine createEntity_of_checkDraft_error ?_
      rw [checkDraft, hschema]
      dsimp only
      rw [hblank hne, hobject]
      rfl
  | invalid hne hobject hinvalid =>
      refine createEntity_of_checkDraft_error ?_
      rw [checkDraft, hschema]
      dsimp only
      rw [hblank hne, hobject, requireValid, hinvalid]
      rfl
  | unusable hne hobject hunusable =>
      refine createEntity_of_checkDraft_error ?_
      rw [checkDraft, hschema]
      dsimp only
      rw [hblank hne, hobject, requireValid, hunusable]
      rfl
  | taken hne hobject hvalid htaken =>
      refine createEntity_of_checkDraft_error ?_
      rw [checkDraft, hschema]
      dsimp only
      rw [hblank hne, hobject, requireValid, hvalid, entityNamed?_isSome.mpr htaken]
      rfl
  | deep hne hobject hvalid hfree hdeep =>
      rw [createEntity_of_checkDraft_ok (hpasses hne hobject hvalid hfree) hfresh, if_neg]
      exact fun hdocument => Nat.not_le.mpr hdeep (Sql.isDocument_source.mp hdocument)
  | created hne hobject hvalid hfree hdepth =>
      rw [createEntity_of_checkDraft_ok (hpasses hne hobject hvalid hfree) hfresh,
        if_pos (Sql.isDocument_source.mpr hdepth)]

theorem CreateOutcome.eq (ht : Unique BlueprintRow.key t.blueprints)
    (hfresh : ∀ r ∈ t.entities, r.id ≠ some id) {answer : Except StoreError Entity}
    (h : CreateOutcome call t id draft answer) : (createEntity call id draft t).1 = answer := by
  cases h with
  | refused hschema =>
      refine createEntity_of_checkDraft_error ?_
      rw [checkDraft, hschema.eq ht]
  | held hschema hdraft => exact hdraft.eq (hschema.eq ht) hfresh

/-! ### Updating -/

/-- What comes of a patch of an entity whose data has the fields `base`. -/
inductive PatchOutcome (call : Call) (t : Tables) (patch : EntityPatch) (e : Entity)
    (base : Fields) : Except StoreError Entity → Prop
  | titled : patch.data = none → PatchOutcome call t patch e base
      (.ok { e with title := patch.title.or e.title, updated := call.time })
  | notObject {data : Json} : patch.data = some data → data.isObject = false →
      PatchOutcome call t patch e base (.error (.field "data" "must be a JSON object"))
  | refused {fields : Fields} {fault : StoreError} : patch.data = some (.object fields) →
      SchemaOutcome t call.tenant e.blueprint (.error fault) →
      PatchOutcome call t patch e base (.error fault)
  | unusable {fields : Fields} {schema : Json} {fault : Schema.SchemaFault} :
      patch.data = some (.object fields) → SchemaOutcome t call.tenant e.blueprint (.ok schema) →
      validate .lenient schema (.object (Fields.merge base fields)) = .error (.schema fault) →
      PatchOutcome call t patch e base (.error (.ofSchemaError (.schema fault)))
  | invalid {fields : Fields} {schema : Json} {errors : List FieldError} :
      patch.data = some (.object fields) → SchemaOutcome t call.tenant e.blueprint (.ok schema) →
      validate .lenient schema (.object (Fields.merge base fields)) = .error (.document errors) →
      PatchOutcome call t patch e base (.error (.validation errors))
  | deep {fields : Fields} {schema : Json} :
      patch.data = some (.object fields) → SchemaOutcome t call.tenant e.blueprint (.ok schema) →
      validate .lenient schema (.object (Fields.merge base fields)) = .ok () →
      Sql.storageLimit < (Json.object (Fields.merge base fields)).depth →
      PatchOutcome call t patch e base
        (.error (.internal (Constraint.invalidDocument "data").databaseError))
  | patched {fields : Fields} {schema : Json} :
      patch.data = some (.object fields) → SchemaOutcome t call.tenant e.blueprint (.ok schema) →
      validate .lenient schema (.object (Fields.merge base fields)) = .ok () →
      (Json.object (Fields.merge base fields)).depth ≤ Sql.storageLimit →
      PatchOutcome call t patch e base (.ok { e with
        data := .object (Fields.merge base fields)
        title := patch.title.or e.title
        updated := call.time })

/-- What an update is answered.  Without data the schema is not looked at. -/
inductive UpdateOutcome (call : Call) (t : Tables) (id : String) (patch : EntityPatch) :
    Except StoreError Entity → Prop
  | missing : (∀ r ∈ t.entities, r.tenant = call.tenant → r.id ≠ some id) →
      UpdateOutcome call t id patch (.error (.entityNotFound id))
  | unreadable {r : EntityRow} {fault : DatabaseError} : r ∈ t.entities →
      r.tenant = call.tenant → r.id = some id → r.read = .error fault →
      UpdateOutcome call t id patch (.error (.internal fault))
  | found {r : EntityRow} {e : Entity} {base : Fields} {answer : Except StoreError Entity} :
      t.Shows call.tenant r e → r.id = some id → e.data = .object base →
      PatchOutcome call t patch e base answer → UpdateOutcome call t id patch answer

theorem exists_patchOutcome (ht : Consistent Json.Regular t) (call : Call) (patch : EntityPatch)
    (e : Entity) (base : Fields) : ∃ answer, PatchOutcome call t patch e base answer := by
  cases hpatch : patch.data with
  | none => exact ⟨_, .titled hpatch⟩
  | some data =>
      cases data with
      | object fields =>
          obtain ⟨answer, hschema⟩ := exists_schemaOutcome ht call.tenant e.blueprint
          cases answer with
          | error fault => exact ⟨_, .refused hpatch hschema⟩
          | ok schema =>
              obtain hvalid | ⟨errors, hinvalid⟩ | ⟨fault, hunusable⟩ :=
                validate_cases .lenient schema (.object (Fields.merge base fields))
              · obtain hdeep | hdepth := Nat.lt_or_ge Sql.storageLimit
                  (Json.object (Fields.merge base fields)).depth
                · exact ⟨_, .deep hpatch hschema hvalid hdeep⟩
                · exact ⟨_, .patched hpatch hschema hvalid hdepth⟩
              · exact ⟨_, .invalid hpatch hschema hinvalid⟩
              · exact ⟨_, .unusable hpatch hschema hunusable⟩
      | null | bool _ | number _ | string _ | array _ => exact ⟨_, .notObject hpatch rfl⟩

/-- The data that is read of a row is an object. -/
theorem exists_fields_of_shows (ht : Consistent Json.Regular t) {r : EntityRow} {e : Entity}
    (h : t.Shows tenant r e) : ∃ base, e.data = .object base := by
  obtain ⟨_, data, _, _, -, hdocument, -, -, rfl⟩ := EntityRow.read_eq_ok.mp h.read
  obtain ⟨stored, hobject, hsource⟩ := ht.objects r h.mem
  rw [hsource] at hdocument
  have hdata := isObject_of_readDocument hobject hdocument
  cases data with
  | object base => exact ⟨base, rfl⟩
  | null | bool _ | number _ | string _ | array _ => cases hdata

theorem exists_updateOutcome (ht : Consistent Json.Regular t) (call : Call) (id : String)
    (patch : EntityPatch) : ∃ answer, UpdateOutcome call t id patch answer := by
  by_cases hfound : ∃ r ∈ t.entities, r.tenant = call.tenant ∧ r.id = some id
  · obtain ⟨r, hr, htenant, hid⟩ := hfound
    cases hread : r.read with
    | error fault => exact ⟨_, .unreadable hr htenant hid hread⟩
    | ok e =>
        have hshows : t.Shows call.tenant r e := ⟨hr, htenant, hread⟩
        obtain ⟨base, hbase⟩ := exists_fields_of_shows ht hshows
        obtain ⟨answer, hpatch⟩ := exists_patchOutcome ht call patch e base
        exact ⟨answer, .found hshows hid hbase hpatch⟩
  · exact ⟨_, .missing fun r hr htenant hid => hfound ⟨r, hr, htenant, hid⟩⟩

/-- Data of a patch is laid over the data of the entity and held to the schema. -/
theorem patchedData_of_schema {e : Entity} {base fields : Fields} {schema : Json}
    (hbase : e.data = .object base) (hschema : requireSchema tenant e.blueprint t = .ok schema) :
    patchedData tenant e (some (.object fields)) t =
      (requireValid .lenient schema (.object (Fields.merge base fields))).map fun _ =>
        .object (Fields.merge base fields) := by
  rw [patchedData, hbase, hschema]
  rfl

/-- What is answered to a patch of an entity that is read. -/
theorem PatchOutcome.eq (ht : Unique BlueprintRow.key t.blueprints) {e : Entity} {base : Fields}
    {answer : Except StoreError Entity} (hget : getEntity call.tenant id t = .ok e)
    (hbase : e.data = .object base) (h : PatchOutcome call t patch e base answer) :
    (updateEntity call id patch t).1 = answer := by
  have hrefused : ∀ {fault : StoreError}, patchedData call.tenant e patch.data t = .error fault →
      (updateEntity call id patch t).1 = .error fault := fun hdata => by
    rw [updateEntity_of_refused hget hdata]
  have hpatched : ∀ {fields : Fields} {schema : Json}, patch.data = some (.object fields) →
      SchemaOutcome t call.tenant e.blueprint (.ok schema) →
      validate .lenient schema (.object (Fields.merge base fields)) = .ok () →
      patchedData call.tenant e patch.data t = .ok (.object (Fields.merge base fields)) := by
    intro fields schema hpatch hschema hvalid
    rw [hpatch, patchedData_of_schema hbase (hschema.eq ht), requireValid, hvalid]
    rfl
  cases h with
  | titled hpatch =>
      have hdata : patchedData call.tenant e patch.data t = .ok e.data := by
        rw [hpatch]
        rfl
      rw [updateEntity_of_patchedData hget hdata, if_pos (isDocument_getEntity hget)]
  | @notObject data hpatch hobject =>
      refine hrefused ?_
      rw [hpatch]
      cases data with
      | object fields => cases hobject
      | null | bool _ | number _ | string _ | array _ => rfl
  | refused hpatch hschema =>
      refine hrefused ?_
      rw [hpatch, patchedData, hschema.eq ht]
  | unusable hpatch hschema hunusable =>
      refine hrefused ?_
      rw [hpatch, patchedData_of_schema hbase (hschema.eq ht), requireValid, hunusable]
      rfl
  | invalid hpatch hschema hinvalid =>
      refine hrefused ?_
      rw [hpatch, patchedData_of_schema hbase (hschema.eq ht), requireValid, hinvalid]
      rfl
  | deep hpatch hschema hvalid hdeep =>
      rw [updateEntity_of_patchedData hget (hpatched hpatch hschema hvalid), if_neg]
      exact fun hdocument => Nat.not_le.mpr hdeep (Sql.isDocument_source.mp hdocument)
  | patched hpatch hschema hvalid hdepth =>
      rw [updateEntity_of_patchedData hget (hpatched hpatch hschema hvalid),
        if_pos (Sql.isDocument_source.mpr hdepth)]

theorem UpdateOutcome.eq (ht : Consistent Json.Regular t) {answer : Except StoreError Entity}
    (h : UpdateOutcome call t id patch answer) : (updateEntity call id patch t).1 = answer := by
  have hfind : ∀ {r : EntityRow}, r ∈ t.entities → r.tenant = call.tenant → r.id = some id →
      t.entity? call.tenant id = some r := fun hr htenant hid =>
    Distinct.find?_eq_some ht.ids |>.mpr ⟨hr, EntityRow.isAt_iff.mpr ⟨htenant, hid⟩⟩
  cases h with
  | missing hnone =>
      have hmissing : t.entity? call.tenant id = none :=
        List.find?_eq_none.mpr fun r hr hat =>
          hnone r hr (EntityRow.isAt_iff.mp hat).1 (EntityRow.isAt_iff.mp hat).2
      rw [updateEntity, getEntity, hmissing]
      rfl
  | unreadable hr htenant hid hread =>
      rw [updateEntity, getEntity_of_found (hfind hr htenant hid), hread]
      rfl
  | found hshows hid hbase hpatch =>
      have hget : getEntity call.tenant id t = .ok _ :=
        getEntity_row.mpr ⟨_, hfind hshows.mem hshows.tenant hid, hshows.read⟩
      exact hpatch.eq ht.keys hget hbase

/-! ### Both writes -/

/-- The blueprint of an entity is there, unless its id has a NUL. -/
theorem exists_blueprint_of_shows (ht : Consistent Json.Regular t) {r : EntityRow} {e : Entity}
    (h : t.Shows tenant r e) (hplain : Plain r.blueprint) :
    ∃ b ∈ t.blueprints, b.key = (tenant, e.blueprint) := by
  obtain ⟨b, hb, hkey⟩ := ht.owned r h.mem
  rw [h.tenant, (blueprint_eq_iff h.read).mpr hplain] at hkey
  exact ⟨b, hb, hkey⟩

theorem updateEntity_ne_blueprintNotFound (ht : Consistent Json.Regular t)
    (hplain : ∀ r ∈ t.entities, r.id = some id → Plain r.blueprint) (name : String) :
    (updateEntity call id patch t).1 ≠ .error (.blueprintNotFound name) := by
  obtain ⟨answer, houtcome⟩ := exists_updateOutcome ht call id patch
  rw [houtcome.eq ht]
  rintro rfl
  cases houtcome with
  | found hshows hid hbase hpatch =>
      cases hpatch with
      | refused hdata hschema =>
          cases hschema with
          | missing hnone =>
              obtain ⟨b, hb, hkey⟩ := exists_blueprint_of_shows ht hshows (hplain _ hshows.mem hid)
              exact hnone b hb hkey

/-- What the writes of entities are answered in all tables that can be reached: exactly what
`CreateOutcome` and `UpdateOutcome` say.  An update is not answered that the blueprint is not there,
unless the blueprint of the entity has a NUL in its id.  Inside the limits of what can be stored, and
where the schemas that were given read back, the fault is the caller's, so nothing is too deep to be
read and every schema can be used.  Then only the request itself can be too deep. -/
theorem entity_write_outcome {allowed : Call → Change → Prop} (ht : Reachable allowed t)
    (hregular : ∀ call c, allowed call c → ∀ schema ∈ c.schema?, schema.Regular) :
    (∀ call id draft answer, (∀ r ∈ t.entities, r.id ≠ some id) →
      ((createEntity call id draft t).1 = answer ↔ CreateOutcome call t id draft answer)) ∧
    (∀ call id patch answer,
      ((updateEntity call id patch t).1 = answer ↔ UpdateOutcome call t id patch answer)) ∧
    (∀ call id patch name, (∀ r ∈ t.entities, r.id = some id → Plain r.blueprint) →
      (updateEntity call id patch t).1 ≠ .error (.blueprintNotFound name)) ∧
    ((∀ call c, allowed call c → c.Bounded call ∧ c.SchemaReadsBack) →
      (∀ call id draft, draft.data.depth ≤ Sql.storageLimit →
        Client (createEntity call id draft t).1) ∧
      ∀ call id patch, (∀ data ∈ patch.data, data.depth ≤ Sql.storageLimit) →
        Client (updateEntity call id patch t).1) := by
  have hconsistent : Consistent Json.Regular t := (ht.mono hregular).consistent
  refine ⟨fun call id draft answer hfresh => ⟨?_, CreateOutcome.eq hconsistent.keys hfresh⟩,
    fun call id patch answer => ⟨?_, UpdateOutcome.eq hconsistent⟩,
    fun call id patch name hplain => updateEntity_ne_blueprintNotFound hconsistent hplain name,
    fun hbounded => ?_⟩
  -- some outcome applies, and what is answered is that outcome, so it is the only one
  · rintro rfl
    obtain ⟨answer, houtcome⟩ := exists_createOutcome hconsistent call id draft
    rwa [houtcome.eq hconsistent.keys hfresh]
  · rintro rfl
    obtain ⟨answer, houtcome⟩ := exists_updateOutcome hconsistent call id patch
    rwa [houtcome.eq hconsistent]
  · have ht := ht.mono hbounded
    have husable := (ht.mono fun _ _ hc => hc.1).usable
    have hschemas := ht.usableSchemas.schemaUsable husable
    exact ⟨fun call id draft hdepth =>
        client_createEntity husable (hschemas _ _) (Sql.isDocument_source.mpr hdepth),
      fun call id patch hdepth => client_updateEntity husable (hschemas _ _) fun data hdata =>
        Sql.isDocument_source.mpr (hdepth data hdata)⟩

end reader

/-- A size without a proper unit. -/
def oddSize : Fields := [("size", .object [("unit", .number (.integer 7))])]

def oddSizeFault : StoreError := .validation [⟨"size.unit", "7 is not of type \"string\""⟩]

/-- Another part with the identifier of the first, whose data is refused. -/
def oddWheel : EntityDraft := ⟨"part", "wheel", none, .object (("name", .string "Wheel") :: oddSize)⟩

/-- The data of a draft is at fault before its identifier is taken, a blank identifier before the data,
and the blueprint before both. -/
theorem entity_write_outcome_part :
    let t := after .empty partRun
    (∀ s ∈ partRun, s.Bounded) ∧
      CreateOutcome laterCall t "ent-2" oddWheel (.error oddSizeFault) ∧
      CreateOutcome laterCall t "ent-2" ⟨"part", " ", none, .null⟩
        (.error (.field "identifier" "must not be empty")) ∧
      (createEntity laterCall "ent-2" ⟨"gear", " ", none, .null⟩ t).1 =
        .error (.blueprintNotFound "gear") ∧
      UpdateOutcome laterCall t "ent-1" ⟨none, some (.object oddSize)⟩ (.error oddSizeFault) ∧
      (∀ patch name, (updateEntity laterCall "ent-1" patch t).1 ≠ .error (.blueprintNotFound name)) ∧
      Client (updateEntity laterCall "ent-1" ⟨none, some (.object oddSize)⟩ t).1 := by
  intro t
  have hsteps : ∀ s ∈ partRun, s.Bounded := fun s hs =>
    bounded_partRun s (List.mem_append_left _ hs)
  have ht : Reachable (fun call c => c.Bounded call) t :=
    Reachable.empty.after fun s hs => (hsteps s hs).allowed
  obtain ⟨hfresh, hplain, hgear, hinvalid, hblank, hpatch⟩ :
      (∀ r ∈ t.entities, r.id ≠ some "ent-2") ∧
      (∀ r ∈ t.entities, r.id = some "ent-1" → Plain r.blueprint) ∧
      (∀ b ∈ t.blueprints, b.key ≠ ("acme", "gear")) ∧
      (createEntity laterCall "ent-2" oddWheel t).1 = .error oddSizeFault ∧
      (createEntity laterCall "ent-2" ⟨"part", " ", none, .null⟩ t).1 =
        .error (.field "identifier" "must not be empty") ∧
      (updateEntity laterCall "ent-1" ⟨none, some (.object oddSize)⟩ t).1 = .error oddSizeFault := by
    decide +kernel
  obtain ⟨hcreate, hupdate, hfound, hclient⟩ := entity_write_outcome ht fun _ _ hc schema hschema =>
    (hc.schema.2 schema hschema).regular
  exact ⟨hsteps, (hcreate _ _ _ _ hfresh).mp hinvalid, (hcreate _ _ _ _ hfresh).mp hblank,
    (hcreate _ _ _ _ hfresh).mpr (.refused (.missing hgear)), (hupdate _ _ _ _).mp hpatch,
    fun patch name => hfound laterCall "ent-1" patch name hplain,
    (hclient fun _ _ hc => ⟨hc, fun schema _ => Json.readsBack_exact schema⟩).2 _ _ _
      (by decide +kernel)⟩

/-- The id of the only blueprint has a NUL. -/
def loneCutRun : List Step := [
  ⟨⟨"acme", ⟨0, 0⟩⟩, .change (.createBlueprint ⟨"service\x00v2", "Service", none, .object []⟩)⟩,
  ⟨⟨"acme", ⟨1, 0⟩⟩, .change (.createEntity "ent-1" ⟨"service\x00v2", "api", none, .object []⟩)⟩]

/-- An update looks for a blueprint that is not there, although the entity has one. -/
theorem update_of_cut_blueprint :
    let t := after .empty loneCutRun
    t.entities.map (fun r => (r.id, r.blueprint)) = [(some "ent-1", "service\x00v2")] ∧
      t.blueprints.map BlueprintRow.key = [("acme", "service\x00v2")] ∧
      (updateEntity laterCall "ent-1" ⟨none, some (.object [])⟩ t).1 =
        .error (.blueprintNotFound "service") := by
  decide +kernel

end EntityStore.Store
