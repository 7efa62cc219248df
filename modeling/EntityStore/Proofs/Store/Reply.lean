import EntityStore.Proofs.Store.Blueprints
import EntityStore.Proofs.Store.Validation

/-! # What a write answers and what is read after it

A write answers the record that it was given, and the record is read from its row: each text up to
its first NUL, an empty text as absent where absence is possible, and a document with its doubles read
anew, and only if it is not too deep.  So what is read right after a write is what the write answered
(`get_after_write`), unless one of these makes a difference.  An update of a blueprint answers what it
reads, so there they never do. -/

namespace EntityStore.Store

open Time (Instant)

variable {call : Call} {t : Tables} {tenant id : String}

/-! ### Texts and times -/

theorem readText_eq_iff {text : String} : readText text = text ↔ Plain text :=
  ⟨fun h => h ▸ plain_readText text, readText_plain⟩

theorem readOptional_eq_iff {text : Option String} :
    readOptional text = text ↔ ∀ s ∈ text, Plain s ∧ s ≠ "" := by
  cases text with
  | none => exact iff_of_true rfl nofun
  | some s =>
      simp only [readOptional, Option.map_some, Option.filter_some, Option.mem_def,
        Option.some.injEq, forall_eq']
      constructor
      · intro h
        split at h
        · next hne =>
            have hself := Option.some.inj h
            rw [hself] at hne
            exact ⟨readText_eq_iff.mp hself, of_decide_eq_true hne⟩
        · cases h
      · rintro ⟨hplain, hne⟩
        rw [readText_plain hplain, if_pos (decide_eq_true hne)]

theorem readInstant_time (h : call.now.Storable) : readInstant call.time.stored = .ok call.time := by
  rw [readInstant_stored (storable_time h), call.toMicros_time]

/-! ### Rows that hold a record -/

/-- The row holds the entity: what is read of the row is what is read of the entity. -/
structure EntityRow.Holds (r : EntityRow) (e : Entity) : Prop where
  id : readId r.id = .ok (readText e.id)
  tenant : readText r.tenant = readText e.tenant
  blueprint : readText r.blueprint = readText e.blueprint
  identifier : readText r.identifier = readText e.identifier
  title : readOptional r.title = readOptional e.title
  data : r.data = e.data.source
  created : readInstant r.created = .ok e.created
  updated : readInstant r.updated = .ok e.updated

theorem holds_created (id : String) (draft : EntityDraft) (hnow : call.now.Storable) :
    (EntityRow.ofEntity (call.entity id draft)).Holds (call.entity id draft) where
  id := rfl
  tenant := rfl
  blueprint := rfl
  identifier := rfl
  title := rfl
  data := rfl
  created := readInstant_time hnow
  updated := readInstant_time hnow

section reader
variable [FloatReader]

/-! ### What is read of a record -/

/-- What is read of an entity that was stored. -/
def rereadEntity (e : Entity) : Except StoreError Entity :=
  if e.data.depth ≤ Json.depthLimit then
    .ok { e with
      id := readText e.id
      tenant := readText e.tenant
      blueprint := readText e.blueprint
      identifier := readText e.identifier
      title := readOptional e.title
      data := e.data.reread }
  else .error (.internal (.query "Invalid JSON in column"))

/-- What is read of a blueprint that was stored. -/
def rereadBlueprint (b : Blueprint) : Except StoreError Blueprint :=
  if b.schema.depth ≤ Json.depthLimit then
    .ok { b with
      tenant := readText b.tenant
      id := readText b.id
      title := readText b.title
      description := readOptional b.description
      schema := b.schema.reread }
  else .error (.internal (.query "Invalid JSON in column"))

/-- An entity is read as it is if none of its texts has a NUL, its title is not empty, and its data
reads back and is not too deep. -/
theorem rereadEntity_eq_ok {e : Entity} : rereadEntity e = .ok e ↔
    e.data.depth ≤ Json.depthLimit ∧ e.data.ReadsBack ∧ Plain e.id ∧ Plain e.tenant ∧ Plain e.blueprint ∧
      Plain e.identifier ∧ ∀ title ∈ e.title, Plain title ∧ title ≠ "" := by
  obtain ⟨id, tenant, blueprint, identifier, title, data, created, updated⟩ := e
  rw [rereadEntity]
  split
  · next hdepth =>
      simp only [Except.ok.injEq, Entity.mk.injEq, readText_eq_iff, readOptional_eq_iff, hdepth,
        Json.ReadsBack, true_and, and_true]
      constructor
      · rintro ⟨hid, htenant, hblueprint, hidentifier, htitle, hback⟩
        exact ⟨hback, hid, htenant, hblueprint, hidentifier, htitle⟩
      · rintro ⟨hback, hid, htenant, hblueprint, hidentifier, htitle⟩
        exact ⟨hid, htenant, hblueprint, hidentifier, htitle, hback⟩
  · next hdepth =>
      refine iff_of_false (fun h => ?_) fun h => hdepth h.1
      cases h

theorem rereadBlueprint_eq_ok {b : Blueprint} : rereadBlueprint b = .ok b ↔
    b.schema.depth ≤ Json.depthLimit ∧ b.schema.ReadsBack ∧ Plain b.tenant ∧ Plain b.id ∧ Plain b.title ∧
      ∀ text ∈ b.description, Plain text ∧ text ≠ "" := by
  obtain ⟨tenant, id, title, description, schema, created, updated⟩ := b
  rw [rereadBlueprint]
  split
  · next hdepth =>
      simp only [Except.ok.injEq, Blueprint.mk.injEq, readText_eq_iff, readOptional_eq_iff, hdepth,
        Json.ReadsBack, true_and, and_true]
      constructor
      · rintro ⟨htenant, hid, htitle, hdescription, hback⟩
        exact ⟨hback, htenant, hid, htitle, hdescription⟩
      · rintro ⟨hback, htenant, hid, htitle, hdescription⟩
        exact ⟨htenant, hid, htitle, hdescription, hback⟩
  · next hdepth =>
      refine iff_of_false (fun h => ?_) fun h => hdepth h.1
      cases h

/-! ### Rows of records -/

theorem EntityRow.Holds.read {r : EntityRow} {e : Entity} (h : r.Holds e) (hdata : e.data.Regular) :
    r.read.mapError .internal = rereadEntity e := by
  rw [EntityRow.read, h.id, h.data, h.created, h.updated, readDocument_regular hdata, h.tenant,
    h.blueprint, h.identifier, h.title, rereadEntity]
  split <;> rfl

theorem holds_replace {r : EntityRow} {e : Entity} (h : r.read = .ok e) (hnow : call.now.Storable)
    (title : Option String) (data : Json) :
    (call.replace title data r).Holds { e with data, title, updated := call.time } := by
  obtain ⟨id, _, created, _, hid, -, hcreated, -, rfl⟩ := EntityRow.read_eq_ok.mp h
  obtain ⟨id', hid'⟩ : ∃ id', r.id = some id' := by
    cases hid' : r.id with
    | none => rw [hid'] at hid; cases hid
    | some id' => exact ⟨id', rfl⟩
  exact {
    id := by
      rw [hid', readId] at hid
      cases hid
      rw [readText_readText, ← readId]
      exact congrArg readId hid'
    tenant := (readText_readText _).symm
    blueprint := (readText_readText _).symm
    identifier := (readText_readText _).symm
    title := rfl
    data := rfl
    created := hcreated
    updated := readInstant_time hnow }

theorem read_createdBlueprint {draft : BlueprintDraft} (hnow : call.now.Storable)
    (hschema : draft.schema.Regular) :
    (BlueprintRow.ofBlueprint (call.blueprint draft)).read.mapError .internal =
      rereadBlueprint (call.blueprint draft) := by
  rw [BlueprintRow.read]
  dsimp only [BlueprintRow.ofBlueprint, Call.blueprint]
  rw [readDocument_regular hschema, readInstant_time hnow, rereadBlueprint]
  split <;> rfl

/-! ### Reachable tables -/

/-- The id that a change gives to a new entity. -/
def Change.newId? : Change → Option String
  | .createEntity id _ => some id
  | _ => none

/-- What is given to a change: a time of a four-digit year, values, and an id without NUL for a new
entity. -/
structure Change.Given (call : Call) (c : Change) : Prop where
  now : call.now.Storable
  data : c.Regular
  schema : ∀ schema ∈ c.schema?, schema.Regular
  newId : ∀ id ∈ c.newId?, Store.Plain id

instance (c : Change) : Decidable (c.Given call) :=
  decidable_of_iff (call.now.Storable ∧ c.Regular ∧ (∀ schema ∈ c.schema?, schema.Regular) ∧
      ∀ id ∈ c.newId?, Store.Plain id)
    ⟨fun ⟨hnow, hdata, hschema, hid⟩ => ⟨hnow, hdata, hschema, hid⟩,
      fun h => ⟨h.now, h.data, h.schema, h.newId⟩⟩

/-- The ids of entities have no NUL. -/
theorem Reachable.plainIds {allowed : Call → Change → Prop} (h : Reachable allowed t)
    (hids : ∀ call c, allowed call c → ∀ id ∈ c.newId?, Plain id) :
    ∀ r ∈ t.entities, ∀ id, r.id = some id → Plain id := by
  refine h.forall_entities ?_ fun _ _ _ _ hr => hr
  rintro call id draft hc _ ⟨⟩
  exact hids call _ hc id rfl

/-! ### Reading after a write -/

/-- What is read of an entity right after it was created. -/
theorem getEntity_of_createEntity {draft : EntityDraft} {e : Entity} {t' : Tables}
    (hc : Change.Given call (.createEntity id draft))
    (h : createEntity call id draft t = (.ok e, t')) :
    getEntity call.tenant e.id t' = rereadEntity e := by
  obtain ⟨_, hrefused⟩ | ⟨-, -, hfresh, hcreated⟩ := createEntity_cases call t id draft
  · rw [hrefused] at h
    cases h
  · rw [hcreated] at h
    cases h
    rw [← (holds_created id draft hc.now).read hc.data]
    exact getEntity_of_found (entity?_created t.blueprints hfresh)

/-- What is read of an entity right after it was updated. -/
theorem getEntity_of_updateEntity (ht : Reachable (fun call c => c.Given call) t)
    {patch : EntityPatch} {e : Entity} {t' : Tables}
    (hc : Change.Given call (.updateEntity id patch))
    (h : updateEntity call id patch t = (.ok e, t')) :
    getEntity call.tenant e.id t' = rereadEntity e := by
  obtain ⟨_, hrefused⟩ | ⟨e₀, data, hget, hdata, -, hupdated⟩ := updateEntity_cases call t id patch
  · rw [hrefused] at h
    cases h
  · rw [hupdated] at h
    cases h
    have hregular := (ht.mono fun _ _ hc => hc.data).regular
    obtain ⟨r, hfound, hread⟩ := getEntity_row.mp hget
    have hat := List.find?_some hfound
    have hid : e₀.id = id := by
      obtain ⟨_, _, _, _, hid, -, -, -, rfl⟩ := EntityRow.read_eq_ok.mp hread
      have hstored := (EntityRow.isAt_iff.mp hat).2
      rw [hstored, readId, readText_plain
        (ht.plainIds (fun _ _ hc => hc.newId) r (List.mem_of_find?_eq_some hfound) id hstored)] at hid
      exact (Except.ok.inj hid).symm
    obtain ⟨-, -, he₀, -, -⟩ := source_of_getEntity hregular hget
    have hdataRegular := regular_patchedData hdata he₀ hc.data
    rw [← (holds_replace hread hc.now (patch.title.or e₀.title) data).read hdataRegular]
    refine getEntity_of_found ?_
    show List.find? _ _ = _
    rw [Tables.updateEntity, find?_replace, hid, show t.entities.find? _ = some r from hfound,
      Option.map_some, if_pos hat]

/-- What is read of a blueprint right after it was created. -/
theorem getBlueprint_of_createBlueprint {draft : BlueprintDraft} {b : Blueprint} {t' : Tables}
    (hc : Change.Given call (.createBlueprint draft))
    (h : createBlueprint call draft t = (.ok b, t')) :
    getBlueprint call.tenant b.id t' = rereadBlueprint b := by
  obtain ⟨rfl, -, -, hfree, rfl⟩ := createBlueprint_eq_ok h
  rw [← read_createdBlueprint hc.now (hc.schema draft.schema rfl)]
  exact getBlueprint_of_found (blueprint?_created t.entities hfree)

/-- An updated blueprint is answered as it is read. -/
theorem getBlueprint_of_updateBlueprint {patch : BlueprintPatch} {b : Blueprint} {t' : Tables}
    (h : updateBlueprint call id patch t = (.ok b, t')) : getBlueprint call.tenant id t' = .ok b := by
  rw [updateBlueprint_eq] at h
  split at h
  · obtain ⟨hb, rfl⟩ := Prod.mk.inj h
    exact hb
  · split at h
    · cases h
    · split at h
      · cases h
      · split at h
        · cases h
        · obtain ⟨hb, rfl⟩ := Prod.mk.inj h
          exact hb

/-- What is read right after a write is what the write answered, unless a text has a NUL, a text that
could be absent is empty, or a document is too deep or has a double that does not read back.  An
update of a blueprint has no exception. -/
theorem get_after_write (ht : Reachable (fun call c => c.Given call) t) :
    (∀ call id draft e t', Change.Given call (.createEntity id draft) →
      createEntity call id draft t = (.ok e, t') →
        getEntity call.tenant e.id t' = rereadEntity e) ∧
    (∀ call id patch e t', Change.Given call (.updateEntity id patch) →
      updateEntity call id patch t = (.ok e, t') →
        getEntity call.tenant e.id t' = rereadEntity e) ∧
    (∀ e, rereadEntity e = .ok e ↔
      e.data.depth ≤ Json.depthLimit ∧ e.data.ReadsBack ∧ Plain e.id ∧ Plain e.tenant ∧
        Plain e.blueprint ∧ Plain e.identifier ∧ ∀ title ∈ e.title, Plain title ∧ title ≠ "") ∧
    (∀ call draft b t', Change.Given call (.createBlueprint draft) →
      createBlueprint call draft t = (.ok b, t') →
        getBlueprint call.tenant b.id t' = rereadBlueprint b) ∧
    (∀ b, rereadBlueprint b = .ok b ↔
      b.schema.depth ≤ Json.depthLimit ∧ b.schema.ReadsBack ∧ Plain b.tenant ∧ Plain b.id ∧
        Plain b.title ∧ ∀ text ∈ b.description, Plain text ∧ text ≠ "") ∧
    (∀ call id patch b t', updateBlueprint call id patch t = (.ok b, t') →
      getBlueprint call.tenant id t' = .ok b) :=
  ⟨fun _ _ _ _ _ => getEntity_of_createEntity, fun _ _ _ _ _ => getEntity_of_updateEntity ht,
    fun _ => rereadEntity_eq_ok, fun _ _ _ _ => getBlueprint_of_createBlueprint,
    fun _ => rereadBlueprint_eq_ok, fun _ _ _ _ _ => getBlueprint_of_updateBlueprint⟩

end reader

def laterCall : Call := ⟨"acme", ⟨6, 0⟩⟩

def gatewayPatch : EntityPatch := ⟨some "Gateway", some (.object [("tls", .bool true)])⟩

def gatewayEntity : Entity :=
  ⟨"ent-1", "acme", "service", "api", some "Gateway", .object [("tls", .bool true)], ⟨1, 5000⟩,
    ⟨6, 0⟩⟩

def storageDraft : BlueprintDraft := ⟨"storage", "Storage", some "Disks", .object []⟩

theorem eq_of_fst_eq {α β : Type} {p : α × β} {a : α} (h : p.1 = a) : p = (a, p.2) := by
  rw [← h]

/-- An entity gets another title and a key, which are then read, and so is a new blueprint. -/
theorem get_after_write_gateway :
    let t := after .empty titledRun
    Reachable (fun call c => c.Given call) t ∧
      (updateEntity laterCall "ent-1" gatewayPatch t).1 = .ok gatewayEntity ∧
      getEntity "acme" "ent-1" (updateEntity laterCall "ent-1" gatewayPatch t).2 =
        .ok gatewayEntity ∧
      getBlueprint "acme" "storage" (createBlueprint laterCall storageDraft t).2 =
        .ok (laterCall.blueprint storageDraft) := by
  intro t
  have hgiven : ∀ s ∈ titledRun, s.Allowed fun call c => c.Given call := by decide +kernel
  have hupdate : (updateEntity laterCall "ent-1" gatewayPatch t).1 = .ok gatewayEntity := by
    decide +kernel
  have hcreate : (createBlueprint laterCall storageDraft t).1 =
      .ok (laterCall.blueprint storageDraft) := by decide +kernel
  have ht : Reachable (fun call c => c.Given call) t := Reachable.empty.after hgiven
  obtain ⟨-, hupdated, hentity, hcreated, hblueprint, -⟩ := get_after_write ht
  have hread := hupdated laterCall "ent-1" gatewayPatch gatewayEntity _ (by decide +kernel)
    (eq_of_fst_eq hupdate)
  have hread' := hcreated laterCall storageDraft (laterCall.blueprint storageDraft) _
    (by decide +kernel) (eq_of_fst_eq hcreate)
  rw [(hentity gatewayEntity).mpr (by decide +kernel)] at hread
  rw [(hblueprint (laterCall.blueprint storageDraft)).mpr (by decide +kernel)] at hread'
  exact ⟨ht, hupdate, hread, hread'⟩

/-- A new entity is answered with the empty title that it was given, and is read without one. -/
theorem get_after_write_untitled :
    let t := after .empty titledRun
    let draft : EntityDraft := ⟨"service", "db", some "", .object []⟩
    let entity : Entity := laterCall.entity "ent-3" draft
    (createEntity laterCall "ent-3" draft t).1 = .ok entity ∧
      getEntity "acme" "ent-3" (createEntity laterCall "ent-3" draft t).2 =
        .ok { entity with title := none } := by
  decide +kernel

end EntityStore.Store
