import EntityStore.Proofs.Json.Reread
import EntityStore.Proofs.Store.Row

/-! # Reachable tables

The tables that are reached from empty ones by the changes that are allowed are `Reachable`.

What a change does to the entities is said once (`Change.entities_apply`): some are kept, or one with
a new id is added, or the data of one is replaced.  So ids are distinct in all reachable tables
(`Reachable.distinct`), and where callers give storable documents and times, every entity can be read
(`Reachable.readable`).  Its data is the document that was stored, read anew (`Json.reread`). -/

namespace EntityStore.Store

variable [FloatReader]

/-! ### Reachable tables -/

/-- The tables after a change. -/
def Change.apply (call : Call) (t : Tables) : Change → Tables
  | .createBlueprint draft => (Store.createBlueprint call draft t).2
  | .updateBlueprint id patch => (Store.updateBlueprint call id patch t).2
  | .deleteBlueprint id => (Store.deleteBlueprint call id t).2
  | .createEntity id draft => (Store.createEntity call id draft t).2
  | .updateEntity id patch => (Store.updateEntity call id patch t).2
  | .deleteEntity id => (Store.deleteEntity call id t).2

/-- What can come of calls that are allowed. -/
inductive Reachable (allowed : Call → Change → Prop) : Tables → Prop
  | empty : Reachable allowed .empty
  | change {t : Tables} (call : Call) (c : Change) :
      Reachable allowed t → allowed call c → Reachable allowed (c.apply call t)

theorem Reachable.mono {allowed allowed' : Call → Change → Prop} {t : Tables}
    (h : Reachable allowed t) (himp : ∀ call c, allowed call c → allowed' call c) :
    Reachable allowed' t := by
  induction h with
  | empty => exact .empty
  | change call c _ hc ih => exact .change call c ih (himp call c hc)

variable {call : Call} {t : Tables}

/-! ### What a change does -/

theorem updateBlueprint_entities (id : String) (patch : BlueprintPatch) :
    (updateBlueprint call id patch t).2.entities = t.entities := by
  rw [updateBlueprint_eq]
  split
  · rfl
  · split
    · rfl
    · split
      · rfl
      · split <;> rfl

/-- A created entity has a new id, and its data is a document. -/
theorem createEntity_cases (call : Call) (t : Tables) (id : String) (draft : EntityDraft) :
    (∃ e, createEntity call id draft t = (.error e, t)) ∨
      checkDraft call.tenant draft t = .ok () ∧ Sql.isDocument draft.data.source = true ∧
        (∀ r ∈ t.entities, r.id ≠ some id) ∧
        createEntity call id draft t = (.ok (call.entity id draft),
          ⟨t.blueprints, t.entities ++ [.ofEntity (call.entity id draft)]⟩) := by
  rw [createEntity]
  split
  · exact .inl ⟨_, rfl⟩
  · next hcheck =>
      dsimp only
      split
      · next hinsert =>
          obtain ⟨hdocument, hfresh, rfl⟩ := insertEntity_eq_ok hinsert
          exact .inr ⟨hcheck, hdocument, hfresh, rfl⟩
      · exact .inl ⟨_, rfl⟩
      · exact .inl ⟨_, rfl⟩

/-- What an update writes, if the entity is read and the patch is accepted. -/
theorem updateEntity_of_patchedData {id : String} {patch : EntityPatch} {e : Entity} {data : Json}
    (hget : getEntity call.tenant id t = .ok e)
    (hdata : patchedData call.tenant e patch.data t = .ok data) :
    updateEntity call id patch t =
      if Sql.isDocument data.source then
        (.ok { e with data, title := patch.title.or e.title, updated := call.time },
          t.updateEntity call.tenant id (call.replace (patch.title.or e.title) data))
      else (.error (.internal (Constraint.invalidDocument "data").databaseError), t) := by
  obtain ⟨r, hfound⟩ : ∃ r, t.entity? call.tenant id = some r := by
    cases hfound : t.entity? call.tenant id with
    | none =>
        rw [getEntity, hfound] at hget
        cases hget
    | some r => exact ⟨r, rfl⟩
  have hwrite : t.writeEntity call.tenant id (call.replace (patch.title.or e.title) data) = _ :=
    writeEntity_of_found hfound _ data
  unfold Call.replace at hwrite ⊢
  rw [updateEntity, hget]
  dsimp only
  rw [hdata]
  dsimp only
  rw [hwrite]
  cases Sql.isDocument data.source <;> rfl

theorem updateEntity_of_refused {id : String} {patch : EntityPatch} {e : Entity} {fault : StoreError}
    (hget : getEntity call.tenant id t = .ok e)
    (hdata : patchedData call.tenant e patch.data t = .error fault) :
    updateEntity call id patch t = (.error fault, t) := by
  rw [updateEntity, hget]
  dsimp only
  rw [hdata]
  rfl

/-- An update puts the data of a patch into the row it was read from, if the data is a document. -/
theorem updateEntity_cases (call : Call) (t : Tables) (id : String) (patch : EntityPatch) :
    (∃ e, updateEntity call id patch t = (.error e, t)) ∨
      ∃ e data, getEntity call.tenant id t = .ok e ∧
        patchedData call.tenant e patch.data t = .ok data ∧ Sql.isDocument data.source = true ∧
        updateEntity call id patch t =
          (.ok { e with data, title := patch.title.or e.title, updated := call.time },
            t.updateEntity call.tenant id (call.replace (patch.title.or e.title) data)) := by
  cases hget : getEntity call.tenant id t with
  | error fault =>
      rw [updateEntity, hget]
      exact .inl ⟨_, rfl⟩
  | ok e =>
      cases hdata : patchedData call.tenant e patch.data t with
      | error fault =>
          rw [updateEntity_of_refused hget hdata]
          exact .inl ⟨_, rfl⟩
      | ok data =>
          rw [updateEntity_of_patchedData hget hdata]
          cases hdocument : Sql.isDocument data.source with
          | false => exact .inl ⟨_, rfl⟩
          | true => exact .inr ⟨e, data, rfl, hdata, hdocument, rfl⟩

/-- What a change does to the entities: it keeps some, adds one under a new id, or replaces the data
of one. -/
theorem Change.entities_apply (call : Call) (t : Tables) (c : Change) :
    (∃ keep, (c.apply call t).entities = t.entities.filter keep) ∨
    (∃ id draft, c = .createEntity id draft ∧ (∀ r ∈ t.entities, r.id ≠ some id) ∧
      (c.apply call t).entities = t.entities ++ [.ofEntity (call.entity id draft)]) ∨
    ∃ id patch e title data, c = .updateEntity id patch ∧ getEntity call.tenant id t = .ok e ∧
      patchedData call.tenant e patch.data t = .ok data ∧
      (c.apply call t).entities = t.entities.map fun r =>
        if r.isAt call.tenant id then call.replace title data r else r := by
  have kept : ∀ {es : List EntityRow}, es = t.entities → ∃ keep, es = t.entities.filter keep :=
    fun h => ⟨fun _ => true, by rw [h, List.filter_eq_self.mpr fun _ _ => rfl]⟩
  cases c with
  | createBlueprint draft => exact .inl (kept (createBlueprint_entities draft))
  | updateBlueprint id patch => exact .inl (kept (updateBlueprint_entities id patch))
  | deleteBlueprint id =>
      simp only [apply, Store.deleteBlueprint]
      split
      · exact .inl (kept rfl)
      · exact .inl ⟨_, rfl⟩
  | createEntity id draft =>
      simp only [apply]
      obtain ⟨e, h⟩ | ⟨-, -, hfresh, h⟩ := createEntity_cases call t id draft
      · exact .inl (kept (by rw [h]))
      · exact .inr (.inl ⟨id, draft, rfl, hfresh, by rw [h]⟩)
  | updateEntity id patch =>
      simp only [apply]
      obtain ⟨e, h⟩ | ⟨e, data, hget, hdata, -, h⟩ := updateEntity_cases call t id patch
      · exact .inl (kept (by rw [h]))
      · exact .inr (.inr ⟨id, patch, e, _, data, rfl, hget, hdata, by rw [h]; rfl⟩)
  | deleteEntity id =>
      simp only [apply, Store.deleteEntity]
      split
      · exact .inl (kept rfl)
      · exact .inl ⟨_, rfl⟩

/-- What is true of all entities stays true of them if it is true of a new one, and of a row whose
data is replaced. -/
theorem Change.forall_entities {P : EntityRow → Prop} {c : Change} (h : ∀ r ∈ t.entities, P r)
    (hcreated : ∀ id draft, c = .createEntity id draft → P (.ofEntity (call.entity id draft)))
    (hreplaced : ∀ id patch e title data, c = .updateEntity id patch →
      getEntity call.tenant id t = .ok e → patchedData call.tenant e patch.data t = .ok data →
      ∀ r, P r → P (call.replace title data r)) :
    ∀ r ∈ (c.apply call t).entities, P r := by
  obtain ⟨keep, hkeep⟩ | ⟨id, draft, hc, -, hadd⟩ | ⟨id, patch, e, title, data, hc, hget, hdata, hmap⟩ :=
    c.entities_apply call t
  · rw [hkeep]
    exact fun r hr => h r (List.mem_filter.mp hr).1
  · rw [hadd]
    exact List.forall_mem_append.mpr ⟨h, List.forall_mem_singleton.mpr (hcreated id draft hc)⟩
  · rw [hmap]
    refine List.forall_mem_map.mpr fun r hr => ?_
    split
    · exact hreplaced id patch e title data hc hget hdata r (h r hr)
    · exact h r hr

/-- What is true of all new entities, and stays true when the data of one is replaced, is true of all
entities in reachable tables. -/
theorem Reachable.forall_entities {allowed : Call → Change → Prop} {P : EntityRow → Prop}
    (h : Reachable allowed t)
    (hcreated : ∀ call id draft, allowed call (.createEntity id draft) →
      P (.ofEntity (call.entity id draft)))
    (hreplaced : ∀ (call : Call) title data r, P r → P (call.replace title data r)) :
    ∀ r ∈ t.entities, P r := by
  induction h with
  | empty => exact nofun
  | change call c _ hc ih =>
      refine Change.forall_entities ih ?_ fun _ _ _ title data _ _ _ r => hreplaced call title data r
      rintro id draft rfl
      exact hcreated call id draft hc

/-! ### Ids -/

theorem Change.distinct_apply (c : Change) (h : Distinct t.entities) :
    Distinct (c.apply call t).entities := by
  obtain ⟨keep, hkeep⟩ | ⟨id, draft, -, hfresh, hadd⟩ | ⟨id, patch, e, title, data, -, -, -, hmap⟩ :=
    c.entities_apply call t
  · rw [hkeep]
    exact h.filter _
  · rw [hadd, Distinct, List.pairwise_append]
    refine ⟨h, List.pairwise_singleton _ _, fun r hr s hs => ?_⟩
    rw [List.mem_singleton.mp hs]
    exact hfresh r hr
  · rw [hmap, Distinct, List.pairwise_map]
    refine h.imp fun {r s} hne => ?_
    split <;> split <;> exact hne

/-- Ids are distinct in reachable tables. -/
theorem Reachable.distinct {allowed : Call → Change → Prop} (h : Reachable allowed t) :
    Distinct t.entities := by
  induction h with
  | empty => exact List.Pairwise.nil
  | change call c _ _ ih => exact c.distinct_apply ih

/-! ### Reading rows -/

/-- A row is read if its schema and instants are. -/
theorem BlueprintRow.read_eq_ok {r : BlueprintRow} {b : Blueprint} : r.read = .ok b ↔
    ∃ schema created updated, readDocument r.schema = .ok schema ∧
      readInstant r.created = .ok created ∧ readInstant r.updated = .ok updated ∧
      b = ⟨readText r.tenant, readText r.id, readText r.title, readOptional r.description, schema,
        created, updated⟩ := by
  rw [BlueprintRow.read]
  constructor
  · intro h
    cases hschema : readDocument r.schema with
    | error fault => rw [hschema] at h; cases h
    | ok schema =>
        cases hcreated : readInstant r.created with
        | error fault => rw [hschema, hcreated] at h; cases h
        | ok created =>
            cases hupdated : readInstant r.updated with
            | error fault => rw [hschema, hcreated, hupdated] at h; cases h
            | ok updated =>
                rw [hschema, hcreated, hupdated] at h
                cases h
                exact ⟨schema, created, updated, rfl, rfl, rfl, rfl⟩
  · rintro ⟨schema, created, updated, hschema, hcreated, hupdated, rfl⟩
    rw [hschema, hcreated, hupdated]
    rfl

/-- A row is read if its id, document and instants are. -/
theorem EntityRow.read_eq_ok {r : EntityRow} {e : Entity} : r.read = .ok e ↔
    ∃ id data created updated, readId r.id = .ok id ∧ readDocument r.data = .ok data ∧
      readInstant r.created = .ok created ∧ readInstant r.updated = .ok updated ∧
      e = ⟨id, readText r.tenant, readText r.blueprint, readText r.identifier, readOptional r.title,
        data, created, updated⟩ := by
  rw [EntityRow.read]
  constructor
  · intro h
    cases hid : readId r.id with
    | error fault => rw [hid] at h; cases h
    | ok id =>
        cases hdata : readDocument r.data with
        | error fault => rw [hid, hdata] at h; cases h
        | ok data =>
            cases hcreated : readInstant r.created with
            | error fault => rw [hid, hdata, hcreated] at h; cases h
            | ok created =>
                cases hupdated : readInstant r.updated with
                | error fault => rw [hid, hdata, hcreated, hupdated] at h; cases h
                | ok updated =>
                    rw [hid, hdata, hcreated, hupdated] at h
                    cases h
                    exact ⟨id, data, created, updated, rfl, rfl, rfl, rfl, rfl⟩
  · rintro ⟨id, data, created, updated, hid, hdata, hcreated, hupdated, rfl⟩
    rw [hid, hdata, hcreated, hupdated]
    rfl

/-- What is read of a column that a document was written to. -/
theorem readDocument_source {j : Json} (h : j.Storable) :
    readDocument j.source = .ok j.reread := by
  rw [readDocument, Json.ofSource?_source h]

/-- What is read of a column could be put there again. -/
theorem isDocument_of_readDocument {s : Source} {j : Json} (h : readDocument s = .ok j) :
    Sql.isDocument j.source = true := by
  rw [readDocument] at h
  split at h
  · next hj =>
      cases h
      exact Sql.isDocument_of_depth_le (Json.depth_le_of_ofSource? hj)
  · cases h

theorem readDocument_regular {j : Json} (h : j.Regular) : readDocument j.source =
    if j.depth ≤ Json.depthLimit then .ok j.reread else .error (.query "Invalid JSON in column") := by
  rw [readDocument, Json.ofSource?_regular h]
  by_cases hdepth : j.depth ≤ Json.depthLimit
  · rw [if_pos hdepth, if_pos hdepth]
  · rw [if_neg hdepth, if_neg hdepth]

/-- A document that is too deep is not read, but no other document is read instead. -/
theorem eq_of_readDocument_source {j j' : Json} (h : j.Regular)
    (hread : readDocument j.source = .ok j') : j' = j.reread := by
  rw [readDocument_regular h] at hread
  split at hread
  · cases hread
    rfl
  · cases hread

/-- A row that is readable is read, and its data is the document of the column, read anew. -/
theorem EntityRow.Readable.read {r : EntityRow} (h : r.Readable) :
    ∃ e, r.read = .ok e ∧ ∃ j : Json, j.Storable ∧ r.data = j.source ∧ e.data = j.reread := by
  obtain ⟨⟨id, hid⟩, ⟨j, hj, hdata⟩, ⟨created, hcreated⟩, ⟨updated, hupdated⟩⟩ := h
  have hreadId : readId r.id = .ok (readText id) := by rw [hid, readId]
  have hread : readDocument r.data = .ok j.reread := by rw [hdata, readDocument_source hj]
  exact ⟨_, EntityRow.read_eq_ok.mpr ⟨_, _, _, _, hreadId, hread, hcreated, hupdated, rfl⟩, j, hj,
    hdata, rfl⟩

/-- What is read of a new entity. -/
theorem read_created (id : String) (draft : EntityDraft) (hnow : call.now.Storable)
    (hdata : draft.data.Storable) : (EntityRow.ofEntity (call.entity id draft)).read =
      .ok ⟨readText id, readText call.tenant, readText draft.blueprint, readText draft.identifier,
        readOptional draft.title, draft.data.reread, call.time.toMicros, call.time.toMicros⟩ := by
  have htime := readInstant_stored (storable_time hnow)
  exact EntityRow.read_eq_ok.mpr ⟨_, _, _, _, rfl, readDocument_source hdata, htime, htime, rfl⟩

/-- What is read of a row after its title and data are replaced. -/
theorem read_replace {r : EntityRow} {e : Entity} (h : r.read = .ok e) (hnow : call.now.Storable)
    {data : Json} (hdata : data.Storable) (title : Option String) :
    (call.replace title data r).read =
      .ok { e with title := readOptional title, data := data.reread, updated := call.time.toMicros } := by
  obtain ⟨id, _, created, _, hid, -, hcreated, -, rfl⟩ := EntityRow.read_eq_ok.mp h
  exact EntityRow.read_eq_ok.mpr ⟨_, _, _, _, hid, readDocument_source hdata, hcreated,
    readInstant_stored (storable_time hnow), rfl⟩

/-- What is read of a row that was looked up. -/
theorem readEntity_eq_ok {missing : StoreError} {row : Option EntityRow} {e : Entity} :
    readEntity missing row = .ok e ↔ ∃ r, row = some r ∧ r.read = .ok e := by
  cases row with
  | none => exact iff_of_false nofun fun ⟨_, h, _⟩ => nomatch h
  | some r =>
      simp only [readEntity, Option.some.injEq, exists_eq_left']
      cases r.read with
      | error fault => exact iff_of_false nofun nofun
      | ok e' => simp only [Except.ok.injEq]

theorem getEntity_row {tenant id : String} {e : Entity} :
    getEntity tenant id t = .ok e ↔ ∃ r, t.entity? tenant id = some r ∧ r.read = .ok e :=
  readEntity_eq_ok

theorem getEntity_of_found {tenant id : String} {r : EntityRow} (h : t.entity? tenant id = some r) :
    getEntity tenant id t = r.read.mapError .internal := by
  rw [getEntity, h, readEntity]
  cases r.read <;> rfl

theorem isDocument_getEntity {tenant id : String} {e : Entity}
    (h : getEntity tenant id t = .ok e) : Sql.isDocument e.data.source = true := by
  obtain ⟨r, -, hread⟩ := getEntity_row.mp h
  obtain ⟨_, _, _, _, -, hdata, -, -, rfl⟩ := EntityRow.read_eq_ok.mp hread
  exact isDocument_of_readDocument hdata

theorem storable_getEntity {tenant id : String} {e : Entity}
    (h : getEntity tenant id t = .ok e) (ht : ∀ r ∈ t.entities, r.Readable) : e.data.Storable := by
  obtain ⟨r, hfound, hread⟩ := getEntity_row.mp h
  obtain ⟨e', hread', j, hj, -, hdata⟩ := (ht r (List.mem_of_find?_eq_some hfound)).read
  rw [hread, Except.ok.injEq] at hread'
  rw [hread', hdata]
  exact hj.reread

/-- Data is laid over other data, and read anew. -/
theorem reread_mergeData (base : Json) (patch : Fields) :
    (mergeData base patch).reread = mergeData base.reread (Json.rereadFields patch) := by
  have hobject : ∀ fields : Fields, (Json.object (Fields.merge fields patch)).reread =
      .object (Fields.merge (Json.rereadFields fields) (Json.rereadFields patch)) := fun fields => by
    rw [Json.reread, Json.rereadFields_merge]
  cases base with
  | object fields => exact hobject fields
  | null | bool _ | number _ | string _ | array _ => exact hobject []

/-- The data after a patch: the patch is laid over the data, and the schema accepts the result. -/
theorem patchedData_eq_ok {tenant : String} {e : Entity} {patch : Option Json} {data : Json} :
    patchedData tenant e patch t = .ok data ↔ (patch = none ∧ data = e.data) ∨
      ∃ fields schema, patch = some (.object fields) ∧ data = mergeData e.data fields ∧
        requireSchema tenant e.blueprint t = .ok schema ∧
        requireValid .lenient schema data = .ok () := by
  constructor
  · intro h
    unfold patchedData at h
    split at h
    · cases h
      exact .inl ⟨rfl, rfl⟩
    · next fields =>
        dsimp only at h
        split at h
        · cases h
        · next schema hschema =>
            cases hvalid : requireValid .lenient schema (mergeData e.data fields) with
            | error f =>
                rw [hvalid] at h
                cases h
            | ok u =>
                rw [hvalid] at h
                cases h
                exact .inr ⟨fields, schema, rfl, rfl, hschema, hvalid⟩
    · cases h
  · rintro (⟨rfl, rfl⟩ | ⟨fields, schema, rfl, rfl, hschema, hvalid⟩)
    · rfl
    · rw [patchedData, hschema]
      dsimp only
      rw [hvalid]
      rfl

theorem requireSchema_eq_ok {tenant id : String} {schema : Json} :
    requireSchema tenant id t = .ok schema ↔
      ∃ b, t.blueprint? tenant id = some b ∧ readDocument b.schema = .ok schema := by
  rw [requireSchema, schemaOf?]
  cases t.blueprint? tenant id with
  | none => exact iff_of_false nofun fun ⟨_, h, _⟩ => nomatch h
  | some b =>
      simp only [Option.some.injEq, exists_eq_left']
      cases readDocument b.schema with
      | error fault => exact iff_of_false nofun nofun
      | ok schema' => simp only [Except.map, Except.ok.injEq]

/-- A draft is accepted if its blueprint is there and accepts its data, and its identifier is free. -/
theorem checkDraft_iff {tenant : String} {draft : EntityDraft} :
    checkDraft tenant draft t = .ok () ↔ ∃ schema,
      requireSchema tenant draft.blueprint t = .ok schema ∧
      Text.allBlank draft.identifier = false ∧ draft.data.isObject = true ∧
      requireValid .full schema draft.data = .ok () ∧
      t.entityNamed? tenant draft.blueprint draft.identifier = none := by
  rw [checkDraft]
  cases requireSchema tenant draft.blueprint t with
  | error fault => exact iff_of_false nofun nofun
  | ok schema =>
      dsimp only
      constructor
      · intro h
        split at h
        · cases h
        · next hidentifier =>
            split at h
            · cases h
            · next hobject =>
                cases hvalid : requireValid .full schema draft.data with
                | error fault =>
                    rw [hvalid] at h
                    cases h
                | ok u =>
                    rw [hvalid] at h
                    dsimp only at h
                    split at h
                    · cases h
                    · next hfree =>
                        exact ⟨schema, rfl, Bool.not_eq_true _ ▸ hidentifier,
                          by simpa using hobject, hvalid, by simpa using hfree⟩
      · rintro ⟨schema', hschema, hidentifier, hobject, hvalid, hfree⟩
        cases hschema
        simp only [hidentifier, hobject, hvalid, hfree, Bool.false_eq_true, Bool.not_true,
          Option.isSome_none, if_false]

theorem storable_patchedData {tenant : String} {e : Entity} {patch : Option Json} {data : Json}
    (h : patchedData tenant e patch t = .ok data) (he : e.data.Storable)
    (hpatch : ∀ j ∈ patch, j.Storable) : data.Storable := by
  obtain ⟨-, rfl⟩ | ⟨fields, schema, rfl, rfl, -, -⟩ := patchedData_eq_ok.mp h
  · exact he
  · exact storable_mergeData he (hpatch _ rfl)

theorem isDocument_patchedData {tenant id : String} {e : Entity} {patch : Option Json} {data : Json}
    (h : patchedData tenant e patch t = .ok data) (hget : getEntity tenant id t = .ok e)
    (hpatch : ∀ j ∈ patch, Sql.isDocument j.source = true) : Sql.isDocument data.source = true := by
  obtain ⟨-, rfl⟩ | ⟨fields, schema, rfl, rfl, -, -⟩ := patchedData_eq_ok.mp h
  · exact isDocument_getEntity hget
  · exact isDocument_mergeData (isDocument_getEntity hget) (hpatch _ rfl)

theorem Change.readable_apply {c : Change} (hc : c.Storable call)
    (h : ∀ r ∈ t.entities, r.Readable) : ∀ r ∈ (c.apply call t).entities, r.Readable := by
  refine Change.forall_entities h ?_ ?_
  · rintro id draft rfl
    exact readable_created id draft hc.1 hc.2
  · rintro id patch e title data rfl hget hdata r hr
    exact hr.replace title hc.1 (storable_patchedData hdata (storable_getEntity hget h) hc.2)

/-- Where callers give what can be stored, all entities can be read. -/
theorem Reachable.readable (h : Reachable (fun call c => c.Storable call) t) :
    ∀ r ∈ t.entities, r.Readable := by
  induction h with
  | empty => exact fun r hr => absurd hr List.not_mem_nil
  | change call c _ hc ih => exact Change.readable_apply hc ih

theorem Reachable.exists_read (h : Reachable (fun call c => c.Storable call) t) {r : EntityRow}
    (hr : r ∈ t.entities) : ∃ e, r.read = .ok e := by
  obtain ⟨e, he, -⟩ := (h.readable r hr).read
  exact ⟨e, he⟩

end EntityStore.Store
