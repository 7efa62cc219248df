import EntityStore.Proofs.Store.Isolation
import EntityStore.Proofs.Store.Outcome

/-! # What a write leaves as it is

A write is about the rows of one key: the row of a tenant and an id, or the entities of a blueprint.
`Replaces` says which rows these were, which they are afterwards, and that all other rows are what
they were, in every column and in the same order.  Each kind of write is an instance
(`writes_framed`).

Deleting a blueprint takes its entities along and leaves nothing behind that could come back: a new
blueprint of the same id has no entities, and the ids and identifiers of the old ones are free
(`Vacant`). -/

namespace EntityStore.Store

/-! ### Rows of one key -/

/-- The rows with `p` were `old` and are `new`; the others are the same. -/
structure Replaces {ρ : Type} (p : ρ → Bool) (old new rows rows' : List ρ) : Prop where
  before : rows.filter p = old
  after : rows'.filter p = new
  elsewhere : rows'.filter (fun r => !p r) = rows.filter fun r => !p r

section rows
variable {ρ κ : Type} {p : ρ → Bool} {rows : List ρ}

theorem Replaces.trans {old new newer rows' rows'' : List ρ} (h : Replaces p old new rows rows')
    (h' : Replaces p new newer rows' rows'') : Replaces p old newer rows rows'' :=
  ⟨h.before, h'.after, h'.elsewhere.trans h.elsewhere⟩

/-- What is found afterwards. -/
theorem Replaces.find? {old new rows' : List ρ} (h : Replaces p old new rows rows') :
    rows'.find? p = new.head? := by
  rw [← h.after, List.head?_filter]

/-- The rows are deleted. -/
theorem replaces_filter (rows : List ρ) :
    Replaces p (rows.filter p) [] rows (rows.filter fun r => !p r) where
  before := rfl
  after := by
    rw [List.filter_filter, List.filter_eq_nil_iff]
    intro r _
    rw [Bool.and_not_self]
    exact Bool.false_ne_true
  elsewhere := by rw [List.filter_filter, funext fun r => Bool.and_self _]

/-- The rows are changed, each in its place. -/
theorem replaces_map {f : ρ → ρ} (rows : List ρ) (hf : ∀ r, p (f r) = p r) :
    Replaces p (rows.filter p) ((rows.filter p).map f) rows
      (rows.map fun r => if p r then f r else r) where
  before := rfl
  after := by
    rw [filter_map_comm rows fun r => ?_]
    · exact List.map_congr_left fun r hr => if_pos (List.mem_filter.mp hr).2
    · split
      · exact hf r
      · rfl
  elsewhere := by
    refine filter_map_of_eq rows (fun r => ?_) fun r hr => if_neg ?_
    · split
      · rw [hf r]
      · rfl
    · rwa [Bool.not_eq_true', ← Bool.not_eq_true] at hr

/-- A row is added. -/
theorem replaces_append {r : ρ} (hr : p r = true) (hnew : ∀ s ∈ rows, p s = false) :
    Replaces p [] [r] rows (rows ++ [r]) := by
  have hnone : rows.filter p = [] :=
    List.filter_eq_nil_iff.mpr fun s hs => Bool.eq_false_iff.mp (hnew s hs)
  refine ⟨hnone, ?_, ?_⟩
  · rw [List.filter_append, hnone, List.filter_cons_of_pos hr]
    rfl
  · rw [List.filter_append, List.filter_cons_of_neg (by rw [hr]; exact Bool.false_ne_true),
      List.filter_nil, List.append_nil]

/-- The row that is found is the only one, if all that could be found have one key. -/
theorem filter_eq_singleton {key : ρ → κ} (h : Unique key rows)
    (hp : ∀ r s, p r = true → p s = true → key r = key s) {r : ρ} (hfind : rows.find? p = some r) :
    rows.filter p = [r] := by
  have hhead : (rows.filter p).head? = some r := by rw [List.head?_filter, hfind]
  obtain ⟨rest, hrows⟩ : ∃ rest, rows.filter p = r :: rest := by
    cases hrows : rows.filter p with
    | nil => rw [hrows] at hhead; cases hhead
    | cons s rest =>
        rw [hrows] at hhead
        cases hhead
        exact ⟨rest, rfl⟩
  have hunique : Unique key (r :: rest) := hrows ▸ h.filter _
  have hmet : ∀ s ∈ r :: rest, p s = true := fun s hs => (List.mem_filter.mp (hrows ▸ hs)).2
  rw [hrows, List.cons_eq_cons, List.eq_nil_iff_forall_not_mem]
  refine ⟨rfl, fun s hs => (List.pairwise_cons.mp hunique).1 s hs ?_⟩
  exact hp r s (hmet r List.mem_cons_self) (hmet s (List.mem_cons_of_mem r hs))

end rows

variable {call : Call} {t : Tables} {tenant blueprint id : String}

/-! ### Writes -/

theorem filter_isAt_blueprints (ht : Unique BlueprintRow.key t.blueprints) {r : BlueprintRow}
    (h : t.blueprint? tenant id = some r) : t.blueprints.filter (·.isAt tenant id) = [r] :=
  filter_eq_singleton ht (fun _ _ hr hs =>
    (BlueprintRow.isAt_iff.mp hr).trans (BlueprintRow.isAt_iff.mp hs).symm) h

theorem filter_isAt_entities (ht : Unique EntityRow.id t.entities) {r : EntityRow}
    (h : t.entity? tenant id = some r) : t.entities.filter (·.isAt tenant id) = [r] :=
  filter_eq_singleton ht (fun _ _ hr hs =>
    (EntityRow.isAt_iff.mp hr).2.trans (EntityRow.isAt_iff.mp hs).2.symm) h

theorem deleteBlueprint_eq_ok {t' : Tables} (h : deleteBlueprint call blueprint t = (.ok (), t')) :
    ∃ r, t.blueprint? call.tenant blueprint = some r ∧
      t' = t.deleteBlueprint call.tenant blueprint := by
  rw [deleteBlueprint] at h
  cases hfound : t.blueprint? call.tenant blueprint with
  | none =>
      rw [hfound] at h
      cases h
  | some r =>
      rw [hfound] at h
      cases h
      exact ⟨r, rfl, rfl⟩

theorem deleteEntity_eq_ok {t' : Tables} (h : deleteEntity call id t = (.ok (), t')) :
    ∃ r, t.entity? call.tenant id = some r ∧ t' = t.deleteEntity call.tenant id := by
  rw [deleteEntity] at h
  cases hfound : t.entity? call.tenant id with
  | none =>
      rw [hfound] at h
      cases h
  | some r =>
      rw [hfound] at h
      cases h
      exact ⟨r, rfl, rfl⟩

/-- A blueprint is deleted with its entities. -/
theorem replaces_deleteBlueprint (ht : Unique BlueprintRow.key t.blueprints) {r : BlueprintRow}
    (h : t.blueprint? tenant blueprint = some r) :
    Replaces (BlueprintRow.isAt tenant blueprint) [r] [] t.blueprints
      (t.deleteBlueprint tenant blueprint).blueprints ∧
    Replaces (EntityRow.isOf tenant blueprint) (t.entitiesOf tenant blueprint) [] t.entities
      (t.deleteBlueprint tenant blueprint).entities := by
  refine ⟨?_, replaces_filter _⟩
  rw [← filter_isAt_blueprints ht h]
  exact replaces_filter _

/-- An entity is deleted. -/
theorem replaces_deleteEntity (ht : Unique EntityRow.id t.entities) {t' : Tables}
    (h : deleteEntity call id t = (.ok (), t')) :
    t'.blueprints = t.blueprints ∧
    ∃ r, Replaces (EntityRow.isAt call.tenant id) [r] [] t.entities t'.entities := by
  obtain ⟨r, hfound, rfl⟩ := deleteEntity_eq_ok h
  refine ⟨rfl, r, ?_⟩
  rw [← filter_isAt_entities ht hfound]
  exact replaces_filter _

theorem entityNamed?_of_no_entities (hnone : t.entitiesOf tenant blueprint = [])
    (identifier : String) : t.entityNamed? tenant blueprint identifier = none := by
  refine List.find?_eq_none.mpr fun r hr hnamed => ?_
  exact List.filter_eq_nil_iff.mp hnone r hr (Bool.and_eq_true_iff.mp hnamed).1

theorem blueprint?_deleteBlueprint :
    (t.deleteBlueprint tenant blueprint).blueprint? tenant blueprint = none := by
  refine List.find?_eq_none.mpr fun r hr hat => ?_
  have hother := (List.mem_filter.mp hr).2
  rw [hat] at hother
  cases hother

section reader
variable [FloatReader]

theorem Reachable.keys {allowed : Call → Change → Prop} (ht : Reachable allowed t) :
    Unique BlueprintRow.key t.blueprints := ht.consistent_any.keys

/-- An entity is created under its id. -/
theorem replaces_createEntity {draft : EntityDraft} {e : Entity} {t' : Tables}
    (h : createEntity call id draft t = (.ok e, t')) :
    t'.blueprints = t.blueprints ∧ e = call.entity id draft ∧
    Replaces (EntityRow.isAt call.tenant id) [] [.ofEntity e] t.entities t'.entities := by
  obtain ⟨fault, hrefused⟩ | ⟨-, -, hfresh, hcreated⟩ := createEntity_cases call t id draft
  · rw [hrefused] at h
    cases h
  · rw [hcreated] at h
    cases h
    refine ⟨rfl, rfl, replaces_append (EntityRow.isAt_iff.mpr ⟨rfl, rfl⟩) fun s hs => ?_⟩
    exact Bool.eq_false_iff.mpr fun hat => hfresh s hs (EntityRow.isAt_iff.mp hat).2

/-- The title, the data and the time of an entity are replaced. -/
theorem replaces_updateEntity (ht : Unique EntityRow.id t.entities) {patch : EntityPatch}
    {e : Entity} {t' : Tables} (h : updateEntity call id patch t = (.ok e, t')) :
    t'.blueprints = t.blueprints ∧ ∃ r, Replaces (EntityRow.isAt call.tenant id) [r]
      [{ r with title := e.title, data := e.data.source, updated := e.updated.stored }]
      t.entities t'.entities := by
  obtain ⟨fault, hrefused⟩ | ⟨before, data, hget, -, -, hupdated⟩ := updateEntity_cases call t id patch
  · rw [hrefused] at h
    cases h
  · rw [hupdated] at h
    cases h
    obtain ⟨r, hr, -⟩ := getEntity_row.mp hget
    have hrows := filter_isAt_entities ht hr
    have hmap := replaces_map (p := (EntityRow.isAt call.tenant id ·))
      (f := call.replace (patch.title.or before.title) data) t.entities fun _ => rfl
    rw [hrows] at hmap
    exact ⟨rfl, r, hmap⟩

/-! ### A blueprint that is deleted and created again -/

/-- Nothing is left of the entities `rows` that a blueprint had: a search of it finds nothing, their
ids and identifiers are not found, and new entities can have them, whose data is held to the schema as
it is read. -/
structure Vacant (t : Tables) (tenant blueprint : String) (schema : Json) (rows : List EntityRow) :
    Prop where
  search : ∀ limits request plan, request.blueprint = blueprint →
    Query.Search.compile limits request = .ok plan →
    Taken plan →
    Store.search limits tenant request t = .ok ⟨[], 0, plan.page.limit, plan.page.offset⟩
  total : ∀ limits request page, request.blueprint = blueprint →
    Store.search limits tenant request t = .ok page → page.total = 0 ∧ page.items = []
  id : ∀ r ∈ rows, ∀ id, r.id = some id →
    ∀ tenant', getEntity tenant' id t = .error (.entityNotFound id)
  identifier : ∀ r ∈ rows, getEntityNamed tenant blueprint r.identifier t =
    .error (.entityNotFound (blueprint ++ "/" ++ r.identifier))
  unused : ∀ r ∈ rows, ∀ id, r.id = some id → ∀ s ∈ t.entities, s.id ≠ some id
  named : ∀ r ∈ rows, Text.allBlank r.identifier = false
  free : schema.Storable → ∀ (call : Call) (id : String) (draft : EntityDraft),
    call.tenant = tenant → draft.blueprint = blueprint → (∀ s ∈ t.entities, s.id ≠ some id) →
    Text.allBlank draft.identifier = false → draft.data.isObject = true →
    draft.data.depth ≤ Sql.storageLimit → requireValid .full schema.reread draft.data = .ok () →
    (createEntity call id draft t).1 = .ok (call.entity id draft)

section recreated
variable {given : Json → Prop} {limits : Query.Limits} {request : Query.Search} {plan : Query.Plan}

/-- A search of a blueprint without entities finds none. -/
theorem search_of_no_entities (hnone : t.entitiesOf tenant request.blueprint = [])
    (hplan : request.compile limits = .ok plan) (htaken : Taken plan) :
    search limits tenant request t = .ok ⟨[], 0, plan.page.limit, plan.page.offset⟩ := by
  rw [search_eq_found hplan, found_of_taken htaken, hnone, matching, answerFound,
    List.mergeSort_nil, List.drop_nil, List.take_nil]
  rfl

theorem page_of_no_entities (hnone : t.entitiesOf tenant request.blueprint = [])
    {page : EntityPage} (hpage : search limits tenant request t = .ok page) :
    page.total = 0 ∧ page.items = [] := by
  cases hplan : Query.Search.compile limits request with
  | error e =>
      rw [Store.search, hplan] at hpage
      cases hpage
  | ok plan =>
      rw [search_eq_found hplan] at hpage
      obtain ⟨rows, es, hfound, hes, rfl⟩ := answerFound_eq_ok.mp hpage
      obtain rfl : rows = [] := List.sublist_nil.mp (hnone ▸ found_sublist hfound)
      rw [List.mergeSort_nil, List.drop_nil, List.take_nil] at hes
      cases hes
      exact ⟨rfl, rfl⟩

/-- A blueprint that has no entities, and a schema that can be read. -/
theorem vacant_of_no_entities {schema : Json} {rows : List EntityRow}
    (hnone : t.entitiesOf tenant blueprint = [])
    (hschema : schema.Storable → requireSchema tenant blueprint t = .ok schema.reread)
    (hunused : ∀ r ∈ rows, ∀ id, r.id = some id → ∀ s ∈ t.entities, s.id ≠ some id)
    (hnamed : ∀ r ∈ rows, Text.allBlank r.identifier = false) :
    Vacant t tenant blueprint schema rows where
  search := by
    rintro limits request plan rfl hplan htaken
    exact search_of_no_entities hnone hplan htaken
  total := by
    rintro limits request page rfl hpage
    exact page_of_no_entities hnone hpage
  id r hr id hid tenant' := by
    have hentity : t.entity? tenant' id = none :=
      List.find?_eq_none.mpr fun s hs hat => hunused r hr id hid s hs (EntityRow.isAt_iff.mp hat).2
    rw [getEntity, hentity, readEntity]
  identifier r hr := by
    rw [getEntityNamed, entityNamed?_of_no_entities hnone, readEntity]
  unused := hunused
  named := hnamed
  free := by
    rintro hstorable call id draft rfl rfl hfresh hidentifier hobject hdepth hvalid
    have hcheck : checkDraft call.tenant draft t = .ok () := checkDraft_iff.mpr ⟨_,
      hschema hstorable, hidentifier, hobject, hvalid, entityNamed?_of_no_entities hnone _⟩
    rw [createEntity_of_checkDraft_ok hcheck hfresh, if_pos (Sql.isDocument_source.mpr hdepth)]

/-- A blueprint that was deleted and is created again is vacant. -/
theorem vacant_recreated (ht : Consistent given t) {draft : BlueprintDraft} {b : Blueprint}
    {t' : Tables} (h : createBlueprint call draft (t.deleteBlueprint call.tenant draft.id) =
      (.ok b, t')) : b = call.blueprint draft ∧
        Vacant t' call.tenant draft.id draft.schema (t.entitiesOf call.tenant draft.id) := by
  obtain ⟨rfl, -, -, hfree, rfl⟩ := createBlueprint_eq_ok h
  refine ⟨rfl, vacant_of_no_entities ?_ ?_ ?_ ?_⟩
  · exact (replaces_filter t.entities).after
  · exact fun hstorable => requireSchema_eq_ok.mpr
      ⟨_, blueprint?_created _ hfree, readDocument_source hstorable⟩
  · intro r hr id hid s hs hsid
    obtain ⟨hr, hof⟩ := List.mem_filter.mp hr
    obtain ⟨hs, hother⟩ := List.mem_filter.mp hs
    rw [← ht.ids.eq_of_key hr hs (hid.trans hsid.symm), hof] at hother
    cases hother
  · exact fun r hr => ht.identifiers r (List.mem_filter.mp hr).1

end recreated

/-- A write leaves everything as it is but the rows that it is about.  In all tables that can be
reached, deleting a blueprint removes its row and its entities; creating, updating and deleting an
entity is about the one row of its tenant and id.  All other rows of all tenants are the same in every
column.  A blueprint that was deleted and is created again finds nothing of what it had, whatever its
schema is; where the schema can be read, new entities can take all ids and identifiers of the old ones,
if the schema that is read accepts their data.  It is created again with any schema that can be used and
that its column takes. -/
theorem writes_framed {allowed : Call → Change → Prop} (ht : Reachable allowed t) (call : Call) :
    (∀ b t', deleteBlueprint call b t = (.ok (), t') →
      (∃ r, Replaces (BlueprintRow.isAt call.tenant b) [r] [] t.blueprints t'.blueprints) ∧
      Replaces (EntityRow.isOf call.tenant b) (t.entitiesOf call.tenant b) [] t.entities
        t'.entities ∧
      ∀ (later : Call) (draft : BlueprintDraft), later.tenant = call.tenant → draft.id = b →
        (∀ b' t'', createBlueprint later draft t' = (.ok b', t'') → b' = later.blueprint draft ∧
          Vacant t'' call.tenant b draft.schema (t.entitiesOf call.tenant b)) ∧
        (Schema.checkSchema draft.schema = .ok () → draft.schema.depth ≤ Sql.storageLimit →
          ∃ b' t'', createBlueprint later draft t' = (.ok b', t''))) ∧
    (∀ id t', deleteEntity call id t = (.ok (), t') →
      t'.blueprints = t.blueprints ∧
      ∃ r, Replaces (EntityRow.isAt call.tenant id) [r] [] t.entities t'.entities) ∧
    (∀ id draft e t', createEntity call id draft t = (.ok e, t') →
      t'.blueprints = t.blueprints ∧ e = call.entity id draft ∧
      Replaces (EntityRow.isAt call.tenant id) [] [.ofEntity e] t.entities t'.entities) ∧
    ∀ id patch e t', updateEntity call id patch t = (.ok e, t') →
      t'.blueprints = t.blueprints ∧ ∃ r, Replaces (EntityRow.isAt call.tenant id) [r]
        [{ r with title := e.title, data := e.data.source, updated := e.updated.stored }]
        t.entities t'.entities := by
  have hconsistent := ht.consistent_any
  refine ⟨fun b t' h => ?_, fun id t' h => replaces_deleteEntity hconsistent.ids h,
    fun id draft e t' h => replaces_createEntity h,
    fun id patch e t' h => replaces_updateEntity hconsistent.ids h⟩
  obtain ⟨r, hfound, rfl⟩ := deleteBlueprint_eq_ok h
  obtain ⟨hr, hkey⟩ := (blueprint?_eq_some hconsistent.keys).mp hfound
  obtain ⟨hrow, hentities⟩ := replaces_deleteBlueprint hconsistent.keys hfound
  refine ⟨⟨r, hrow⟩, hentities, fun later draft htenant hdraft => ?_⟩
  have hid : Text.allBlank draft.id = false := by
    rw [hdraft, ← (Prod.mk.inj hkey).2]
    exact hconsistent.blueprintIds r hr
  rw [← htenant, ← hdraft]
  exact ⟨fun b' t'' => vacant_recreated hconsistent, fun hschema hdepth => ⟨_, _,
    createBlueprint_of_free hid hschema (Sql.isDocument_source.mpr hdepth) blueprint?_deleteBlueprint⟩⟩

end reader

/-- Two tenants with a blueprint of the same id and an entity each. -/
def twinRun : List Step := ["acme", "umbrella"].flatMap fun tenant => [
  ⟨⟨tenant, ⟨0, 0⟩⟩, .change (.createBlueprint ⟨"service", "Service", none, .object []⟩)⟩,
  ⟨⟨tenant, ⟨1, 0⟩⟩, .change (.createEntity ("ent-" ++ tenant)
    ⟨"service", "api", none, .object [("owner", .null)]⟩)⟩]

/-- One of the tenants writes, in each of the four ways, and creates its blueprint again. -/
theorem writes_framed_twin :
    let t := after .empty twinRun
    let call : Call := ⟨"acme", ⟨2, 0⟩⟩
    (∃ t' t'' r, deleteBlueprint call "service" t = (.ok (), t') ∧
      Replaces (BlueprintRow.isAt "acme" "service") [r] [] t.blueprints t'.blueprints ∧
      createBlueprint call ⟨"service", "Service", none, .object []⟩ t' =
        (.ok (call.blueprint ⟨"service", "Service", none, .object []⟩), t'') ∧
      (t.entitiesOf "acme" "service").length = 1 ∧
      Vacant t'' "acme" "service" (.object []) (t.entitiesOf "acme" "service")) ∧
    (∃ t' r, deleteEntity call "ent-acme" t = (.ok (), t') ∧
      Replaces (EntityRow.isAt "acme" "ent-acme") [r] [] t.entities t'.entities) ∧
    (∃ e t', createEntity call "ent-new" ⟨"service", "web", none, .object []⟩ t = (.ok e, t') ∧
      Replaces (EntityRow.isAt "acme" "ent-new") [] [.ofEntity e] t.entities t'.entities) ∧
    ∃ e t' r r', updateEntity call "ent-acme" ⟨some "API", none⟩ t = (.ok e, t') ∧
      Replaces (EntityRow.isAt "acme" "ent-acme") [r] [r'] t.entities t'.entities := by
  intro t call
  have ht : Reachable (fun _ _ => True) t := Reachable.empty.after fun _ _ _ _ => trivial
  obtain ⟨hdeleteBlueprint, hdelete, hcreate, hupdate⟩ := writes_framed ht call
  refine ⟨?_, ?_, ?_, ?_⟩
  · obtain ⟨_, t', hdeleted⟩ := exists_answer (deleteBlueprint call "service" t) (by decide +kernel)
    obtain ⟨⟨r, hrow⟩, -, hagain⟩ := hdeleteBlueprint _ _ hdeleted
    obtain ⟨hvacant, hfree⟩ := hagain call ⟨"service", "Service", none, .object []⟩ rfl rfl
    obtain ⟨b, t'', hcreated⟩ := hfree (by decide +kernel) (by decide)
    obtain ⟨rfl, hvacant⟩ := hvacant b t'' hcreated
    exact ⟨t', t'', r, hdeleted, hrow, hcreated, by decide +kernel, hvacant⟩
  · obtain ⟨_, t', hdeleted⟩ := exists_answer (deleteEntity call "ent-acme" t) (by decide +kernel)
    obtain ⟨-, r, hrow⟩ := hdelete _ _ hdeleted
    exact ⟨t', r, hdeleted, hrow⟩
  · obtain ⟨e, t', hcreated⟩ := exists_answer
      (createEntity call "ent-new" ⟨"service", "web", none, .object []⟩ t) (by decide +kernel)
    exact ⟨e, t', hcreated, (hcreate _ _ _ _ hcreated).2.2⟩
  · obtain ⟨e, t', hupdated⟩ := exists_answer
      (updateEntity call "ent-acme" ⟨some "API", none⟩ t) (by decide +kernel)
    obtain ⟨-, r, hrow⟩ := hupdate _ _ _ _ hupdated
    exact ⟨e, t', r, _, hupdated, hrow⟩

end EntityStore.Store
