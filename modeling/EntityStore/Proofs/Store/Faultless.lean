import EntityStore.Proofs.Schema.Quiet
import EntityStore.Proofs.Store.Blueprints
import EntityStore.Proofs.Store.Listing
import EntityStore.Proofs.Store.Resubmission

/-! # The store is never at fault

Where callers stay inside the limits of what can be stored and searched, every failure in a run of the
service is a caller's (`faultless_run`).  All that is stored can be read (`Usable`), and the schemas can
be used in both modes if they are read as they were given (`UsableSchemas`).  The run keeps this, and in
tables that have it each operation fails for reasons of its request only (`Client`).

A schema that is not read as it was given may be one that cannot be used.  Then the store is at fault
when it holds the data of an entity to it (`Change.HoldsTo`), and at no other time. -/

namespace EntityStore.Store

open Schema (Mode checkSchema validate RefersToDefinitions)

variable {call : Call} {t : Tables} {tenant id : String}

/-! ### Limits -/

/-- What is given to a change can be stored, and its schema refers to definitions only. -/
structure Change.Bounded (call : Call) (c : Change) : Prop where
  data : c.Storable call
  schema : c.SchemaStorable call
  references : ∀ schema ∈ c.schema?, RefersToDefinitions schema

/-- The step is inside the limits of what can be stored and searched. -/
def Step.Bounded (s : Step) : Prop :=
  match s.operation with
  | .change c => c.Bounded s.call
  | .search limits request => ∀ plan, request.compile limits = .ok plan → Fits plan
  | _ => True

theorem Step.Bounded.allowed {s : Step} (h : s.Bounded) :
    s.Allowed fun call c => c.Bounded call := by
  intro c hc
  rw [Step.Bounded, hc] at h
  exact h

/-- The schema that is given reads back. -/
def Change.SchemaReadsBack [FloatReader] (c : Change) : Prop := ∀ schema ∈ c.schema?, schema.ReadsBack

/-! ### Failures of clients -/

/-- Every failure is the caller's. -/
def Client {α : Type} (x : Except StoreError α) : Prop :=
  ∀ fault, x = .error fault → fault.isClientError = true

theorem client_ok {α : Type} (a : α) : Client (.ok a) := nofun

theorem client_error {α : Type} {fault : StoreError} (h : fault.isClientError = true) :
    Client (.error fault : Except StoreError α) := by
  rintro _ ⟨⟩
  exact h

theorem Client.map {α β : Type} {x : Except StoreError α} (h : Client x) (f : α → β) :
    Client (x.map f) := by
  cases x with
  | error fault => exact client_error (h fault rfl)
  | ok a => exact client_ok _

/-- A document is refused by an accepted schema for what is wrong in the document. -/
theorem client_requireValid {mode : Mode} {schema : Json}
    (h : checkSchema (mode.schema schema) = .ok ()) (data : Json) :
    Client (requireValid mode schema data) := by
  rw [requireValid, Schema.validate_eq_of_checkSchema h, Schema.verdict]
  cases ((Schema.violationsOf (mode.schema schema) data).map (Schema.Violation.fieldError data)) with
  | nil => exact client_ok _
  | cons error errors => exact client_error rfl

/-! ### Insertions -/

/-- The text of a value that can be stored is a document. -/
theorem neededDocument_source (column : String) {j : Json} (h : j.Storable) :
    neededDocument column (String.ofList j.source.text) = .ok j.source := by
  rw [neededDocument, show String.ofList j.source.text = j.print from rfl, Sql.readDocument?_print,
    if_pos h.isDocument]

/-- A blueprint with a document is not inserted only if its key is taken. -/
theorem keyTaken_of_insertBlueprint {r : BlueprintRow} {c : Constraint}
    (hdocument : Sql.isDocument r.schema = true) (h : t.insertBlueprint r = .error c) :
    ∃ key, c = .keyTaken key := by
  rw [Tables.insertBlueprint, hdocument, Bool.not_true, if_neg Bool.false_ne_true] at h
  split at h
  · cases h
    exact ⟨_, rfl⟩
  · cases h

/-- An entity with a document, whose blueprint is there, is not inserted only if a key is taken. -/
theorem keyTaken_of_insertEntity {r : EntityRow} {c : Constraint}
    (hdocument : Sql.isDocument r.data = true)
    (hblueprint : (t.blueprint? r.tenant r.blueprint).isSome = true)
    (h : t.insertEntity r = .error c) : ∃ key, c = .keyTaken key := by
  rw [Tables.insertEntity, hdocument, Bool.not_true, if_neg Bool.false_ne_true] at h
  split at h
  · cases h
    exact ⟨_, rfl⟩
  · split at h
    · cases h
      exact ⟨_, rfl⟩
    · split at h
      · next hnone =>
          rw [Option.isNone_iff_eq_none.mp hnone] at hblueprint
          cases hblueprint
      · cases h

/-- A taken key is answered as a blueprint that exists. -/
theorem createBlueprint_of_insert_error {draft : BlueprintDraft} {c : Constraint}
    (hid : Text.allBlank draft.id = false) (hschema : checkSchema draft.schema = .ok ())
    (hdocument : Sql.isDocument draft.schema.source = true)
    (h : t.insertBlueprint (.ofBlueprint (call.blueprint draft)) = .error c) :
    (createBlueprint call draft t).1 = .error (.blueprintExists draft.id) := by
  obtain ⟨key, rfl⟩ := keyTaken_of_insertBlueprint hdocument h
  rw [Call.blueprint] at h
  rw [createBlueprint, hid, if_neg (by decide), hschema]
  dsimp only
  rw [h]
  rfl

theorem client_createBlueprint {draft : BlueprintDraft}
    (hdocument : Sql.isDocument draft.schema.source = true) :
    Client (createBlueprint call draft t).1 := by
  cases hid : Text.allBlank draft.id with
  | true =>
      rw [createBlueprint, hid, if_pos rfl]
      exact client_error rfl
  | false =>
      cases hschema : checkSchema draft.schema with
      | error fault =>
          rw [createBlueprint, hid, if_neg (by decide), hschema]
          exact client_error rfl
      | ok u =>
          rw [createBlueprint_of_checked hid hschema, if_pos hdocument]
          split
          · exact client_error rfl
          · exact client_ok _

section reader
variable [FloatReader]

/-! ### Tables that can be used -/

/-- All rows hold documents and can be read. -/
structure Usable (t : Tables) : Prop where
  blueprints : ∀ r ∈ t.blueprints,
    neededDocument "schema" (String.ofList r.schema.text) = .ok r.schema ∧ ∃ b, r.read = .ok b
  entities : ∀ r ∈ t.entities,
    neededDocument "data" (String.ofList r.data.text) = .ok r.data ∧ ∃ e, r.read = .ok e

/-- The schemas that are read are accepted in both modes. -/
def UsableSchemas (t : Tables) : Prop :=
  ∀ r ∈ t.blueprints, ∀ b, r.read = .ok b → ∀ mode : Mode, checkSchema (mode.schema b.schema) = .ok ()

/-- After every run inside the limits the tables can be used. -/
theorem Reachable.usable (ht : Reachable (fun call c => c.Bounded call) t) : Usable t where
  blueprints r hr := by
    have hreadable := (ht.mono fun _ _ hc => hc.schema).readableBlueprints r hr
    obtain ⟨schema, hstorable, hsource⟩ := hreadable.schema
    exact ⟨by rw [hsource, neededDocument_source _ hstorable], hreadable.read⟩
  entities r hr := by
    have hreadable := (ht.mono fun _ _ hc => hc.data).readable r hr
    obtain ⟨data, hdata, hsource⟩ := hreadable.data
    obtain ⟨e, he, -⟩ := hreadable.read
    exact ⟨by rw [hsource, neededDocument_source _ hdata], e, he⟩

/-- Schemas that are read as they were given can be used. -/
theorem Reachable.usableSchemas
    (ht : Reachable (fun call c => c.Bounded call ∧ c.SchemaReadsBack) t) : UsableSchemas t := by
  intro r hr b hb mode
  have hconsistent : Consistent
      (fun j => (j.Storable ∧ RefersToDefinitions j) ∧ j.ReadsBack) t :=
    (ht.mono fun _ _ hc schema hschema =>
      ⟨⟨hc.1.schema.2 schema hschema, hc.1.references schema hschema⟩, hc.2 schema hschema⟩).consistent
  obtain ⟨schema, ⟨⟨hstorable, hreferences⟩, hback⟩, hchecked, hsource⟩ := hconsistent.schemas r hr
  have hschema : b.schema = schema := by
    obtain ⟨_, _, _, hread, -, -, rfl⟩ := BlueprintRow.read_eq_ok.mp hb
    rw [hsource, readDocument_source hstorable, hback.eq] at hread
    exact (Except.ok.inj hread).symm
  rw [hschema]
  cases mode with
  | full => exact hchecked
  | lenient => exact (Schema.checkSchema_stripRequired hchecked hreferences).1

/-- The schema that a change holds data to, as it is read, and how. -/
inductive Change.HoldsTo (call : Call) (t : Tables) : Change → Mode → Json → Prop
  | created {id : String} {draft : EntityDraft} {schema : Json} :
      requireSchema call.tenant draft.blueprint t = .ok schema →
      HoldsTo call t (.createEntity id draft) .full schema
  | patched {id : String} {patch : EntityPatch} {e : Entity} {data schema : Json} :
      getEntity call.tenant id t = .ok e → patch.data = some data →
      requireSchema call.tenant e.blueprint t = .ok schema →
      HoldsTo call t (.updateEntity id patch) .lenient schema

/-- The schemas that a change holds data to can be used. -/
def Change.SchemaUsable (call : Call) (t : Tables) (c : Change) : Prop :=
  ∀ mode schema, c.HoldsTo call t mode schema → checkSchema (mode.schema schema) = .ok ()

namespace Usable

theorem requireSchema (ht : Usable t) (tenant id : String) :
    (∃ schema, Store.requireSchema tenant id t = .ok schema) ∨
      Store.requireSchema tenant id t = .error (.blueprintNotFound id) := by
  cases hfound : t.blueprint? tenant id with
  | none =>
      right
      rw [Store.requireSchema, schemaOf?, hfound]
  | some r =>
      obtain ⟨-, b, hb⟩ := ht.blueprints r (List.mem_of_find?_eq_some hfound)
      obtain ⟨schema, _, _, hread, -, -, rfl⟩ := BlueprintRow.read_eq_ok.mp hb
      exact .inl ⟨schema, requireSchema_eq_ok.mpr ⟨r, hfound, hread⟩⟩

end Usable

/-- Where rows can be read, the schema of a blueprint is the one that is read of its row. -/
theorem UsableSchemas.requireSchema (hschemas : UsableSchemas t) (ht : Usable t) {schema : Json}
    (h : requireSchema tenant id t = .ok schema) (mode : Mode) :
    checkSchema (mode.schema schema) = .ok () := by
  obtain ⟨r, hfound, hread⟩ := requireSchema_eq_ok.mp h
  have hr := List.mem_of_find?_eq_some hfound
  obtain ⟨-, b, hb⟩ := ht.blueprints r hr
  obtain ⟨_, _, _, hread', -, -, rfl⟩ := BlueprintRow.read_eq_ok.mp hb
  obtain rfl := Except.ok.inj (hread.symm.trans hread')
  exact hschemas r hr _ hb mode

theorem UsableSchemas.schemaUsable (hschemas : UsableSchemas t) (ht : Usable t) (call : Call)
    (c : Change) : c.SchemaUsable call t := by
  rintro mode schema (⟨hschema⟩ | ⟨-, -, hschema⟩)
  · exact hschemas.requireSchema ht hschema _
  · exact hschemas.requireSchema ht hschema _

/-! ### Requests -/

theorem client_checkDraft (ht : Usable t) {draft : EntityDraft}
    (hchecked : ∀ schema, requireSchema tenant draft.blueprint t = .ok schema →
      checkSchema schema = .ok ()) : Client (checkDraft tenant draft t) := by
  rw [checkDraft]
  obtain ⟨schema, hschema⟩ | hnone := ht.requireSchema tenant draft.blueprint
  · rw [hschema]
    dsimp only
    split
    · exact client_error rfl
    · split
      · exact client_error rfl
      · have hfull : checkSchema (Mode.full.schema schema) = .ok () := hchecked schema hschema
        have hvalid := client_requireValid hfull draft.data
        split
        · next fault hfault => exact client_error (hvalid fault hfault)
        · split
          · exact client_error rfl
          · exact client_ok _
  · rw [hnone]
    exact client_error rfl

theorem client_patchedData (ht : Usable t) {e : Entity} {patch : Option Json}
    (hchecked : ∀ data ∈ patch, ∀ schema, requireSchema tenant e.blueprint t = .ok schema →
      checkSchema (Mode.lenient.schema schema) = .ok ()) :
    Client (patchedData tenant e patch t) := by
  unfold patchedData
  split
  · exact client_ok _
  · obtain ⟨schema, hschema⟩ | hnone := ht.requireSchema tenant e.blueprint
    · rw [hschema]
      exact (client_requireValid (hchecked _ rfl schema hschema) _).map _
    · rw [hnone]
      exact client_error rfl
  · exact client_error rfl

theorem client_getBlueprint (ht : Usable t) (tenant id : String) :
    Client (getBlueprint tenant id t) := by
  cases hfound : t.blueprint? tenant id with
  | none =>
      rw [getBlueprint, hfound]
      exact client_error rfl
  | some r =>
      obtain ⟨-, b, hb⟩ := ht.blueprints r (List.mem_of_find?_eq_some hfound)
      rw [getBlueprint_row.mpr ⟨r, hfound, hb⟩]
      exact client_ok _

theorem exists_readBlueprints : ∀ {rows : List BlueprintRow}, (∀ r ∈ rows, ∃ b, r.read = .ok b) →
    ∃ bs, readBlueprints rows = .ok bs
  | [], _ => ⟨[], rfl⟩
  | r :: rest, h => by
      obtain ⟨b, hb⟩ := h r List.mem_cons_self
      obtain ⟨bs, hbs⟩ := exists_readBlueprints fun s hs => h s (List.mem_cons_of_mem _ hs)
      exact ⟨b :: bs, by rw [readBlueprints, hb, hbs]; rfl⟩

theorem client_listBlueprints (ht : Usable t) (tenant : String) :
    Client (listBlueprints tenant t) := by
  obtain ⟨bs, hbs⟩ : ∃ bs, readBlueprints
      ((t.blueprints.filter (·.tenant = tenant)).mergeSort fun a b => a.id ≤ b.id) = .ok bs := by
    refine exists_readBlueprints fun r hr => ?_
    obtain ⟨-, b, hb⟩ := ht.blueprints r (List.mem_filter.mp (List.mem_mergeSort.mp hr)).1
    exact ⟨b, hb⟩
  rw [listBlueprints, hbs]
  exact client_ok _

/-- A row that is found is read. -/
theorem client_readEntity (ht : Usable t) {missing : StoreError} {found : Option EntityRow}
    (hmissing : missing.isClientError = true) (hfound : ∀ r ∈ found, r ∈ t.entities) :
    Client (readEntity missing found) := by
  cases found with
  | none => exact client_error hmissing
  | some r =>
      obtain ⟨-, e, he⟩ := ht.entities r (hfound r rfl)
      rw [readEntity, he]
      exact client_ok _

theorem client_getEntity (ht : Usable t) (tenant id : String) : Client (getEntity tenant id t) :=
  client_readEntity ht rfl fun _ => List.mem_of_find?_eq_some

/-- A search that compiles is answered. -/
theorem search_eq_ok (ht : Usable t) {limits : Query.Limits} {request : Query.Search}
    {plan : Query.Plan} (hplan : request.compile limits = .ok plan) (hfits : Fits plan)
    (tenant : String) : ∃ page, search limits tenant request t = .ok page :=
  search_eq_ok_of_readable (fun r hr => (ht.entities r hr).2) tenant hplan hfits

/-- The blueprint of a draft that passes is there. -/
theorem blueprint_of_checkDraft {draft : EntityDraft} (h : checkDraft tenant draft t = .ok ()) :
    (t.blueprint? tenant draft.blueprint).isSome = true := by
  obtain ⟨schema, hschema, -⟩ := checkDraft_iff.mp h
  obtain ⟨r, hfound, -⟩ := requireSchema_eq_ok.mp hschema
  rw [hfound]
  rfl

/-- A taken key is answered as an identifier that is taken. -/
theorem createEntity_of_insert_error {draft : EntityDraft} {c : Constraint}
    (hcheck : checkDraft call.tenant draft t = .ok ())
    (hdocument : Sql.isDocument draft.data.source = true)
    (h : t.insertEntity (.ofEntity (call.entity id draft)) = .error c) :
    (createEntity call id draft t).1 =
      .error (.identifierTaken draft.blueprint draft.identifier) := by
  obtain ⟨key, rfl⟩ := keyTaken_of_insertEntity hdocument (blueprint_of_checkDraft hcheck) h
  rw [Call.entity] at h
  rw [createEntity, hcheck]
  dsimp only
  rw [h]
  rfl

/-! ### Changes -/

/-- A patched blueprint is read from the tables after the patch. -/
theorem client_updateBlueprint (ht : Usable t) {patch : BlueprintPatch}
    (hdocument : BlueprintPatch.holdsDocument patch = true)
    (ht' : Usable (updateBlueprint call id patch t).2) :
    Client (updateBlueprint call id patch t).1 := by
  rw [updateBlueprint_eq] at ht' ⊢
  split at ht' <;> rename_i hempty
  · rw [if_pos hempty]
    exact client_getBlueprint ht _ _
  · rw [if_neg hempty]
    split at ht'
    · exact client_error rfl
    · split at ht' <;> rename_i hfound
      · rw [if_pos hfound]
        exact client_error rfl
      · rw [if_neg hfound]
        rw [hdocument, Bool.not_true, if_neg Bool.false_ne_true] at ht' ⊢
        exact client_getBlueprint ht' _ _

theorem client_createEntity (ht : Usable t) {draft : EntityDraft}
    (hschema : (Change.createEntity id draft).SchemaUsable call t)
    (hdocument : Sql.isDocument draft.data.source = true) :
    Client (createEntity call id draft t).1 := by
  cases hcheck : checkDraft call.tenant draft t with
  | error fault =>
      rw [createEntity, hcheck]
      refine client_error (client_checkDraft ht (fun schema hread => ?_) fault hcheck)
      exact hschema .full schema (.created hread)
  | ok u =>
      cases hinsert : t.insertEntity (.ofEntity (call.entity id draft)) with
      | error c =>
          rw [createEntity_of_insert_error hcheck hdocument hinsert]
          exact client_error rfl
      | ok t' =>
          rw [Call.entity] at hinsert
          rw [createEntity, hcheck]
          dsimp only
          rw [hinsert]
          exact client_ok _

theorem client_updateEntity (ht : Usable t) {patch : EntityPatch}
    (hschema : (Change.updateEntity id patch).SchemaUsable call t)
    (hdocument : ∀ data ∈ patch.data, Sql.isDocument data.source = true) :
    Client (updateEntity call id patch t).1 := by
  cases hget : getEntity call.tenant id t with
  | error fault =>
      rw [updateEntity, hget]
      exact client_error (client_getEntity ht _ _ fault hget)
  | ok e =>
      cases hdata : patchedData call.tenant e patch.data t with
      | error fault =>
          rw [updateEntity_of_refused hget hdata]
          refine client_error (client_patchedData ht (fun data hpatch schema hread => ?_) fault hdata)
          exact hschema .lenient schema (.patched hget hpatch hread)
      | ok data =>
          rw [updateEntity_of_patchedData hget hdata,
            if_pos (isDocument_patchedData hdata hget hdocument)]
          exact client_ok _

theorem Change.client_answer (ht : Usable t) {c : Change} (hc : c.Bounded call)
    (hschema : c.SchemaUsable call t) (ht' : Usable (c.apply call t)) :
    Client (c.answer call t) := by
  cases c with
  | createBlueprint draft => exact (client_createBlueprint (hc.schema.2 _ rfl).isDocument).map _
  | updateBlueprint id patch =>
      have hdocument : BlueprintPatch.holdsDocument patch = true :=
        BlueprintPatch.holdsDocument_iff.mpr fun schema hpatch =>
          (hc.schema.2 schema hpatch).isDocument
      exact (client_updateBlueprint ht hdocument ht').map _
  | createEntity id draft => exact (client_createEntity ht hschema hc.data.2.isDocument).map _
  | updateEntity id patch =>
      exact (client_updateEntity ht hschema fun data hpatch =>
        (hc.data.2 data hpatch).isDocument).map _
  | deleteBlueprint id =>
      rw [answer, Store.deleteBlueprint]
      split
      · exact client_error rfl
      · exact client_ok _
  | deleteEntity id =>
      rw [answer, Store.deleteEntity]
      split
      · exact client_error rfl
      · exact client_ok _

/-! ### Runs -/

/-- The schemas that a step holds data to can be used. -/
def Step.SchemaUsable (t : Tables) (s : Step) : Prop :=
  ∀ c, s.operation = .change c → c.SchemaUsable s.call t

/-- Every failure of the step is the caller's, unless it is that of a schema: a search that compiles is
answered, and a row that passes the checks is not inserted only if a key is taken, which is answered as
such. -/
structure Step.Faultless (t : Tables) (s : Step) : Prop where
  client : s.SchemaUsable t → ∀ fault, s.answer t = .error fault → fault.isClientError = true
  searched : ∀ limits request plan, s.operation = .search limits request →
    request.compile limits = .ok plan → ∃ page, s.answer t = .ok (.page page)
  blueprintTaken : ∀ draft c, s.operation = .change (.createBlueprint draft) →
    Text.allBlank draft.id = false → checkSchema draft.schema = .ok () →
    t.insertBlueprint (.ofBlueprint (s.call.blueprint draft)) = .error c →
    (∃ key, c = .keyTaken key) ∧ s.answer t = .error (.blueprintExists draft.id)
  entityTaken : ∀ id draft c, s.operation = .change (.createEntity id draft) →
    checkDraft s.call.tenant draft t = .ok () →
    t.insertEntity (.ofEntity (s.call.entity id draft)) = .error c →
    (∃ key, c = .keyTaken key) ∧
      s.answer t = .error (.identifierTaken draft.blueprint draft.identifier)

theorem Step.client_answer (ht : Reachable (fun call c => c.Bounded call) t) {s : Step}
    (hs : s.Bounded) (hschema : s.SchemaUsable t) : Client (s.answer t) := by
  obtain ⟨call, operation⟩ := s
  cases operation with
  | change c =>
      exact Change.client_answer ht.usable hs (hschema c rfl) (ht.next hs.allowed).usable
  | getBlueprint id => exact (client_getBlueprint ht.usable _ _).map _
  | listBlueprints => exact (client_listBlueprints ht.usable _).map _
  | getEntity id => exact (client_getEntity ht.usable _ _).map _
  | getEntityNamed blueprint identifier =>
      exact (client_readEntity ht.usable rfl fun _ => List.mem_of_find?_eq_some).map _
  | search limits request =>
      refine Client.map ?_ _
      cases hplan : request.compile limits with
      | error e =>
          rw [Store.search, hplan]
          exact client_error rfl
      | ok plan =>
          obtain ⟨page, hpage⟩ := search_eq_ok ht.usable hplan (hs plan hplan) call.tenant
          dsimp only
          rw [hpage]
          exact client_ok _

theorem Step.faultless (ht : Reachable (fun call c => c.Bounded call) t) {s : Step}
    (hs : s.Bounded) : s.Faultless t where
  client := Step.client_answer ht hs
  searched limits request plan hoperation hplan := by
    rw [Step.Bounded, hoperation] at hs
    obtain ⟨page, hpage⟩ := search_eq_ok ht.usable hplan (hs plan hplan) s.call.tenant
    exact ⟨page, by rw [Step.answer, hoperation]; dsimp only; rw [hpage]; rfl⟩
  blueprintTaken draft c hoperation hid hschema hinsert := by
    have hdocument := ((hs.allowed _ hoperation).schema.2 _ rfl).isDocument
    refine ⟨keyTaken_of_insertBlueprint hdocument hinsert, ?_⟩
    rw [Step.answer, hoperation]
    dsimp only
    rw [Change.answer, createBlueprint_of_insert_error hid hschema hdocument hinsert]
    rfl
  entityTaken id draft c hoperation hcheck hinsert := by
    have hdocument := (hs.allowed _ hoperation).data.2.isDocument
    refine ⟨keyTaken_of_insertEntity hdocument (blueprint_of_checkDraft hcheck) hinsert, ?_⟩
    rw [Step.answer, hoperation]
    dsimp only
    rw [Change.answer, createEntity_of_insert_error hcheck hdocument hinsert]
    rfl

/-- In a run inside the limits every failure of a step is the caller's, except where the step holds data
to a schema that cannot be used as it is read; and what is stored in the end can be read.  Where the
schemas that were given read back, as all of them do for an exact reader and those with short doubles
for a quick one, every schema can be used in both modes, and every failure is the caller's. -/
theorem faultless_run {steps : List Step} (hsteps : ∀ s ∈ steps, s.Bounded) :
    (∀ before s later, steps = before ++ s :: later → s.Faultless (after .empty before)) ∧
      Usable (after .empty steps) ∧
      ((∀ schema ∈ schemasOf steps, schema.ReadsBack) →
        UsableSchemas (after .empty steps) ∧
        ∀ before s later, steps = before ++ s :: later → ∀ fault,
          s.answer (after .empty before) = .error fault → fault.isClientError = true) := by
  have hreachable : ∀ {steps : List Step}, (∀ s ∈ steps, s.Bounded) →
      Reachable (fun call c => c.Bounded call) (after .empty steps) :=
    fun h => Reachable.empty.after fun s hs => (h s hs).allowed
  have hfaultless : ∀ before s later, steps = before ++ s :: later →
      s.Faultless (after .empty before) := by
    rintro before s later rfl
    obtain ⟨hbefore, hlater⟩ := List.forall_mem_append.mp hsteps
    exact Step.faultless (hreachable hbefore) (hlater s List.mem_cons_self)
  refine ⟨hfaultless, (hreachable hsteps).usable, fun hback => ?_⟩
  have hschemas : ∀ before later, steps = before ++ later → UsableSchemas (after .empty before) := by
    rintro before later rfl
    refine Reachable.usableSchemas (Reachable.empty.after fun s hs c hc => ?_)
    have hmem : s ∈ before ++ later := List.mem_append_left _ hs
    exact ⟨(hsteps s hmem).allowed c hc, fun schema hschema =>
      hback schema (mem_schemasOf hmem hc hschema)⟩
  refine ⟨hschemas steps [] (List.append_nil steps).symm, fun before s later hsplit fault hfault => ?_⟩
  have husable : Usable (after .empty before) :=
    (hreachable fun r hr => hsteps r (hsplit ▸ List.mem_append_left _ hr)).usable
  exact (hfaultless before s later hsplit).client
    (fun c _ => (hschemas before _ hsplit).schemaUsable husable s.call c) fault hfault

end reader

/-- A part is created, given a size, and looked for. -/
def partRun : List Step := [
  ⟨⟨"acme", ⟨0, 0⟩⟩, .change (.createBlueprint ⟨"part", "Part", none, Schema.partSchema⟩)⟩,
  ⟨⟨"acme", ⟨1, 0⟩⟩, .change (.createEntity "ent-1" ⟨"part", "wheel", none,
    .object [("name", .string "Wheel")]⟩)⟩,
  ⟨⟨"acme", ⟨2, 0⟩⟩, .change (.updateEntity "ent-1" ⟨none, some (.object [("size", .object [])])⟩)⟩]

/-- The name of the part is given to another one. -/
def wheelStep : Step :=
  ⟨⟨"acme", ⟨3, 0⟩⟩, .change (.createEntity "ent-2" ⟨"part", "wheel", none,
    .object [("name", .string "Wheel")]⟩)⟩

def partSearch : Step := ⟨⟨"acme", ⟨4, 0⟩⟩, .search .standard ⟨"part", [], none, none, none, none⟩⟩

theorem bounded_partRun : ∀ s ∈ partRun ++ [wheelStep, partSearch], s.Bounded := by
  intro s hs
  simp only [partRun, List.cons_append, List.nil_append, List.mem_cons, List.not_mem_nil,
    or_false] at hs
  rcases hs with rfl | rfl | rfl | rfl | rfl
  · exact ⟨by decide +kernel, by decide +kernel, by
      rintro _ ⟨⟩
      exact Schema.refersToDefinitions_partSchema⟩
  · exact ⟨by decide +kernel, by decide +kernel, nofun⟩
  · exact ⟨by decide +kernel, by decide +kernel, nofun⟩
  · exact ⟨by decide +kernel, by decide +kernel, nofun⟩
  · rintro _ ⟨⟩
    exact ⟨⟨by decide, by decide⟩, nofun⟩

theorem faultless_run_part :
    Usable (after .empty (partRun ++ [wheelStep, partSearch])) ∧
      UsableSchemas (after .empty (partRun ++ [wheelStep, partSearch])) ∧
      (∃ fault, wheelStep.answer (after .empty partRun) = .error fault ∧
        fault.isClientError = true) ∧
      ∃ page, partSearch.answer (after .empty (partRun ++ [wheelStep])) = .ok (.page page) := by
  obtain ⟨hfaultless, husable, hback⟩ := faultless_run bounded_partRun
  obtain ⟨hschemas, hclient⟩ := hback fun schema _ => Json.readsBack_exact schema
  have hfails : (wheelStep.answer (after .empty partRun)).toOption.isSome = false := by
    decide +kernel
  obtain ⟨fault, hfault⟩ := exists_error_of_toOption hfails
  refine ⟨husable, hschemas, ⟨fault, hfault, ?_⟩, ?_⟩
  · exact hclient partRun wheelStep [partSearch] rfl fault hfault
  · exact (hfaultless (partRun ++ [wheelStep]) partSearch [] (by simp)).searched _ _ _ rfl rfl

/-- Where a quick reader reads another schema than was given, the data of an entity is held to a schema
that cannot be used. -/
example : (match (@Step.answer .quick (@after .quick .empty longTextRun)
      ⟨⟨"acme", ⟨1, 0⟩⟩, .change (.createEntity "ent-1" ⟨"text", "note", none, .object []⟩)⟩) with
    | .error fault => fault.isClientError
    | .ok _ => true) = false := by decide +kernel

end EntityStore.Store
