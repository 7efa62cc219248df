import EntityStore.Proofs.Store.Effect
import EntityStore.Proofs.Time.Order
import Mathlib.Data.List.Induction
import Mathlib.Data.List.Pairwise

/-! # The tables are consistent

After any run of the service keys are unique, entities belong to blueprints, and every row holds
what was checked when it was written (`Consistent`).  Each way to change the tables keeps this, under
what is checked before it; `Change.effect` says what that is.  If the clock does not run backwards,
no row was updated before it was created (`Dated`). -/

namespace EntityStore.Store

/-! ### Unique keys -/

/-- No two rows have one key. -/
def Unique {ρ κ : Type} (key : ρ → κ) (rows : List ρ) : Prop :=
  rows.Pairwise fun r s => key r ≠ key s

namespace Unique

variable {ρ κ : Type} {key : ρ → κ} {rows : List ρ}

theorem append_singleton {r : ρ} (h : Unique key rows) (hnew : ∀ s ∈ rows, key s ≠ key r) :
    Unique key (rows ++ [r]) := by
  rw [Unique, List.pairwise_append]
  refine ⟨h, List.pairwise_singleton _ _, fun s hs r' hr' => ?_⟩
  rw [List.mem_singleton.mp hr']
  exact hnew s hs

theorem map {f : ρ → ρ} (h : Unique key rows) (hf : ∀ r, key (f r) = key r) :
    Unique key (rows.map f) := by
  rw [Unique, List.pairwise_map]
  exact h.imp fun hne => by rwa [hf, hf]

/-- Rows of one key are one row. -/
theorem eq_of_key (h : Unique key rows) {r s : ρ} (hr : r ∈ rows) (hs : s ∈ rows)
    (hkey : key r = key s) : r = s := by
  by_contra hne
  have hsymm : Std.Symm fun r s : ρ => key r ≠ key s := ⟨fun _ _ => Ne.symm⟩
  exact List.Pairwise.forall h hr hs hne hkey

/-- The first row that is looked for is the only one, if all of them have one key. -/
theorem find?_eq_some (h : Unique key rows) {p : ρ → Bool}
    (hp : ∀ r s, p r = true → p s = true → key r = key s) {r : ρ} :
    rows.find? p = some r ↔ r ∈ rows ∧ p r = true := by
  constructor
  · exact fun hfind => ⟨List.mem_of_find?_eq_some hfind, List.find?_some hfind⟩
  · rintro ⟨hr, hpr⟩
    obtain ⟨s, hs⟩ := Option.isSome_iff_exists.mp (List.find?_isSome.mpr ⟨r, hr, hpr⟩)
    rw [hs, h.eq_of_key (List.mem_of_find?_eq_some hs) hr (hp s r (List.find?_some hs) hpr)]

end Unique

/-- What a blueprint is found by. -/
def BlueprintRow.key (b : BlueprintRow) : String × String := (b.tenant, b.id)

theorem BlueprintRow.isAt_iff {b : BlueprintRow} {tenant id : String} :
    b.isAt tenant id = true ↔ b.key = (tenant, id) := by
  rw [isAt, key, Bool.and_eq_true, decide_eq_true_eq, decide_eq_true_eq, Prod.mk.injEq]

/-- What an entity is found by, apart from its id. -/
def EntityRow.name (r : EntityRow) : String × String × String := (r.tenant, r.blueprint, r.identifier)

/-! ### Consistent tables -/

/-- What is true of the tables; `given` are the schemas that callers gave. -/
structure Consistent (given : Json → Prop) (t : Tables) : Prop where
  keys : Unique BlueprintRow.key t.blueprints
  ids : Unique EntityRow.id t.entities
  names : Unique EntityRow.name t.entities
  owned : ∀ r ∈ t.entities, ∃ b ∈ t.blueprints, b.key = (r.tenant, r.blueprint)
  blueprintIds : ∀ b ∈ t.blueprints, Text.allBlank b.id = false
  schemas : ∀ b ∈ t.blueprints, ∃ schema, given schema ∧ Schema.checkSchema schema = .ok () ∧
    b.schema = schema.source
  entityIds : ∀ r ∈ t.entities, ∃ id, r.id = some id
  identifiers : ∀ r ∈ t.entities, Text.allBlank r.identifier = false
  objects : ∀ r ∈ t.entities, ∃ data : Json, data.isObject = true ∧ r.data = data.source
  schemaDocuments : ∀ b ∈ t.blueprints, Sql.isDocument b.schema = true
  documents : ∀ r ∈ t.entities, Sql.isDocument r.data = true

/-- The schema that a change gives to a blueprint. -/
def Change.schema? : Change → Option Json
  | .createBlueprint draft => some draft.schema
  | .updateBlueprint _ patch => patch.schema
  | _ => none

/-- The schema that a step gives. -/
def Step.schema? (s : Step) : Option Json :=
  match s.operation with
  | .change c => c.schema?
  | _ => none

/-- The schemas that the steps of a run give. -/
def schemasOf (steps : List Step) : List Json := steps.filterMap Step.schema?

theorem mem_schemasOf {steps : List Step} {s : Step} {c : Change} {schema : Json} (hs : s ∈ steps)
    (hc : s.operation = .change c) (hschema : schema ∈ c.schema?) : schema ∈ schemasOf steps := by
  refine List.mem_filterMap.mpr ⟨s, hs, ?_⟩
  rw [Step.schema?, hc]
  exact hschema

variable {given : Json → Prop} {call : Call} {t : Tables}

namespace Consistent

theorem empty : Consistent given .empty where
  keys := List.Pairwise.nil
  ids := List.Pairwise.nil
  names := List.Pairwise.nil
  owned := nofun
  blueprintIds := nofun
  schemas := nofun
  entityIds := nofun
  identifiers := nofun
  objects := nofun
  schemaDocuments := nofun
  documents := nofun

/-! ### Blueprints -/

theorem blueprintCreated (h : Consistent given t) {draft : BlueprintDraft}
    (hgiven : given draft.schema) (hid : Text.allBlank draft.id = false)
    (hschema : Schema.checkSchema draft.schema = .ok ())
    (hdocument : Sql.isDocument draft.schema.source = true)
    (hfree : t.blueprint? call.tenant draft.id = none) :
    Consistent given ⟨t.blueprints ++ [.ofBlueprint (call.blueprint draft)], t.entities⟩ where
  keys := h.keys.append_singleton fun b hb hkey => by
    exact List.find?_eq_none.mp hfree b hb (BlueprintRow.isAt_iff.mpr hkey)
  ids := h.ids
  names := h.names
  owned r hr := by
    obtain ⟨b, hb, hkey⟩ := h.owned r hr
    exact ⟨b, List.mem_append_left _ hb, hkey⟩
  blueprintIds := List.forall_mem_append.mpr ⟨h.blueprintIds, List.forall_mem_singleton.mpr hid⟩
  schemas := List.forall_mem_append.mpr
    ⟨h.schemas, List.forall_mem_singleton.mpr ⟨_, hgiven, hschema, rfl⟩⟩
  entityIds := h.entityIds
  identifiers := h.identifiers
  objects := h.objects
  schemaDocuments := List.forall_mem_append.mpr
    ⟨h.schemaDocuments, List.forall_mem_singleton.mpr hdocument⟩
  documents := h.documents

theorem blueprintUpdated (h : Consistent given t) (id : String) {patch : BlueprintPatch}
    (hgiven : ∀ schema ∈ patch.schema, given schema)
    (hschema : ∀ schema ∈ patch.schema, Schema.checkSchema schema = .ok ())
    (hdocument : BlueprintPatch.holdsDocument patch = true) :
    Consistent given
      (t.updateBlueprint call.tenant id (BlueprintPatch.apply patch call.time)) where
  keys := h.keys.map fun b => by split <;> rfl
  ids := h.ids
  names := h.names
  owned r hr := by
    obtain ⟨b, hb, hkey⟩ := h.owned r hr
    refine ⟨_, List.mem_map_of_mem hb, ?_⟩
    rw [← hkey]
    split <;> rfl
  blueprintIds := List.forall_mem_map.mpr fun b hb => by
    split <;> exact h.blueprintIds b hb
  schemas := List.forall_mem_map.mpr fun b hb => by
    split
    · cases hpatch : patch.schema with
      | none =>
          simp only [BlueprintPatch.apply, hpatch]
          exact h.schemas b hb
      | some schema =>
          simp only [BlueprintPatch.apply, hpatch]
          exact ⟨schema, hgiven schema hpatch, hschema schema hpatch, rfl⟩
    · exact h.schemas b hb
  entityIds := h.entityIds
  identifiers := h.identifiers
  objects := h.objects
  schemaDocuments := List.forall_mem_map.mpr fun b hb => by
    split
    · rw [BlueprintPatch.holdsDocument] at hdocument
      cases hpatch : patch.schema with
      | none =>
          simp only [BlueprintPatch.apply, hpatch]
          exact h.schemaDocuments b hb
      | some schema =>
          rw [hpatch, Option.all_some] at hdocument
          simp only [BlueprintPatch.apply, hpatch]
          exact hdocument
    · exact h.schemaDocuments b hb
  documents := h.documents

/-- The entities of a deleted blueprint are deleted, so the others keep theirs. -/
theorem blueprintDeleted (h : Consistent given t) (tenant id : String) :
    Consistent given (t.deleteBlueprint tenant id) where
  keys := h.keys.filter _
  ids := h.ids.filter _
  names := h.names.filter _
  owned r hr := by
    obtain ⟨hr, hkept⟩ := List.mem_filter.mp hr
    obtain ⟨b, hb, hkey⟩ := h.owned r hr
    refine ⟨b, List.mem_filter.mpr ⟨hb, ?_⟩, hkey⟩
    obtain ⟨htenant, hid⟩ := Prod.mk.inj hkey
    rw [BlueprintRow.isAt, htenant, hid]
    exact hkept
  blueprintIds b hb := h.blueprintIds b (List.mem_filter.mp hb).1
  schemas b hb := h.schemas b (List.mem_filter.mp hb).1
  entityIds r hr := h.entityIds r (List.mem_filter.mp hr).1
  identifiers r hr := h.identifiers r (List.mem_filter.mp hr).1
  objects r hr := h.objects r (List.mem_filter.mp hr).1
  schemaDocuments b hb := h.schemaDocuments b (List.mem_filter.mp hb).1
  documents r hr := h.documents r (List.mem_filter.mp hr).1

/-! ### Entities -/

theorem entityCreated [FloatReader] (h : Consistent given t) {id : String} {draft : EntityDraft}
    (hcheck : checkDraft call.tenant draft t = .ok ())
    (hdocument : Sql.isDocument draft.data.source = true)
    (hfresh : ∀ r ∈ t.entities, r.id ≠ some id) :
    Consistent given ⟨t.blueprints, t.entities ++ [.ofEntity (call.entity id draft)]⟩ := by
  obtain ⟨schema, hschema, hidentifier, hobject, -, hfree⟩ := checkDraft_iff.mp hcheck
  obtain ⟨b, hb, -⟩ := requireSchema_eq_ok.mp hschema
  exact {
    keys := h.keys
    ids := h.ids.append_singleton hfresh
    names := h.names.append_singleton fun r hr hname => by
      refine List.find?_eq_none.mp hfree r hr ?_
      simp only [EntityRow.name, EntityRow.ofEntity, Call.entity, Prod.mk.injEq] at hname
      simp [EntityRow.isNamed, EntityRow.isOf, hname]
    owned := List.forall_mem_append.mpr ⟨h.owned, List.forall_mem_singleton.mpr
      ⟨b, List.mem_of_find?_eq_some hb, BlueprintRow.isAt_iff.mp (List.find?_some hb)⟩⟩
    blueprintIds := h.blueprintIds
    schemas := h.schemas
    entityIds := List.forall_mem_append.mpr ⟨h.entityIds, List.forall_mem_singleton.mpr ⟨id, rfl⟩⟩
    identifiers := List.forall_mem_append.mpr
      ⟨h.identifiers, List.forall_mem_singleton.mpr hidentifier⟩
    objects := List.forall_mem_append.mpr
      ⟨h.objects, List.forall_mem_singleton.mpr ⟨draft.data, hobject, rfl⟩⟩
    schemaDocuments := h.schemaDocuments
    documents := List.forall_mem_append.mpr
      ⟨h.documents, List.forall_mem_singleton.mpr hdocument⟩ }

theorem entityUpdated (h : Consistent given t) (id : String) (title : Option String) {data : Json}
    (hobject : data.isObject = true) (hdocument : Sql.isDocument data.source = true) :
    Consistent given (t.updateEntity call.tenant id (call.replace title data)) where
  keys := h.keys
  ids := h.ids.map fun r => by split <;> rfl
  names := h.names.map fun r => by split <;> rfl
  owned := List.forall_mem_map.mpr fun r hr => by split <;> exact h.owned r hr
  blueprintIds := h.blueprintIds
  schemas := h.schemas
  entityIds := List.forall_mem_map.mpr fun r hr => by split <;> exact h.entityIds r hr
  identifiers := List.forall_mem_map.mpr fun r hr => by split <;> exact h.identifiers r hr
  objects := List.forall_mem_map.mpr fun r hr => by
    split
    · exact ⟨data, hobject, rfl⟩
    · exact h.objects r hr
  schemaDocuments := h.schemaDocuments
  documents := List.forall_mem_map.mpr fun r hr => by
    split
    · exact hdocument
    · exact h.documents r hr

theorem entityDeleted (h : Consistent given t) (tenant id : String) :
    Consistent given (t.deleteEntity tenant id) where
  keys := h.keys
  ids := h.ids.filter _
  names := h.names.filter _
  owned r hr := h.owned r (List.mem_filter.mp hr).1
  blueprintIds := h.blueprintIds
  schemas := h.schemas
  entityIds r hr := h.entityIds r (List.mem_filter.mp hr).1
  identifiers r hr := h.identifiers r (List.mem_filter.mp hr).1
  objects r hr := h.objects r (List.mem_filter.mp hr).1
  schemaDocuments := h.schemaDocuments
  documents r hr := h.documents r (List.mem_filter.mp hr).1

end Consistent

/-! ### Times -/

/-- A row was created by one step and updated by another one, which is not an earlier one. -/
def Dated (steps : List Step) (created updated : String) : Prop :=
  ∃ s ∈ steps, ∃ s' ∈ steps, created = s.call.time.stored ∧ updated = s'.call.time.stored ∧
    s.call.now ≤ s'.call.now

/-- All rows are dated. -/
structure AllDated (steps : List Step) (t : Tables) : Prop where
  blueprints : ∀ b ∈ t.blueprints, Dated steps b.created b.updated
  entities : ∀ r ∈ t.entities, Dated steps r.created r.updated

namespace Dated

variable {steps : List Step} {created updated : String}

theorem append (h : Dated steps created updated) (more : List Step) :
    Dated (steps ++ more) created updated := by
  obtain ⟨s, hs, s', hs', hcreated, hupdated, hle⟩ := h
  exact ⟨s, List.mem_append_left _ hs, s', List.mem_append_left _ hs', hcreated, hupdated, hle⟩

/-- A row that a step writes. -/
theorem new (s : Step) :
    Dated (steps ++ [s]) s.call.time.stored s.call.time.stored := by
  have hs : s ∈ steps ++ [s] := List.mem_append_right _ (List.mem_singleton_self s)
  exact ⟨s, hs, s, hs, rfl, rfl, le_refl _⟩

/-- A row that a step updates. -/
theorem update (h : Dated steps created updated) {s : Step}
    (hs : ∀ r ∈ steps, r.call.now ≤ s.call.now) :
    Dated (steps ++ [s]) created s.call.time.stored := by
  obtain ⟨r, hr, _, -, hcreated, -, -⟩ := h
  exact ⟨r, List.mem_append_left _ hr, s, List.mem_append_right _ (List.mem_singleton_self s),
    hcreated, rfl, hs r hr⟩

/-- The times that are read. -/
theorem read (h : Dated steps created updated) (hclock : ∀ s ∈ steps, s.call.now.Storable) :
    ∃ i j, readInstant created = .ok i ∧ readInstant updated = .ok j ∧ i ≤ j := by
  obtain ⟨s, hs, s', hs', rfl, rfl, hle⟩ := h
  have htime : ∀ s ∈ steps, readInstant s.call.time.stored = .ok s.call.time := fun s hs => by
    rw [readInstant_stored (storable_time (hclock s hs)), s.call.toMicros_time]
  exact ⟨_, _, htime s hs, htime s' hs', Time.Instant.toMicros_le_toMicros hle⟩

end Dated

/-! ### Changes, steps and runs -/

section reader
variable [FloatReader]

/-- What is read of an object is an object. -/
theorem isObject_of_readDocument {data j : Json} (h : data.isObject = true)
    (hread : readDocument data.source = .ok j) : j.isObject = true := by
  cases data with
  | object fields =>
      rw [readDocument, Json.ofSource?, Json.source, Source.value?] at hread
      split at hread
      · next hj =>
          split at hj
          · cases hfields : Source.valueFields? (Json.sourceFields fields) with
            | none =>
                rw [hfields] at hj
                cases hj
            | some fields' =>
                rw [hfields] at hj
                cases hj
                cases hread
                rfl
          · cases hj
      · cases hread
  | null | bool _ | number _ | string _ | array _ => cases h

/-- The data of an updated entity is an object, as it was before. -/
theorem isObject_of_patchedData {id : String} {e : Entity} {patch : Option Json} {data : Json}
    (h : Consistent given t) (hget : getEntity call.tenant id t = .ok e)
    (hdata : patchedData call.tenant e patch t = .ok data) : data.isObject = true := by
  obtain ⟨-, rfl⟩ | ⟨fields, _, -, rfl, -, -⟩ := patchedData_eq_ok.mp hdata
  · obtain ⟨r, hfound, hread⟩ := getEntity_row.mp hget
    obtain ⟨_, data, _, _, -, hdocument, -, -, rfl⟩ := EntityRow.read_eq_ok.mp hread
    obtain ⟨stored, hobject, hsource⟩ := h.objects r (List.mem_of_find?_eq_some hfound)
    rw [hsource] at hdocument
    exact isObject_of_readDocument hobject hdocument
  · unfold mergeData
    split <;> rfl

/-- Every change keeps the tables consistent. -/
theorem Change.Effect.consistent {c : Change} {answer : Except StoreError Answer} {t' : Tables}
    (h : c.Effect call t answer t') (hc : ∀ schema ∈ c.schema?, given schema)
    (ht : Consistent given t) : Consistent given t' := by
  cases h with
  | refused => exact ht
  | looked => exact ht
  | blueprintCreated hid hschema hdocument hfree =>
      exact ht.blueprintCreated (hc _ rfl) hid hschema hdocument hfree
  | blueprintUpdated _ hschema hdocument => exact ht.blueprintUpdated _ hc hschema hdocument
  | blueprintDeleted id => exact ht.blueprintDeleted _ id
  | entityCreated hcheck hdocument hfresh => exact ht.entityCreated hcheck hdocument hfresh
  | entityUpdated _ hget hdata hdocument =>
      exact ht.entityUpdated _ _ (isObject_of_patchedData ht hget hdata) hdocument
  | entityDeleted id => exact ht.entityDeleted _ id

theorem Reachable.consistent (h : Reachable (fun _ c => ∀ schema ∈ c.schema?, given schema) t) :
    Consistent given t := by
  induction h with
  | empty => exact .empty
  | change call c _ hc ih => exact (c.effect call _).consistent hc ih

/-- Whatever schemas were given, the tables that can be reached are consistent. -/
theorem Reachable.consistent_any {allowed : Call → Change → Prop} (h : Reachable allowed t) :
    Consistent (fun _ => True) t :=
  Reachable.consistent (h.mono fun _ _ _ _ _ => trivial)

theorem consistent_run (steps : List Step) :
    Consistent (· ∈ schemasOf steps) (after .empty steps) := by
  have hgiven : ∀ s ∈ steps, s.Allowed fun _ c => ∀ schema ∈ c.schema?, schema ∈ schemasOf steps :=
    fun s hs c hc schema => mem_schemasOf hs hc
  exact (Reachable.empty.after hgiven).consistent

/-- Under a clock that does not run backwards a change keeps the rows dated. -/
theorem Change.Effect.dated {steps : List Step} {c : Change} {answer : Except StoreError Answer}
    {t' : Tables} (h : c.Effect call t answer t')
    (hclock : ∀ s ∈ steps, s.call.now ≤ call.now) (ht : AllDated steps t) :
    AllDated (steps ++ [⟨call, .change c⟩]) t' := by
  have hblueprints : ∀ b ∈ t.blueprints, Dated (steps ++ [⟨call, .change c⟩]) b.created b.updated :=
    fun b hb => (ht.blueprints b hb).append _
  have hentities : ∀ r ∈ t.entities, Dated (steps ++ [⟨call, .change c⟩]) r.created r.updated :=
    fun r hr => (ht.entities r hr).append _
  cases h with
  | refused | looked => exact ⟨hblueprints, hentities⟩
  | blueprintCreated =>
      exact ⟨List.forall_mem_append.mpr ⟨hblueprints, List.forall_mem_singleton.mpr (.new _)⟩,
        hentities⟩
  | blueprintUpdated =>
      refine ⟨List.forall_mem_map.mpr fun b hb => ?_, hentities⟩
      split
      · exact (ht.blueprints b hb).update hclock
      · exact hblueprints b hb
  | blueprintDeleted =>
      exact ⟨fun b hb => hblueprints b (List.mem_filter.mp hb).1,
        fun r hr => hentities r (List.mem_filter.mp hr).1⟩
  | entityCreated =>
      exact ⟨hblueprints,
        List.forall_mem_append.mpr ⟨hentities, List.forall_mem_singleton.mpr (.new _)⟩⟩
  | entityUpdated =>
      refine ⟨hblueprints, List.forall_mem_map.mpr fun r hr => ?_⟩
      split
      · exact (ht.entities r hr).update hclock
      · exact hentities r hr
  | entityDeleted =>
      exact ⟨hblueprints, fun r hr => hentities r (List.mem_filter.mp hr).1⟩

/-- So does every step. -/
theorem AllDated.next {steps : List Step} {s : Step} (ht : AllDated steps t)
    (hclock : ∀ r ∈ steps, r.call.now ≤ s.call.now) : AllDated (steps ++ [s]) (s.next t) := by
  obtain ⟨call, operation⟩ := s
  cases operation with
  | change c => exact (c.effect call t).dated hclock ht
  | getBlueprint _ | listBlueprints | getEntity _ | getEntityNamed _ _ | search _ _ =>
      exact ⟨fun b hb => (ht.blueprints b hb).append _, fun r hr => (ht.entities r hr).append _⟩

/-- The clock does not run backwards. -/
def Forward (steps : List Step) : Prop := steps.Pairwise fun s s' => s.call.now ≤ s'.call.now

/-- By induction on the end of the run, since a step is compared with all steps before it. -/
theorem allDated_after {steps : List Step} (hclock : Forward steps) :
    AllDated steps (after .empty steps) := by
  induction steps using List.reverseRecOn with
  | nil => exact ⟨nofun, nofun⟩
  | append_singleton before s ih =>
      obtain ⟨hbefore, -, hlast⟩ := List.pairwise_append.mp hclock
      rw [after, List.foldl_append]
      exact (ih hbefore).next fun r hr => hlast r hr s (List.mem_singleton_self s)

/-! ### The store invariant -/

/-- What is read of a blueprint is found by the key of its row, up to the first NUL of each text. -/
theorem BlueprintRow.key_of_read {b : BlueprintRow} {read : Blueprint} (h : b.read = .ok read)
    (htenant : Plain b.tenant) (hid : Plain b.id) : (read.tenant, read.id) = b.key := by
  obtain ⟨_, _, _, -, -, -, rfl⟩ := BlueprintRow.read_eq_ok.mp h
  rw [key, readText_plain htenant, readText_plain hid]

theorem EntityRow.name_of_read {r : EntityRow} {e : Entity} (h : r.read = .ok e)
    (htenant : Plain r.tenant) (hblueprint : Plain r.blueprint) (hidentifier : Plain r.identifier) :
    (e.tenant, e.blueprint, e.identifier) = r.name := by
  obtain ⟨_, _, _, _, -, -, -, -, rfl⟩ := EntityRow.read_eq_ok.mp h
  rw [name, readText_plain htenant, readText_plain hblueprint, readText_plain hidentifier]

theorem Consistent.isObject_of_read (h : Consistent given t) {r : EntityRow} (hr : r ∈ t.entities)
    {e : Entity} (hread : r.read = .ok e) : e.data.isObject = true := by
  obtain ⟨_, data, _, _, -, hdocument, -, -, rfl⟩ := EntityRow.read_eq_ok.mp hread
  obtain ⟨stored, hobject, hsource⟩ := h.objects r hr
  rw [hsource] at hdocument
  exact isObject_of_readDocument hobject hdocument

end reader

/-- A service gets a title, and another tenant has no blueprint for one. -/
def titledRun : List Step := [
  ⟨⟨"acme", ⟨0, 0⟩⟩, .change (.createBlueprint ⟨"service", "Service", none,
    .object [("type", .string "object")]⟩)⟩,
  ⟨⟨"acme", ⟨1, 5000⟩⟩, .change (.createEntity "ent-1" ⟨"service", "api", none, .object []⟩)⟩,
  ⟨⟨"acme", ⟨2, 0⟩⟩, .change (.updateEntity "ent-1" ⟨some "API", none⟩)⟩,
  ⟨⟨"globex", ⟨2, 0⟩⟩, .change (.createEntity "ent-2" ⟨"service", "api", none, .object []⟩)⟩]

/-- Two entities whose identifiers differ only after a NUL. -/
def cutNamesRun : List Step := [
  ⟨⟨"acme", ⟨0, 0⟩⟩, .change (.createBlueprint ⟨"service", "Service", none, .object []⟩)⟩,
  ⟨⟨"acme", ⟨1, 0⟩⟩, .change (.createEntity "ent-1" ⟨"service", "\x00a", none, .object []⟩)⟩,
  ⟨⟨"acme", ⟨2, 0⟩⟩, .change (.createEntity "ent-2" ⟨"service", "\x00b", none, .object []⟩)⟩]

/-- The least length is the double `3900000000000002`. -/
def longTextSchema : Json :=
  .object [("minLength", .number (.float ⟨false, 0x432BB60F053F8004, by decide⟩))]

/-- The least length is the double `3900000000000001.5`. -/
def misreadSchema : Json :=
  .object [("minLength", .number (.float ⟨false, 0x432BB60F053F8003, by decide⟩))]

def longTextRun : List Step := [
  ⟨⟨"acme", ⟨0, 0⟩⟩, .change (.createBlueprint ⟨"text", "Text", none, longTextSchema⟩)⟩]

end EntityStore.Store
