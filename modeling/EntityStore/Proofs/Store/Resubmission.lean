import EntityStore.Proofs.Schema.Lenient
import EntityStore.Proofs.Store.Run

/-! # Giving a document to the store again

A document that the store has just accepted for a new entity can be given again as a patch of the
entity: it is laid over what is read of it, which puts it back, and the lenient mode accepts what the
full mode has accepted. -/

namespace EntityStore.Store

open Schema (Validator validate)

variable {call : Call} {t : Tables}

/-! ### What has been checked -/

theorem requireValid_eq_ok {mode : Schema.Mode} {schema data : Json} :
    requireValid mode schema data = .ok () ↔ validate mode schema data = .ok () := by
  rw [requireValid]
  cases validate mode schema data with
  | ok u => exact iff_of_true rfl rfl
  | error e => exact iff_of_false nofun nofun

section reader
variable [FloatReader]

/-- The data of a draft that passes is an object that its blueprint accepts in full. -/
theorem checkDraft_eq_ok {tenant : String} {draft : EntityDraft} {schema : Json}
    (h : checkDraft tenant draft t = .ok ())
    (hschema : requireSchema tenant draft.blueprint t = .ok schema) :
    (∃ fields, draft.data = .object fields) ∧ validate .full schema draft.data = .ok () := by
  obtain ⟨schema', hschema', -, hobject, hvalid, -⟩ := checkDraft_iff.mp h
  rw [hschema] at hschema'
  cases hschema'
  refine ⟨?_, requireValid_eq_ok.mp hvalid⟩
  cases hdata : draft.data with
  | object fields => exact ⟨fields, rfl⟩
  | _ => rw [hdata] at hobject; cases hobject

/-! ### The new entity -/

/-- The new entity is found under its id, with its data read anew, and with its blueprint. -/
theorem getEntity_created (blueprints : List BlueprintRow) {id : String} {draft : EntityDraft}
    (hfresh : ∀ r ∈ t.entities, r.id ≠ some id) (hnow : call.now.Storable)
    (hdata : draft.data.Storable) (hblueprint : readText draft.blueprint = draft.blueprint) :
    ∃ e, getEntity call.tenant id
        ⟨blueprints, t.entities ++ [.ofEntity (call.entity id draft)]⟩ = .ok e ∧
      e.blueprint = draft.blueprint ∧ e.data = draft.data.reread := by
  refine ⟨⟨readText id, readText call.tenant, readText draft.blueprint, readText draft.identifier,
    readOptional draft.title, draft.data.reread, call.time.toMicros, call.time.toMicros⟩, ?_,
    hblueprint, rfl⟩
  exact getEntity_row.mpr ⟨_, entity?_created blueprints hfresh, read_created id draft hnow hdata⟩

/-- An object laid over what is read of it is put back. -/
theorem mergeData_reread {fields : Fields} (h : (Json.object fields).Storable) :
    mergeData (Json.object fields).reread fields = .object fields := by
  rw [Json.reread, mergeData, Json.merge_rereadFields (Json.storable_object_iff.mp h).1]

/-- Where the lenient mode accepts the data of a draft, the new entity can be patched with it. -/
theorem updateEntity_created {call' : Call} {id : String} {draft : EntityDraft} {schema : Json}
    {title : Option String} (hschema : requireSchema call.tenant draft.blueprint t = .ok schema)
    (hfresh : ∀ r ∈ t.entities, r.id ≠ some id) (hnow : call.now.Storable)
    (hdata : draft.data.Storable) (hblueprint : readText draft.blueprint = draft.blueprint)
    (htenant : call'.tenant = call.tenant) {fields : Fields} (hfields : draft.data = .object fields)
    (hvalid : validate .lenient schema draft.data = .ok ()) :
    ∃ e, (updateEntity call' id ⟨title, some draft.data⟩
        ⟨t.blueprints, t.entities ++ [.ofEntity (call.entity id draft)]⟩).1 = .ok e ∧
      e.data = draft.data := by
  obtain ⟨e, hget, heblueprint, hedata⟩ := getEntity_created t.blueprints hfresh hnow
    hdata hblueprint
  have hpatched : patchedData call.tenant e (some draft.data)
      ⟨t.blueprints, t.entities ++ [.ofEntity (call.entity id draft)]⟩ = .ok draft.data := by
    have hunchanged : requireSchema call.tenant e.blueprint
        ⟨t.blueprints, t.entities ++ [.ofEntity (call.entity id draft)]⟩ = .ok schema := by
      rw [heblueprint]
      exact hschema
    rw [hfields] at hdata hedata hvalid ⊢
    exact patchedData_eq_ok.mpr (.inr ⟨fields, schema, rfl, by rw [hedata, mergeData_reread hdata],
      hunchanged, requireValid_eq_ok.mpr hvalid⟩)
  rw [← htenant] at hget hpatched
  rw [updateEntity_of_patchedData hget hpatched, if_pos hdata.isDocument]
  exact ⟨_, rfl, rfl⟩

/-- A schema that is shielded from lenience accepts in the lenient mode every document that it
accepts in the full mode.  So the document of a new entity is accepted as a patch of it as long as
the schema stays the same. -/
theorem lenience_accepts {schema : Json}
    (hshielded : ∀ v, Validator.compile? schema = some v → v.Shielded) :
    (∀ document, validate .full schema document = .ok () →
      validate .lenient schema document = .ok ()) ∧
    ∀ (call call' : Call) (t t' : Tables) (id : String) (draft : EntityDraft) (e : Entity)
      (title : Option String), requireSchema call.tenant draft.blueprint t = .ok schema →
      createEntity call id draft t = (.ok e, t') → call'.tenant = call.tenant →
      call.now.Storable → draft.data.Storable → readText draft.blueprint = draft.blueprint →
      ∃ e', (updateEntity call' id ⟨title, some draft.data⟩ t').1 = .ok e' ∧ e'.data = draft.data := by
  refine ⟨fun document h => Schema.validate_lenient_of_full hshielded h, ?_⟩
  intro call call' t t' id draft e title hschema hcreate htenant hnow hdata hblueprint
  obtain ⟨fault, hrefused⟩ | ⟨hcheck, -, hfresh, hcreated⟩ := createEntity_cases call t id draft
  · rw [hrefused] at hcreate
    cases hcreate
  · rw [hcreated] at hcreate
    cases hcreate
    obtain ⟨⟨fields, hfields⟩, hvalid⟩ := checkDraft_eq_ok hcheck hschema
    exact updateEntity_created hschema hfresh hnow hdata hblueprint htenant hfields
      (Schema.validate_lenient_of_full hshielded hvalid)

end reader

/-! ### A shielded schema -/

/-- Every service has an owner with a name, and no `legacy_id`. -/
def serviceSchema : Json := .object [
  ("$defs", .object [("owner", .object [("required", .array [.string "name"])])]),
  ("not", .object [("required", .array [.string "legacy_id"])]),
  ("properties", .object [("owner", .object [("$ref", .string "#/$defs/owner")])]),
  ("required", .array [.string "owner"])]

def serviceDraft : EntityDraft :=
  ⟨"service", "api", none, .object [("owner", .object [("name", .string "ops")])]⟩

def serviceCall : Call := ⟨"acme", ⟨0, 0⟩⟩

/-- Tables with the blueprint of the schema. -/
def serviceTables : Tables :=
  (Change.createBlueprint ⟨"service", "Service", none, serviceSchema⟩).apply serviceCall .empty

theorem shielded_serviceSchema (v : Validator) (h : Validator.compile? serviceSchema = some v) :
    v.Shielded := by
  have hcompiled : (Validator.compile? serviceSchema).map (fun v => (v.dialect, v.references)) =
      some (.draft2020, ["#/$defs/owner"]) := by decide +kernel
  rw [h, Option.map_some, Option.some.injEq, Prod.mk.injEq] at hcompiled
  obtain ⟨hdialect, hreferences⟩ := hcompiled
  have hroot := (Validator.compile?_eq_some.mp h).2.2.1
  constructor
  · intro a ha
    have hsensitive : Schema.sensitives .draft2020 serviceSchema =
        [("not", .object [("required", .array [.string "legacy_id"])])] := by decide +kernel
    rw [hdialect, hroot, hsensitive, List.mem_singleton] at ha
    rw [ha]
    exact ⟨rfl, nofun⟩
  · intro r hr j hj
    have hwritten : Schema.resolve? serviceSchema "#/$defs/owner" =
        some (.object [("required", .array [.string "name"])]) := by decide +kernel
    have hstripped : Schema.resolve? (Schema.stripRequired serviceSchema) "#/$defs/owner" =
        some (.object []) := by decide +kernel
    rw [hreferences, List.mem_singleton] at hr
    rw [hroot, hr, hwritten] at hj
    cases hj
    refine ⟨.lenient, ?_, ?_⟩
    · rw [hroot, hr, hstripped]
      rfl
    · rw [hdialect]
      nofun

theorem lenience_accepts_service :
    validate .full serviceSchema serviceDraft.data = .ok () ∧
      validate .lenient serviceSchema serviceDraft.data = .ok () ∧
      ∃ e t', createEntity serviceCall "ent-1" serviceDraft serviceTables = (.ok e, t') ∧
        ∃ e', (updateEntity serviceCall "ent-1" ⟨none, some serviceDraft.data⟩ t').1 = .ok e' ∧
          e'.data = serviceDraft.data := by
  have hfull : validate .full serviceSchema serviceDraft.data = .ok () := by decide +kernel
  obtain ⟨hvalid, hagain⟩ := lenience_accepts shielded_serviceSchema
  refine ⟨hfull, hvalid _ hfull, ?_⟩
  have hschema : requireSchema serviceCall.tenant serviceDraft.blueprint serviceTables =
      .ok serviceSchema := by decide +kernel
  have hcreate : ∃ e t', createEntity serviceCall "ent-1" serviceDraft serviceTables =
      (.ok e, t') := by
    have hok : (createEntity serviceCall "ent-1" serviceDraft serviceTables).1.toOption.isSome =
        true := by decide +kernel
    obtain ⟨fault, hrefused⟩ | ⟨-, -, -, hcreated⟩ :=
      createEntity_cases serviceCall serviceTables "ent-1" serviceDraft
    · rw [hrefused] at hok
      cases hok
    · exact ⟨_, _, hcreated⟩
  obtain ⟨e, t', hcreate⟩ := hcreate
  have hnow : serviceCall.now.Storable := ⟨by decide, by decide, by decide, by decide⟩
  have hdata : serviceDraft.data.Storable := by
    refine Json.storable_object_iff.mpr ⟨List.pairwise_singleton _ _, fun f hf => ?_⟩
    rw [List.mem_singleton.mp hf]
    exact ⟨⟨List.pairwise_singleton _ _, trivial, trivial⟩, ⟨trivial, trivial⟩, by decide⟩
  exact ⟨e, t', hcreate, hagain _ _ _ _ _ _ _ none hschema hcreate rfl hnow hdata rfl⟩

/-! ### A schema that is not shielded -/

/-- Either `a` or `b` is there, but not both. -/
def eitherSchema : Json := .object [("oneOf", .array [
  .object [("required", .array [.string "a"])], .object [("required", .array [.string "b"])]])]

def eitherDocument : Json := .object [("a", .number (.integer 1))]

/-- Without its demands for presence the schema asks for one of two schemas that every document
meets. -/
theorem lenience_refuses_either : Schema.checkSchema eitherSchema = .ok () ∧
    validate .full eitherSchema eitherDocument = .ok () ∧
    validate .lenient eitherSchema eitherDocument ≠ .ok () := by
  refine ⟨by decide +kernel, by decide +kernel, by decide +kernel⟩

-- An upper bound counts the items that meet the schema, so it reacts like a negation.
example :
    let schema : Json := .object [("contains", .object [("required", .array [.string "a"])]),
      ("maxContains", .number (.integer 1))]
    validate .full schema (.array [eitherDocument, .object []]) = .ok () ∧
      validate .lenient schema (.array [eitherDocument, .object []]) ≠ .ok () := by decide +kernel

-- A negation is kept as it was written, but not what its references lead to.
example :
    let schema : Json := .object [
      ("$defs", .object [("legacy", .object [("required", .array [.string "legacy_id"])])]),
      ("not", .object [("$ref", .string "#/$defs/legacy")])]
    validate .full schema (.object []) = .ok () ∧
      validate .lenient schema (.object []) ≠ .ok () := by decide +kernel

end EntityStore.Store
