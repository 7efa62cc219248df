import EntityStore.Proofs.Store.Operation

/-! # What a change does

A change is refused and leaves the tables as they are, or it does one of seven things to them
(`Change.effect`).  Each comes with what was checked before: what a property of the tables needs to
survive a change is read off here, and not from the operations.  Of those that are answered with an
error, only a patch of a blueprint can have changed the tables (`Change.Effect.eq_of_error`). -/

namespace EntityStore.Store

/-- The blueprint that a call creates. -/
def Call.blueprint (call : Call) (draft : BlueprintDraft) : Blueprint :=
  ⟨call.tenant, draft.id, draft.title, draft.description, draft.schema, call.time, call.time⟩

/-- What comes of inserting a blueprint whose id is not blank and whose schema can be used. -/
theorem createBlueprint_of_checked {call : Call} {t : Tables} {draft : BlueprintDraft}
    (hid : Text.allBlank draft.id = false) (hschema : Schema.checkSchema draft.schema = .ok ()) :
    createBlueprint call draft t =
      if Sql.isDocument draft.schema.source then
        if (t.blueprint? call.tenant draft.id).isSome then (.error (.blueprintExists draft.id), t)
        else (.ok (call.blueprint draft),
          ⟨t.blueprints ++ [.ofBlueprint (call.blueprint draft)], t.entities⟩)
      else (.error (.internal (Constraint.invalidDocument "schema").databaseError), t) := by
  have hinsert : t.insertBlueprint (.ofBlueprint (call.blueprint draft)) =
      if Sql.isDocument draft.schema.source then
        if (t.blueprint? call.tenant draft.id).isSome then
          .error (.keyTaken "blueprints.tenant_id, blueprints.id")
        else .ok ⟨t.blueprints ++ [.ofBlueprint (call.blueprint draft)], t.entities⟩
      else .error (.invalidDocument "schema") := by
    have hcolumn : (BlueprintRow.ofBlueprint (call.blueprint draft)).schema = draft.schema.source := rfl
    rw [Tables.insertBlueprint, hcolumn]
    cases Sql.isDocument draft.schema.source with
    | false => rfl
    | true => rfl
  rw [Call.blueprint] at hinsert ⊢
  rw [createBlueprint, hid, if_neg Bool.false_ne_true, hschema]
  dsimp only
  rw [hinsert]
  cases Sql.isDocument draft.schema.source with
  | false => rfl
  | true => cases (t.blueprint? call.tenant draft.id).isSome <;> rfl

/-- A blueprint is created where its id is free, if its schema is a document. -/
theorem createBlueprint_of_free {call : Call} {t : Tables} {draft : BlueprintDraft}
    (hid : Text.allBlank draft.id = false) (hschema : Schema.checkSchema draft.schema = .ok ())
    (hdocument : Sql.isDocument draft.schema.source = true)
    (hfree : t.blueprint? call.tenant draft.id = none) : createBlueprint call draft t =
      (.ok (call.blueprint draft),
        ⟨t.blueprints ++ [.ofBlueprint (call.blueprint draft)], t.entities⟩) := by
  rw [createBlueprint_of_checked hid hschema, if_pos hdocument, hfree, Option.isSome_none,
    if_neg Bool.false_ne_true]

variable [FloatReader]

/-- What is answered to a change, and the tables after it. -/
inductive Change.Effect (call : Call) (t : Tables) :
    Change → Except StoreError Answer → Tables → Prop
  | refused (c : Change) (fault : StoreError) : Effect call t c (.error fault) t
  | looked {id : String} {patch : BlueprintPatch} (answer : Except StoreError Answer) :
      patch.isEmpty = true → Effect call t (.updateBlueprint id patch) answer t
  | blueprintCreated {draft : BlueprintDraft} :
      Text.allBlank draft.id = false → Schema.checkSchema draft.schema = .ok () →
      Sql.isDocument draft.schema.source = true → t.blueprint? call.tenant draft.id = none →
      Effect call t (.createBlueprint draft) (.ok (.blueprint (call.blueprint draft)))
        ⟨t.blueprints ++ [.ofBlueprint (call.blueprint draft)], t.entities⟩
  /-- The row is changed even if it cannot be read, which is answered as an error. -/
  | blueprintUpdated {id : String} {patch : BlueprintPatch} (answer : Except StoreError Answer) :
      (∀ schema ∈ patch.schema, Schema.checkSchema schema = .ok ()) →
      BlueprintPatch.holdsDocument patch = true →
      Effect call t (.updateBlueprint id patch) answer
        (t.updateBlueprint call.tenant id (BlueprintPatch.apply patch call.time))
  | blueprintDeleted (id : String) :
      Effect call t (.deleteBlueprint id) (.ok .done) (t.deleteBlueprint call.tenant id)
  | entityCreated {id : String} {draft : EntityDraft} :
      checkDraft call.tenant draft t = .ok () → Sql.isDocument draft.data.source = true →
      (∀ r ∈ t.entities, r.id ≠ some id) →
      Effect call t (.createEntity id draft) (.ok (.entity (call.entity id draft)))
        ⟨t.blueprints, t.entities ++ [.ofEntity (call.entity id draft)]⟩
  | entityUpdated {id : String} {patch : EntityPatch} {e : Entity} {data : Json}
      (answer : Answer) :
      getEntity call.tenant id t = .ok e → patchedData call.tenant e patch.data t = .ok data →
      Sql.isDocument data.source = true →
      Effect call t (.updateEntity id patch) (.ok answer)
        (t.updateEntity call.tenant id (call.replace (patch.title.or e.title) data))
  | entityDeleted (id : String) :
      Effect call t (.deleteEntity id) (.ok .done) (t.deleteEntity call.tenant id)

variable (call : Call) (t : Tables)

theorem effect_createBlueprint (draft : BlueprintDraft) :
    Change.Effect call t (.createBlueprint draft) ((createBlueprint call draft t).1.map .blueprint)
      (createBlueprint call draft t).2 := by
  cases hid : Text.allBlank draft.id with
  | true =>
      rw [createBlueprint, if_pos hid]
      exact .refused _ _
  | false =>
      cases hschema : Schema.checkSchema draft.schema with
      | error fault =>
          rw [createBlueprint, hid, if_neg Bool.false_ne_true, hschema]
          exact .refused _ _
      | ok _ =>
          rw [createBlueprint_of_checked hid hschema]
          split
          · next hdocument =>
              split
              · exact .refused _ _
              · next hfree =>
                  exact .blueprintCreated hid hschema hdocument
                    (Option.not_isSome_iff_eq_none.mp hfree)
          · exact .refused _ _

/-- What was checked if a blueprint is created. -/
theorem createBlueprint_eq_ok {call : Call} {t : Tables} {draft : BlueprintDraft} {b : Blueprint}
    {t' : Tables} (h : createBlueprint call draft t = (.ok b, t')) :
    b = call.blueprint draft ∧ Schema.checkSchema draft.schema = .ok () ∧
      Sql.isDocument draft.schema.source = true ∧ t.blueprint? call.tenant draft.id = none ∧
      t' = ⟨t.blueprints ++ [.ofBlueprint (call.blueprint draft)], t.entities⟩ := by
  have heffect : Change.Effect call t (.createBlueprint draft) (.ok (.blueprint b)) t' := by
    have heffect := effect_createBlueprint call t draft
    rw [h] at heffect
    exact heffect
  cases heffect with
  | blueprintCreated _ hschema hdocument hfree => exact ⟨rfl, hschema, hdocument, hfree, rfl⟩

theorem effect_updateBlueprint (id : String) (patch : BlueprintPatch) :
    Change.Effect call t (.updateBlueprint id patch)
      ((updateBlueprint call id patch t).1.map .blueprint) (updateBlueprint call id patch t).2 := by
  rw [updateBlueprint_eq]
  split
  · next hempty => exact .looked _ hempty
  · split
    · exact .refused _ _
    · next hschema =>
        split
        · exact .refused _ _
        · split
          · exact .refused _ _
          · next hdocument =>
              refine .blueprintUpdated _ (fun schema hpatch => ?_) (by simpa using hdocument)
              rw [Option.mem_def.mp hpatch] at hschema
              exact hschema

/-- What a change answers and does. -/
theorem Change.effect (c : Change) : Change.Effect call t c (c.answer call t) (c.apply call t) := by
  cases c with
  | createBlueprint draft => exact effect_createBlueprint call t draft
  | updateBlueprint id patch => exact effect_updateBlueprint call t id patch
  | deleteBlueprint id =>
      rw [answer, apply, Store.deleteBlueprint]
      split
      · exact .refused _ _
      · exact .blueprintDeleted id
  | createEntity id draft =>
      rw [answer, apply]
      obtain ⟨fault, hrefused⟩ | ⟨hcheck, hdocument, hfresh, hcreated⟩ :=
        createEntity_cases call t id draft
      · rw [hrefused]
        exact .refused _ _
      · rw [hcreated]
        exact .entityCreated hcheck hdocument hfresh
  | updateEntity id patch =>
      rw [answer, apply]
      obtain ⟨fault, hrefused⟩ | ⟨e, data, hget, hdata, hdocument, hupdated⟩ :=
        updateEntity_cases call t id patch
      · rw [hrefused]
        exact .refused _ _
      · rw [hupdated]
        exact .entityUpdated _ hget hdata hdocument
  | deleteEntity id =>
      rw [answer, apply, Store.deleteEntity]
      split
      · exact .refused _ _
      · exact .entityDeleted id

/-! ### Changes that fail -/

variable {call t}

/-- A change that is refused is refused before it is made, unless it is a patch of a blueprint. -/
theorem Change.Effect.eq_of_error {c : Change} {fault : StoreError} {t' : Tables}
    (h : c.Effect call t (.error fault) t') : t' = t ∨ ∃ id patch, c = .updateBlueprint id patch := by
  generalize hanswer : Except.error fault = answer at h
  cases h with
  | refused | looked => exact .inl rfl
  | @blueprintUpdated id patch => exact .inr ⟨id, patch, rfl⟩
  | blueprintCreated | blueprintDeleted | entityCreated | entityUpdated | entityDeleted =>
      cases hanswer

theorem Change.entities_of_error {c : Change} {fault : StoreError}
    (h : c.answer call t = .error fault) : (c.apply call t).entities = t.entities := by
  have heffect := c.effect call t
  rw [h] at heffect
  obtain hsame | ⟨id, patch, rfl⟩ := heffect.eq_of_error
  · rw [hsame]
  · exact updateBlueprint_entities id patch

/-- A step that fails leaves the entities as they are. -/
theorem Step.entities_of_error {s : Step} {fault : StoreError} (h : s.answer t = .error fault) :
    (s.next t).entities = t.entities := by
  obtain ⟨call, operation⟩ := s
  cases operation with
  | change c => exact Change.entities_of_error h
  | getBlueprint _ | listBlueprints | getEntity _ | getEntityNamed _ _ | search _ _ => rfl

end EntityStore.Store
